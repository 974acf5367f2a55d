/-
Reading JSON text.

The grammar is that of the JSON standard with three more literals, `NaN`, `Infinity` and
`-Infinity`.  A number with a fraction or an exponent is a double, any other an integer.  Control
characters inside strings, leading zeros, comments, trailing commas and anything after the value are
refused.  Strings hold characters, so a surrogate that has no partner is read as the replacement
character.

The reader walks a list of characters.  Every two nested calls take at least one character off it,
so twice its length is fuel enough.
-/
import TreeTyping.Json.Basic
import TreeTyping.Text.Digit

namespace TreeTyping.Json

def isSpace (c : Char) : Bool := c == ' ' || c == '\t' || c == '\n' || c == '\r'

def skipSpace (cs : List Char) : List Char := cs.dropWhile isSpace

def hexValue? (c : Char) : Option Nat :=
  if '0' ≤ c ∧ c ≤ '9' then some (c.toNat - 48)
  else if 'a' ≤ c ∧ c ≤ 'f' then some (c.toNat - 87)
  else if 'A' ≤ c ∧ c ≤ 'F' then some (c.toNat - 55)
  else none

def hexUnit? (a b c d : Char) : Option Nat := do
  let a ← hexValue? a
  let b ← hexValue? b
  let c ← hexValue? c
  let d ← hexValue? d
  return ((a * 16 + b) * 16 + c) * 16 + d

def isHighSurrogate (n : Nat) : Bool := 0xd800 ≤ n && n ≤ 0xdbff

def isLowSurrogate (n : Nat) : Bool := 0xdc00 ≤ n && n ≤ 0xdfff

/-- The character of a code unit; half a surrogate pair gives the replacement character. -/
def unitChar (n : Nat) : Char :=
  if isHighSurrogate n || isLowSurrogate n then Char.ofNat 0xfffd else Char.ofNat n

def pairChar (high low : Nat) : Char :=
  Char.ofNat (0x10000 + (high - 0xd800) * 0x400 + (low - 0xdc00))

/-- The character behind a one-letter escape. -/
def simpleEscape? (c : Char) : Option Char :=
  match c with
  | '"' => some '"'
  | '\\' => some '\\'
  | '/' => some '/'
  | 'b' => some (Char.ofNat 8)
  | 'f' => some (Char.ofNat 12)
  | 'n' => some '\n'
  | 'r' => some '\r'
  | 't' => some '\t'
  | _ => none

/--
The rest of a string after its opening quote, and the text after its closing quote.

`seen` holds the characters read so far, last first.  `pending` is the first half of a surrogate
pair that the character before may have left open.
-/
def stringRest (seen : List Char) (pending : Option Nat) : List Char → Option (String × List Char)
  | '"' :: rest =>
    let seen := match pending with
      | some high => unitChar high :: seen
      | none => seen
    some (String.ofList seen.reverse, rest)
  | '\\' :: 'u' :: a :: b :: c :: d :: rest =>
    match hexUnit? a b c d with
    | none => none
    | some unit =>
      match pending with
      | some high =>
        if isLowSurrogate unit then stringRest (pairChar high unit :: seen) none rest
        else if isHighSurrogate unit then stringRest (unitChar high :: seen) (some unit) rest
        else stringRest (unitChar unit :: unitChar high :: seen) none rest
      | none =>
        if isHighSurrogate unit then stringRest seen (some unit) rest
        else stringRest (unitChar unit :: seen) none rest
  | '\\' :: c :: rest =>
    match simpleEscape? c with
    | none => none
    | some c =>
      match pending with
      | some high => stringRest (c :: unitChar high :: seen) none rest
      | none => stringRest (c :: seen) none rest
  | c :: rest =>
    if c.toNat < 0x20 then none
    else match pending with
      | some high => stringRest (c :: unitChar high :: seen) none rest
      | none => stringRest (c :: seen) none rest
  | [] => none

/-- The decimal digits in front of a text, and what follows them. -/
def spanDigits (cs : List Char) : List Char × List Char :=
  (cs.takeWhile Char.isDigit, cs.dropWhile Char.isDigit)

/-- The whole part of a number: a zero, or digits that do not start with one. -/
def wholePart : List Char → Option (List Char × List Char)
  | '0' :: rest => some (['0'], rest)
  | cs =>
    let (digits, rest) := spanDigits cs
    if digits.isEmpty then none else some (digits, rest)

def fractionPart : List Char → Option (List Char × List Char)
  | '.' :: cs =>
    let (digits, rest) := spanDigits cs
    if digits.isEmpty then none else some (digits, rest)
  | _ => none

def exponentPart : List Char → Option (Int × List Char)
  | e :: cs =>
    if e == 'e' || e == 'E' then
      let (negative, cs) := match cs with
        | '-' :: cs => (true, cs)
        | '+' :: cs => (false, cs)
        | cs => (false, cs)
      let (digits, rest) := spanDigits cs
      if digits.isEmpty then none
      else
        let n : Int := Text.readDigits digits
        some (if negative then -n else n, rest)
    else none
  | [] => none

def unsignedNumber (negative : Bool) (cs : List Char) : Option (Json × List Char) :=
  match wholePart cs with
  | none => none
  | some (whole, rest) =>
    match fractionPart rest, exponentPart rest with
    | none, none =>
      let n : Int := Text.readDigits whole
      some (.int (if negative then -n else n), rest)
    | none, some (exponent, rest) =>
      some (.float (Binary64.ofDecimal negative (Text.readDigits whole) exponent), rest)
    | some (fraction, rest), _ =>
      let digits := Text.readDigits (whole ++ fraction)
      match exponentPart rest with
      | none => some (.float (Binary64.ofDecimal negative digits (-(fraction.length : Int))), rest)
      | some (exponent, rest) =>
        some (.float (Binary64.ofDecimal negative digits (exponent - fraction.length)), rest)

/-- The literals that are written as words, and their values. -/
def words : List (String × Json) :=
  [("null", .null), ("true", .bool true), ("false", .bool false), ("NaN", .float .nan),
   ("Infinity", .float (.infinite false)), ("-Infinity", .float (.infinite true))]

/-- The text after the given word, if the text starts with it. -/
def afterWord : (word cs : List Char) → Option (List Char)
  | [], cs => some cs
  | _ :: _, [] => none
  | w :: word, c :: cs => if w == c then afterWord word cs else none

def atom (cs : List Char) : Option (Json × List Char) :=
  match words.findSome? fun w => (afterWord w.1.toList cs).map fun rest => (w.2, rest) with
  | some found => some found
  | none =>
    match cs with
    | '-' :: cs => unsignedNumber true cs
    | cs => unsignedNumber false cs

mutual

/-- One value at the front of a text, and what follows it. -/
def value : (fuel : Nat) → List Char → Option (Json × List Char)
  | 0, _ => none
  | fuel + 1, cs =>
    match cs with
    | '"' :: rest => (stringRest [] none rest).map fun (s, rest) => (.str s, rest)
    | '[' :: rest =>
      match skipSpace rest with
      | ']' :: rest => some (.arr [], rest)
      | rest => (items fuel rest).map fun (xs, rest) => (.arr xs, rest)
    | '\x7b' :: rest =>
      match skipSpace rest with
      | '\x7d' :: rest => some (.obj [], rest)
      | rest => (entries fuel [] rest).map fun (es, rest) => (.obj es, rest)
    | cs => atom cs

/-- The elements of an array up to its closing bracket. -/
def items : (fuel : Nat) → List Char → Option (List Json × List Char)
  | 0, _ => none
  | fuel + 1, cs =>
    match value fuel cs with
    | none => none
    | some (first, rest) =>
      match skipSpace rest with
      | ']' :: rest => some ([first], rest)
      | ',' :: rest => (items fuel (skipSpace rest)).map fun (more, rest) => (first :: more, rest)
      | _ => none

/-- The entries of an object up to its closing brace, after those already read. -/
def entries : (fuel : Nat) → List (String × Json) → List Char →
    Option (List (String × Json) × List Char)
  | 0, _, _ => none
  | fuel + 1, seen, cs =>
    match cs with
    | '"' :: rest =>
      match stringRest [] none rest with
      | none => none
      | some (key, rest) =>
        match skipSpace rest with
        | ':' :: rest =>
          match value fuel (skipSpace rest) with
          | none => none
          | some (v, rest) =>
            let seen := Keyed.insert key v seen
            match skipSpace rest with
            | '\x7d' :: rest => some (seen, rest)
            | ',' :: rest => entries fuel seen (skipSpace rest)
            | _ => none
        | _ => none
    | _ => none

end

def parse? (text : String) : Option Json :=
  let cs := text.toList
  match value (2 * cs.length + 2) (skipSpace cs) with
  | some (v, rest) => if (skipSpace rest).isEmpty then some v else none
  | none => none

end TreeTyping.Json
