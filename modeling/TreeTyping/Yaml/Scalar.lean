/-
Plain scalars.

The value of a scalar without quotes follows from its spelling: null, truth values, integers and
floating-point numbers have spellings of their own, and everything else is a text.  Integers may be
binary, octal, decimal, hexadecimal or in base sixty, and underscores between digits are ignored.  A
floating-point number has a point, and its exponent, if any, has a sign.
-/
import TreeTyping.Json.Reader
import TreeTyping.Yaml.Basic

namespace TreeTyping.Yaml

def nullWords : List String := ["", "~", "null", "Null", "NULL"]

def trueWords : List String := ["yes", "Yes", "YES", "true", "True", "TRUE", "on", "On", "ON"]

def falseWords : List String := ["no", "No", "NO", "false", "False", "FALSE", "off", "Off", "OFF"]

/-- A sign in front of a number, and what follows it. -/
def splitSign : List Char → Bool × List Char
  | '-' :: rest => (true, rest)
  | '+' :: rest => (false, rest)
  | cs => (false, cs)

def withoutBars (cs : List Char) : List Char := cs.filter (· != '_')

/-- Whether characters are digits of a kind or underscores. -/
def areDigits (digit : Char → Bool) (cs : List Char) : Bool := cs.all fun c => digit c || c == '_'

def readBase (base : Nat) (cs : List Char) : Nat :=
  (withoutBars cs).foldl (fun n c => base * n + (Json.hexValue? c).getD 0) 0

def isLeading (c : Char) : Bool := c.isDigit && c != '0'

/-- Whether characters are the digits of one place in base sixty. -/
def isSixtieth : List Char → Bool
  | [a] => a.isDigit
  | [a, b] => '0' ≤ a && a ≤ '5' && b.isDigit
  | _ => false

def splitColons : List Char → List (List Char)
  | [] => [[]]
  | ':' :: rest => [] :: splitColons rest
  | c :: rest =>
    match splitColons rest with
    | first :: parts => (c :: first) :: parts
    | [] => [[c]]

/-- An integer in base sixty: its first part has any number of digits. -/
def sexagesimal? (cs : List Char) : Option Nat :=
  match splitColons cs with
  | (c :: first) :: second :: parts =>
    if isLeading c && areDigits Char.isDigit first && (second :: parts).all isSixtieth then
      some ((second :: parts).foldl (fun n part => 60 * n + readBase 10 part)
        (readBase 10 (c :: first)))
    else none
  | _ => none

/-- The size of an integer without its sign. -/
def magnitude? : List Char → Option Nat
  | ['0'] => some 0
  | '0' :: 'b' :: digits =>
    if digits ≠ [] ∧ areDigits (fun c => c == '0' || c == '1') digits then
      some (readBase 2 digits) else none
  | '0' :: 'x' :: digits =>
    if digits ≠ [] ∧ areDigits (fun c => (Json.hexValue? c).isSome) digits then
      some (readBase 16 digits)
    else none
  | '0' :: digits =>
    if areDigits (fun c => '0' ≤ c && c ≤ '7') digits then some (readBase 8 digits) else none
  | c :: digits =>
    if isLeading c && areDigits Char.isDigit digits then some (readBase 10 (c :: digits))
    else sexagesimal? (c :: digits)
  | [] => none

def int? (cs : List Char) : Option Int :=
  let (negative, digits) := splitSign cs
  (magnitude? digits).map fun n => if negative then -n else n

/-- The exponent of a floating-point number, which has a sign. -/
def exponent? : List Char → Option Int
  | [] => some 0
  | e :: sign :: digits =>
    if (e == 'e' || e == 'E') && (sign == '+' || sign == '-') && digits ≠ [] &&
      digits.all Char.isDigit then
      let n : Int := readBase 10 digits
      some (if sign == '-' then -n else n)
    else none
  | _ => none

/-- The number with the given digits before and after its point. -/
def decimal (negative : Bool) (whole fraction : List Char) (exponent : Int) : Binary64 :=
  let fraction := withoutBars fraction
  .ofDecimal negative (readBase 10 (whole ++ fraction)) (exponent - fraction.length)

/-- A floating-point number in base sixty, from the parts before its point. -/
def sexagesimalFloat? (negative : Bool) (whole fraction : List Char) : Option Binary64 :=
  match splitColons whole with
  | (c :: first) :: second :: parts =>
    if c.isDigit && areDigits Char.isDigit first && (second :: parts).all isSixtieth then
      let places := ((c :: first) :: second :: parts).reverse
      let low := decimal false (places.headD []) fraction 0
      let (sum, _) := places.tail.foldl (fun (acc : Binary64 × Int) part =>
        (acc.1.add ((Binary64.ofInt (readBase 10 part)).mul (.ofInt acc.2)), acc.2 * 60)) (low, 60)
      some (if negative then sum.neg else sum)
    else none
  | _ => none

def pointed? (negative signed : Bool) (cs : List Char) : Option Binary64 :=
  let whole := cs.takeWhile (· != '.')
  match cs.dropWhile (· != '.') with
  | _ :: rest =>
    let digit (c : Char) : Bool := c.isDigit || c == '_'
    let fraction := rest.takeWhile digit
    let tail := rest.dropWhile digit
    match whole with
    | [] =>
      if !signed && (fraction.head?.any Char.isDigit) then
        (exponent? tail).map (decimal negative [] fraction)
      else none
    | c :: more =>
      if c.isDigit && areDigits Char.isDigit more then
        (exponent? tail).map (decimal negative whole fraction)
      else if tail.isEmpty then sexagesimalFloat? negative whole fraction
      else none
  | [] => none

def float? (cs : List Char) : Option Binary64 :=
  let (negative, body) := splitSign cs
  if [".inf", ".Inf", ".INF"].contains (String.ofList body) then some (.infinite negative)
  else if [".nan", ".NaN", ".NAN"].contains (String.ofList cs) then some .nan
  else pointed? negative (body.length != cs.length) body

def ofPlain (s : String) : Yaml :=
  if nullWords.contains s then .null
  else if trueWords.contains s then .bool true
  else if falseWords.contains s then .bool false
  else
    match int? s.toList, float? s.toList with
    | some n, _ => .int n
    | none, some x => .float x
    | none, none => .str s

end TreeTyping.Yaml
