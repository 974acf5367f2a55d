/-
Places in a document, and the scalars that start there.

A cursor is what is left of a document, with the column it starts in.  Blanks between tokens are
spaces, line ends and comments; a tab is never one.  Inside a scalar a line end counts as a space,
and further empty lines count as line ends.
-/
import TreeTyping.Yaml.Scalar

namespace TreeTyping.Yaml

/-- What is left of a document, and the column it starts in. -/
structure Cursor where
  rest : List Char
  column : Nat

/-- Whether a token may end in front of a text. -/
def separates : List Char → Bool
  | [] => true
  | c :: _ => c == ' ' || c == '\t' || c == '\n'

/-- Whether a text starts with the given three characters as a mark of their own. -/
def startsWithMark (mark : Char) : List Char → Bool
  | a :: b :: c :: rest => a == mark && b == mark && c == mark && separates rest
  | _ => false

namespace Cursor

def columnAfter (column : Nat) (read : List Char) : Nat :=
  read.foldl (fun n c => if c == '\n' then 0 else n + 1) column

/-- The cursor at a later place of the same document. -/
def moveTo (c : Cursor) (rest : List Char) : Cursor :=
  ⟨rest, columnAfter c.column (c.rest.take (c.rest.length - rest.length))⟩

/-- Whether there is a line end between a place and a later one. -/
def crosses (c : Cursor) (rest : List Char) : Bool :=
  (c.rest.take (c.rest.length - rest.length)).contains '\n'

def atStart (c : Cursor) : Bool := c.column == 0 && startsWithMark '-' c.rest

def atStop (c : Cursor) : Bool := c.column == 0 && startsWithMark '.' c.rest

/-- Whether there is no more content in this document. -/
def atEnd (c : Cursor) : Bool := c.rest.isEmpty || c.atStart || c.atStop

end Cursor

def skipBlanks (comment : Bool) : List Char → List Char
  | [] => []
  | c :: rest =>
    if c == '\n' then skipBlanks false rest
    else if comment || c == '#' then skipBlanks true rest
    else if c == ' ' then skipBlanks false rest
    else c :: rest

/-- The next token, and whether it is on another line. -/
def Cursor.next (c : Cursor) : Cursor × Bool :=
  let rest := skipBlanks false c.rest
  (c.moveTo rest, c.crosses rest)

/-! ### Blanks inside scalars -/

/-- What a run of blanks with the given line ends stands for. -/
def foldedText (blanks : List Char) (lineEnds : Nat) : List Char :=
  match lineEnds with
  | 0 => blanks
  | 1 => [' ']
  | n + 2 => List.replicate (n + 1) '\n'

/-- Whether a text that starts a line starts with a mark between documents. -/
def startsWithAnyMark (cs : List Char) : Bool := startsWithMark '-' cs || startsWithMark '.' cs

/-! ### Plain scalars -/

/-- Characters that divide the parts of a flow collection. -/
def isFlowIndicator (c : Char) : Bool := [',', '[', ']', '\x7b', '\x7d'].contains c

/-- Whether a plain scalar can start in front of a text. -/
def startsPlain (flow : Bool) : List Char → Bool
  | [] => false
  | c :: rest =>
    if c == '-' then !separates rest
    else if c == '?' || c == ':' then !flow && !separates rest
    else !([' ', '\t', '\n', '#', '&', '*', '!', '|', '>', '\'', '"', '%', '@',
      Char.ofNat 96].contains c
      || isFlowIndicator c)

/-- The characters of a plain scalar up to a blank or the end of the scalar, and what follows. -/
def plainChunk (flow : Bool) : List Char → List Char × List Char
  | [] => ([], [])
  | c :: rest =>
    let ends := separates [c]
      || (c == ':' && (separates rest || (flow && (rest.head?.any isFlowIndicator))))
      || (flow && (isFlowIndicator c || c == '?'))
    if ends then ([], c :: rest)
    else
      let (chunk, rest) := plainChunk flow rest
      (c :: chunk, rest)

/-- The spaces in front of a text, the number of line ends, and what follows. -/
def plainBlanks : List Char → List Char × Nat × List Char
  | ' ' :: rest =>
    let (blanks, n, rest) := plainBlanks rest
    (' ' :: blanks, n, rest)
  | '\n' :: rest =>
    if startsWithAnyMark rest then ([], 1, rest)
    else
      let (blanks, n, rest) := plainBlanks rest
      (blanks, n + 1, rest)
  | rest => ([], 0, rest)

/--
A plain scalar, and what follows it.

In a block it goes on in lines that are indented by at least `indent`; with `indent` missing it ends
with its line.
-/
def scanPlain (flow : Bool) (indent : Option Nat) : (fuel : Nat) → Cursor → List Char × List Char
  | 0, c => ([], c.rest)
  | fuel + 1, c =>
    let (chunk, afterChunk) := plainChunk flow c.rest
    let (blanks, lineEnds, afterBlanks) := plainBlanks afterChunk
    let here := c.moveTo afterBlanks
    let goesOn := match indent with
      | none => lineEnds == 0
      | some indent => lineEnds == 0 || flow || indent ≤ here.column
    if chunk.isEmpty || afterBlanks.length == afterChunk.length || !goesOn
        || (here.column == 0 && startsWithAnyMark afterBlanks) || afterBlanks.head? == some '#' then
      (chunk, afterChunk)
    else
      let (more, rest) := scanPlain flow indent fuel here
      if more.isEmpty then (chunk, afterChunk)
      else (chunk ++ foldedText blanks lineEnds ++ more, rest)

/-! ### Quoted scalars -/

/-- The blanks and line ends before a text inside quotes; a mark between documents is refused. -/
def quotedBlanks : List Char → Option (List Char × Nat × List Char)
  | '\n' :: rest =>
    if startsWithAnyMark rest then none
    else do
      let (blanks, n, rest) ← quotedBlanks rest
      return (blanks, n + 1, rest)
  | c :: rest =>
    if c == ' ' || c == '\t' then do
      let (blanks, n, rest) ← quotedBlanks rest
      return (c :: blanks, n, rest)
    else some ([], 0, c :: rest)
  | [] => some ([], 0, [])

def escaped? (c : Char) : Option Char :=
  match c with
  | '0' => some (Char.ofNat 0)
  | 'a' => some (Char.ofNat 7)
  | 'b' => some (Char.ofNat 8)
  | 't' => some '\t'
  | '\t' => some '\t'
  | 'n' => some '\n'
  | 'v' => some (Char.ofNat 11)
  | 'f' => some (Char.ofNat 12)
  | 'r' => some '\r'
  | 'e' => some (Char.ofNat 27)
  | ' ' => some ' '
  | '"' => some '"'
  | '\\' => some '\\'
  | '/' => some '/'
  | 'N' => some (Char.ofNat 0x85)
  | '_' => some (Char.ofNat 0xa0)
  | 'L' => some (Char.ofNat 0x2028)
  | 'P' => some (Char.ofNat 0x2029)
  | _ => none

def escapeWidth? : Char → Option Nat
  | 'x' => some 2
  | 'u' => some 4
  | 'U' => some 8
  | _ => none

def hexChar? (digits : List Char) (width : Nat) : Option Char :=
  if digits.length = width ∧ digits.all fun c => (Json.hexValue? c).isSome then
    let n := readBase 16 digits
    if n < 0x110000 then some (Json.unitChar n) else none
  else none

/-- The line ends and blanks after a line that ends in a backslash. -/
def continuedLine (rest : List Char) : Option (List Char × List Char) := do
  let (_, n, rest) ← quotedBlanks ('\n' :: rest)
  return (List.replicate (n - 1) '\n', rest)

/-- The rest of a scalar in single quotes, and what follows it; a quote inside is written twice. -/
def scanSingle : (fuel : Nat) → List Char → Option (List Char × List Char)
  | 0, _ => none
  | _ + 1, [] => none
  | fuel + 1, '\'' :: '\'' :: rest => do
    let (more, rest) ← scanSingle fuel rest
    return ('\'' :: more, rest)
  | _ + 1, '\'' :: rest => some ([], rest)
  | fuel + 1, c :: rest =>
    if separates [c] then do
      let (blanks, n, rest) ← quotedBlanks (c :: rest)
      let (more, rest) ← scanSingle fuel rest
      return (foldedText blanks n ++ more, rest)
    else do
      let (more, rest) ← scanSingle fuel rest
      return (c :: more, rest)

/-- The rest of a scalar in double quotes, and what follows it. -/
def scanDouble : (fuel : Nat) → List Char → Option (List Char × List Char)
  | 0, _ => none
  | _ + 1, [] => none
  | _ + 1, '"' :: rest => some ([], rest)
  | _ + 1, ['\\'] => none
  | fuel + 1, '\\' :: '\n' :: rest => do
    let (lineEnds, rest) ← continuedLine rest
    let (more, rest) ← scanDouble fuel rest
    return (lineEnds ++ more, rest)
  | fuel + 1, '\\' :: c :: rest =>
    match escapeWidth? c with
    | some width => do
      let char ← hexChar? (rest.take width) width
      let (more, rest) ← scanDouble fuel (rest.drop width)
      return (char :: more, rest)
    | none => do
      let char ← escaped? c
      let (more, rest) ← scanDouble fuel rest
      return (char :: more, rest)
  | fuel + 1, c :: rest =>
    if separates [c] then do
      let (blanks, n, rest) ← quotedBlanks (c :: rest)
      let (more, rest) ← scanDouble fuel rest
      return (foldedText blanks n ++ more, rest)
    else do
      let (more, rest) ← scanDouble fuel rest
      return (c :: more, rest)

def scanScalar (flow : Bool) (indent : Option Nat) (c : Cursor) : Option (Yaml × Cursor) :=
  let fuel := c.rest.length + 1
  match c.rest with
  | '\'' :: rest => do
    let (text, rest) ← scanSingle fuel rest
    return (.str (String.ofList text), c.moveTo rest)
  | '"' :: rest => do
    let (text, rest) ← scanDouble fuel rest
    return (.str (String.ofList text), c.moveTo rest)
  | rest =>
    if startsPlain flow rest then
      let (text, rest) := scanPlain flow indent fuel c
      some (ofPlain (String.ofList text), c.moveTo rest)
    else none

end TreeTyping.Yaml
