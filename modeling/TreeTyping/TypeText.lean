/-
Type annotations as text.

A type string is a name, a name with arguments in brackets, a set `{T}` or a map `{K: V}`.  An
argument that is a number gives the length of an array; it may stand anywhere after the first
argument, and of several the last counts.  Blanks may stand before any token and at the end.

`tokens` divides a text, `read` reads one type from the front of the tokens, and `parse` asks that
nothing is left.  Messages about a character that belongs to no token quote the text without the
blanks at its end and give the position behind the last token; all others quote the text as given.
-/
import TreeTyping.Text.Blank
import TreeTyping.Text.Digit
import TreeTyping.Tree.Basic

namespace TreeTyping

inductive TypeText where
  | named (name : String)
  | applied (head : String) (args : List TypeText) (length : Option Nat)
deriving Repr, Inhabited

namespace TypeText

inductive Token where
  | name (s : String)
  | digits (ds : List Char)
  | mark (c : Char)
deriving DecidableEq, Repr

def Token.text : Token → String
  | .name s => s
  | .digits ds => String.ofList ds
  | .mark c => c.toString

inductive Error where
  | badCharacter (text : String) (position : Nat)
  | expected (text what : String)
  | unexpected (text : String) (token : Token)
  | trailing (text : String) (token : Token)
deriving Repr

def Error.message : Error → String
  | .badCharacter text position => "invalid type string " ++ Text.quoted text ++ " at " ++
      toString position
  | .expected text what => "invalid type string " ++ Text.quoted text ++ ": expected " ++ what
  | .unexpected text token =>
    "invalid type string " ++ Text.quoted text ++ ": unexpected " ++ Text.quoted token.text
  | .trailing text token =>
    "invalid type string " ++ Text.quoted text ++ ": trailing " ++ Text.quoted token.text

/-! ### Tokens -/

def startsName (c : Char) : Bool := c.isAlpha || c == '_'

/-- Whether a name may go on with a character. -/
def continuesName (c : Char) : Bool := c.isAlphanum || c == '_'

/-- Whether a character is a token of its own. -/
def isMark (c : Char) : Bool := ['[', ']', '\x7b', '\x7d', ',', ':'].contains c

/-- The token at the front of a text that does not start with a blank, and what follows it. -/
def nextToken : List Char → Option (Token × List Char)
  | [] => none
  | c :: cs =>
    if startsName c then
      some (.name (String.ofList (c :: cs.takeWhile continuesName)), cs.dropWhile continuesName)
    else if Text.isDigit c then
      some (.digits (c :: cs.takeWhile Text.isDigit), cs.dropWhile Text.isDigit)
    else if isMark c then some (.mark c, cs)
    else none

/--
The tokens of a text, or the position of the first place where there is none.

Every token takes a character, so the length of the text is fuel enough.
-/
def tokensFrom : (fuel position : Nat) → List Char → Except Nat (List Token)
  | _, _, [] => .ok []
  | 0, position, _ :: _ => .error position
  | fuel + 1, position, cs =>
    match nextToken (cs.dropWhile Text.isBlank) with
    | none => .error position
    | some (token, rest) => do
      let more ← tokensFrom fuel (position + (cs.length - rest.length)) rest
      return token :: more

def tokens (text : String) : Except Error (List Token) :=
  let cs := Text.dropTrailingBlanks text.toList
  match tokensFrom cs.length 0 cs with
  | .ok ts => .ok ts
  | .error position => .error (.badCharacter (String.ofList cs) position)

/-! ### Types -/

/-- The tokens after the given mark, if it comes first. -/
def expectMark (text : String) (c : Char) : List Token → Except Error (List Token)
  | .mark d :: rest => if d == c then .ok rest else .error (.expected text c.toString)
  | _ => .error (.expected text c.toString)

mutual

def read (text : String) : (fuel : Nat) → List Token → Except Error (TypeText × List Token)
  | 0, _ => .error (.expected text "a type")
  | _ + 1, [] => .error (.expected text "a type")
  | fuel + 1, .mark c :: rest =>
    if c == '\x7b' then do
      let (first, rest) ← read text fuel rest
      match rest with
      | .mark ':' :: rest =>
        let (value, rest) ← read text fuel rest
        let rest ← expectMark text '\x7d' rest
        return (.applied "map" [first, value] none, rest)
      | rest =>
        let rest ← expectMark text '\x7d' rest
        return (.applied "set" [first] none, rest)
    else .error (.unexpected text (.mark c))
  | _ + 1, .digits ds :: _ => .error (.unexpected text (.digits ds))
  | fuel + 1, .name head :: rest =>
    match rest with
    | .mark '[' :: rest => do
      let (first, rest) ← read text fuel rest
      let (more, length, rest) ← readArguments text fuel none rest
      let rest ← expectMark text ']' rest
      return (.applied head (first :: more) length, rest)
    | rest => .ok (.named head, rest)

/-- The arguments after the first, each behind a comma, and the last length among them. -/
def readArguments (text : String) :
    (fuel : Nat) → Option Nat → List Token → Except Error (List TypeText × Option Nat × List Token)
  | 0, _, _ => .error (.expected text "a type")
  | fuel + 1, length, .mark ',' :: .digits ds :: rest =>
    readArguments text fuel ((some (Text.readDigits ds)).or length) rest
  | fuel + 1, length, .mark ',' :: rest => do
    let (arg, rest) ← read text fuel rest
    let (more, length, rest) ← readArguments text fuel length rest
    return (arg :: more, length, rest)
  | _ + 1, length, rest => .ok ([], length, rest)

end

def parse (text : String) : Except Error TypeText := do
  let ts ← tokens text
  let (t, rest) ← read text (2 * ts.length + 2) ts
  match rest with
  | [] => return t
  | token :: _ => throw (.trailing text token)

/-! ### Trees -/

mutual

/-- The annotation node of a type, every node at the given span. -/
def toTree (span : Span) : TypeText → Tree
  | .named name => .node .simpleType span [.text name]
  | .applied head args length =>
    .node .genericType span
      [.text head, .list (toTrees span args),
       match length with
       | some n => .int n
       | none => .null]

def toTrees (span : Span) : List TypeText → List Tree
  | [] => []
  | t :: rest => toTree span t :: toTrees span rest

end

end TypeText

end TreeTyping
