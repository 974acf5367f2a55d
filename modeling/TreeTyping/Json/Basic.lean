/-
JSON values.

Integers have any size and are kept apart from double-precision numbers: `1` and `1.0` are different
values.  The entries of an object keep the order of the document, and a key occurs once: a repeated
key overwrites the value at the place of its first occurrence.
-/
import TreeTyping.Binary64.Shortest
import TreeTyping.Keyed
import TreeTyping.Text.Quoted

namespace TreeTyping

inductive Json where
  | null
  | bool (b : Bool)
  | int (n : Int)
  | float (x : Binary64)
  | str (s : String)
  | arr (items : List Json)
  | obj (entries : List (String × Json))
deriving Repr, Inhabited

namespace Json

def get? (key : String) : Json → Option Json
  | .obj entries => Keyed.find? key entries
  | _ => none

/-- The value under a key of an object, null when it is absent. -/
def getD (key : String) (doc : Json) : Json := (doc.get? key).getD .null

/-- The kind of a value, as messages name it. -/
def kindName : Json → String
  | .null => "NoneType"
  | .bool _ => "bool"
  | .int _ => "int"
  | .float _ => "float"
  | .str _ => "str"
  | .arr _ => "list"
  | .obj _ => "dict"

/-- Whether a value counts as present: everything but null, false, zero and what is empty. -/
def isTruthy : Json → Bool
  | .null => false
  | .bool b => b
  | .int n => n != 0
  | .float x => !x.isZero
  | .str s => s != ""
  | .arr items => !items.isEmpty
  | .obj entries => !entries.isEmpty

mutual

def display : Json → String
  | .null => "None"
  | .bool b => if b then "True" else "False"
  | .int n => toString n
  | .float x => x.text
  | .str s => Text.quoted s
  | .arr items => "[" ++ ", ".intercalate (displayItems items) ++ "]"
  | .obj entries => "\x7b" ++ ", ".intercalate (displayEntries entries) ++ "\x7d"

def displayItems : List Json → List String
  | [] => []
  | item :: rest => display item :: displayItems rest

def displayEntries : List (String × Json) → List String
  | [] => []
  | (key, value) :: rest => (Text.quoted key ++ ": " ++ display value) :: displayEntries rest

end

/-- A value inside running text: a string as it is, anything else as messages quote it. -/
def plain : Json → String
  | .str s => s
  | value => value.display

end Json

end TreeTyping
