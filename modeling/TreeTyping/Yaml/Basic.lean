/-
Values of configuration files.

A YAML value is like a JSON value except that the keys of a mapping may be any value.  Every JSON
value is one, so configuration that arrives as JSON is read into the same type.
-/
import TreeTyping.Json.Basic

namespace TreeTyping

inductive Yaml where
  | null
  | bool (b : Bool)
  | int (n : Int)
  | float (x : Binary64)
  | str (s : String)
  | seq (items : List Yaml)
  | map (entries : List (Yaml × Yaml))
deriving Repr, Inhabited

namespace Yaml

def kindName : Yaml → String
  | .null => "NoneType"
  | .bool _ => "bool"
  | .int _ => "int"
  | .float _ => "float"
  | .str _ => "str"
  | .seq _ => "list"
  | .map _ => "dict"

def isTruthy : Yaml → Bool
  | .null => false
  | .bool b => b
  | .int n => n != 0
  | .float x => !x.isZero
  | .str s => s != ""
  | .seq items => !items.isEmpty
  | .map entries => !entries.isEmpty

mutual

def display : Yaml → String
  | .null => "None"
  | .bool b => if b then "True" else "False"
  | .int n => toString n
  | .float x => x.text
  | .str s => Text.quoted s
  | .seq items => "[" ++ ", ".intercalate (displayItems items) ++ "]"
  | .map entries => "\x7b" ++ ", ".intercalate (displayEntries entries) ++ "\x7d"

def displayItems : List Yaml → List String
  | [] => []
  | item :: rest => display item :: displayItems rest

def displayEntries : List (Yaml × Yaml) → List String
  | [] => []
  | (key, value) :: rest => (display key ++ ": " ++ display value) :: displayEntries rest

end

mutual

def ofJson : Json → Yaml
  | .null => .null
  | .bool b => .bool b
  | .int n => .int n
  | .float x => .float x
  | .str s => .str s
  | .arr items => .seq (ofJsonItems items)
  | .obj entries => .map (ofJsonEntries entries)

def ofJsonItems : List Json → List Yaml
  | [] => []
  | item :: rest => ofJson item :: ofJsonItems rest

def ofJsonEntries : List (String × Json) → List (Yaml × Yaml)
  | [] => []
  | (key, value) :: rest => (.str key, ofJson value) :: ofJsonEntries rest

end

/-- Whether two keys of a mapping are the same; numbers and truth values are compared by value. -/
def sameKey : Yaml → Yaml → Bool
  | .null, .null => true
  | .str a, .str b => a == b
  | .int a, .int b => a == b
  | .bool a, .bool b => a == b
  | .bool a, .int b => (if a then 1 else 0) == b
  | .int a, .bool b => a == (if b then 1 else 0)
  | .float a, .float b => a == b
  | .float a, .int b => a.equalsInt b
  | .int a, .float b => b.equalsInt a
  | _, _ => false

def isKey : Yaml → Bool
  | .seq _ | .map _ => false
  | _ => true

/-- Entries after a write: a key that is there keeps its place and takes the new value. -/
def insertEntry (key value : Yaml) : List (Yaml × Yaml) → List (Yaml × Yaml)
  | [] => [(key, value)]
  | (k, v) :: rest => if sameKey k key then (k, value) :: rest else (k, v) ::
      insertEntry key value rest

end Yaml

end TreeTyping
