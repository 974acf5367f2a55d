/-
Writing trees as documents.

A node is an object that names its class under `node`, its span under `span` unless it has none, and
then holds one entry per field in the order of the class.  Operators and literal kinds are written
by their symbols.  A tree document wraps the root with the id of the schema and, if there is one,
the name of the file.
-/
import TreeTyping.Tree.Basic

namespace TreeTyping

def treeSchemaId : String := "typecore-tree-json-v0.1"

namespace Tree

/-- The entries in front of a node's fields. -/
def headerEntries (cls : NodeClass) (span : Span) : List (String × Json) :=
  ("node", .str cls.name) ::
    match span.toTreeJson? with
    | some s => [("span", s)]
    | none => []

mutual

def toJson : Tree → Json
  | .null => .null
  | .bool b => .bool b
  | .int n => .int n
  | .float x => .float x
  | .text s => .str s
  | .operator op => .str op.symbol
  | .literalKind kind => .str kind.symbol
  | .location s => .str s.text
  | .list items => .arr (toJsonItems items)
  | .object entries => .obj (toJsonEntries entries)
  | .node cls span fields => .obj (headerEntries cls span ++ toJsonFields cls.fields fields)

def toJsonItems : List Tree → List Json
  | [] => []
  | t :: rest => toJson t :: toJsonItems rest

def toJsonEntries : List (String × Tree) → List (String × Json)
  | [] => []
  | (key, t) :: rest => (key, toJson t) :: toJsonEntries rest

/-- The JSON forms of field values, under the names of the fields. -/
def toJsonFields : List FieldSpec → List Tree → List (String × Json)
  | spec :: specs, t :: rest => (spec.name, toJson t) :: toJsonFields specs rest
  | _, _ => []

end

/-- The tree document of a module, in the given file if it is not null. -/
def toDocument (root : Tree) (file : Json) : Json :=
  let doc := [("schema", .str treeSchemaId), ("module", root.toJson)]
  match file with
  | .null => .obj doc
  | file => .obj (doc ++ [("file", file)])

end Tree

end TreeTyping
