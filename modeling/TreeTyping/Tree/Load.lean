/-
Loading trees from documents.

A document is refused at the first thing that does not fit, looked for in a fixed order: the class
of a node, fields the class does not have, the span, then the fields in the order of the class, each
read before its shape is checked, and last the value of a literal against its kind.  What stands
below a field is therefore reported before the field itself.

Reading is by recursion on the JSON value: the parts of an object are read first, each on its own,
and `assemble` then takes them in the order of the class.
-/
import TreeTyping.Json.Reader
import TreeTyping.Tree.Write

namespace TreeTyping

/-- Why a document does not describe a tree. -/
inductive LoadError where
  | notAnObject (kind : String)
  /-- The class of a node is named by a value that cannot be looked up at all. -/
  | unusableClass
  | unknownClass (found : Json)
  | unknownFields (cls : NodeClass) (names : List String)
  | badSpan (found : Json)
  | badSymbol (field : String) (found : Json)
  | misfit (cls : NodeClass) (spec : FieldSpec) (found : String)
  | missingField (cls : NodeClass) (field : String)
  | literalMismatch (found : Json) (kind : LiteralKind)
  | invalidJson
  | documentNotAnObject (kind : String)
  | unsupportedSchema (found : Json)
  | missingModule
  | rootNotModule (cls : String)
deriving Repr

def LoadError.message : LoadError → String
  | .notAnObject kind => "node must be an object, got " ++ kind
  | .unusableClass => "unusable node type"
  | .unknownClass found => "unknown node type: " ++ found.display
  | .unknownFields cls names => cls.name ++ " has no field(s): " ++ ", ".intercalate names
  | .badSpan found =>
    "span must be [line, column] or [line, column, end_line, end_column], got " ++ found.display
  | .badSymbol field found => "invalid " ++ field ++ ": " ++ found.display
  | .misfit cls spec found =>
    cls.name ++ "." ++ spec.name ++ " must be " ++ spec.shape.describe ++ ", got " ++ found
  | .missingField cls field => cls.name ++ " is missing field '" ++ field ++ "'"
  | .literalMismatch found kind =>
    "Literal value " ++ found.display ++ " does not match literal_kind '" ++ kind.symbol ++ "'"
  | .invalidJson => "invalid JSON: malformed document"
  | .documentNotAnObject kind => "tree document must be an object, got " ++ kind
  | .unsupportedSchema found => "unsupported tree schema: " ++ found.plain
  | .missingModule => "tree document missing 'module'"
  | .rootNotModule cls => "root node must be a Module, got " ++ cls

namespace Tree

/-- How messages describe a value that does not fit. -/
def describeValue : Tree → String
  | .node cls _ _ => cls.name ++ " node"
  | .null => "null"
  | .list _ => "list"
  | .object _ => "dict"
  | t => t.kindName ++ " " ++ t.toJson.display

def loadSpan (file : Json) : Json → Except LoadError Span
  | .null => .ok .nowhere
  | .arr items =>
    match Span.ofCoords? file items with
    | some s => .ok s
    | none => .error (.badSpan (.arr items))
  | found => .error (.badSpan found)

def loadOperator (raw : Json) : Except LoadError Tree :=
  match raw with
  | .str s =>
    match Operator.ofSymbol? s with
    | some op => .ok (.operator op)
    | none => .error (.badSymbol "operator" raw)
  | _ => .error (.badSymbol "operator" raw)

def loadLiteralKind (raw : Json) : Except LoadError Tree :=
  match raw with
  | .str s =>
    match LiteralKind.ofSymbol? s with
    | some kind => .ok (.literalKind kind)
    | none => .error (.badSymbol "literal_kind" raw)
  | _ => .error (.badSymbol "literal_kind" raw)

def loadClass : Json → Except LoadError NodeClass
  | .str s =>
    match NodeClass.ofName? s with
    | some cls => .ok cls
    | none => .error (.unknownClass (.str s))
  | .arr _ => .error .unusableClass
  | .obj _ => .error .unusableClass
  | found => .error (.unknownClass found)

/-- An entry of an object: its JSON value, and the tree or error that reading it gives. -/
abbrev Part := Json × Except LoadError Tree

def loadField (cls : NodeClass) (parts : List (String × Part)) (spec : FieldSpec) :
    Except LoadError Tree :=
  match Keyed.find? spec.name parts with
  | some (raw, read) => do
    let value ← match spec.shape with
      | .operator => loadOperator raw
      | .literalKind => loadLiteralKind raw
      | _ => read
    if hasShape spec.shape value then .ok value
    else .error (.misfit cls spec value.describeValue)
  | none =>
    match ofDefault? spec.default with
    | some value => .ok value
    | none => .error (.missingField cls spec.name)

def loadFields (cls : NodeClass) (parts : List (String × Part)) :
    List FieldSpec → Except LoadError (List Tree)
  | [] => .ok []
  | spec :: specs => do
    let value ← loadField cls parts spec
    let rest ← loadFields cls parts specs
    return value :: rest

/-- Fields of a document that the class does not have, in alphabetical order. -/
def unknownFields (cls : NodeClass) (parts : List (String × Part)) : List String :=
  let known := "node" :: "span" :: cls.fields.map FieldSpec.name
  ((parts.map Prod.fst).filter fun name => !known.contains name).mergeSort fun a b => !(b < a)

/-- A literal's value has to go with its kind. -/
def checkLiteral (cls : NodeClass) (fields : List Tree) : Except LoadError Unit :=
  match cls, fields with
  | .literal, [value, .literalKind kind] =>
    if literalMatches kind value then .ok () else .error (.literalMismatch value.toJson kind)
  | _, _ => .ok ()

/-- A node from the parts of its object. -/
def assemble (file : Json) (parts : List (String × Part)) : Except LoadError Tree := do
  let cls ← loadClass (((Keyed.find? "node" parts).map Prod.fst).getD .null)
  let unknown := unknownFields cls parts
  if !unknown.isEmpty then
    throw (.unknownFields cls unknown)
  let span ← loadSpan file (((Keyed.find? "span" parts).map Prod.fst).getD .null)
  let fields ← loadFields cls parts cls.fields
  checkLiteral cls fields
  return .node cls span fields

mutual

/-- The value of a field: an object with a `node` entry is a node, all else stands for itself. -/
def load (file : Json) : Json → Except LoadError Tree
  | .null => .ok .null
  | .bool b => .ok (.bool b)
  | .int n => .ok (.int n)
  | .float x => .ok (.float x)
  | .str s => .ok (.text s)
  | .arr items => (loadItems file items).map .list
  | .obj entries =>
    let parts := loadParts file entries
    if parts.any fun p => p.1 == "node" then assemble file parts
    else (loadEntries parts).map .object

/-- The items of an array, up to the first that cannot be read. -/
def loadItems (file : Json) : List Json → Except LoadError (List Tree)
  | [] => .ok []
  | raw :: rest => do
    let t ← load file raw
    let ts ← loadItems file rest
    return t :: ts

/-- The entries of an object, each read on its own. -/
def loadParts (file : Json) : List (String × Json) → List (String × Part)
  | [] => []
  | (key, raw) :: rest => (key, raw, load file raw) :: loadParts file rest

/-- The values of an object that is not a node, up to the first that cannot be read. -/
def loadEntries : List (String × Part) → Except LoadError (List (String × Tree))
  | [] => .ok []
  | (key, _, read) :: rest => do
    let t ← read
    let ts ← loadEntries rest
    return (key, t) :: ts

end

def loadNode (file : Json) : Json → Except LoadError Tree
  | .obj entries => assemble file (loadParts file entries)
  | found => .error (.notAnObject found.kindName)

/-- The module of a tree document that has been parsed already. -/
def ofDocument : Json → Except LoadError Tree
  | .obj entries => do
    match Keyed.find? "schema" entries with
    | some (.str s) => if s != treeSchemaId then throw (.unsupportedSchema (.str s))
    | some found => throw (.unsupportedSchema found)
    | none => pure ()
    match Keyed.find? "module" entries with
    | none => throw .missingModule
    | some root =>
      let t ← loadNode ((Keyed.find? "file" entries).getD .null) root
      match t with
      | .node .compilationUnit _ _ => return t
      | t => throw (.rootNotModule t.kindName)
  | found => .error (.documentNotAnObject found.kindName)

def ofText (text : String) : Except LoadError Tree :=
  match Json.parse? text with
  | some doc => ofDocument doc
  | none => .error .invalidJson

end Tree

end TreeTyping
