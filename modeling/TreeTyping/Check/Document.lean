/-
Result documents.

The outcome of a check is written as a document: the verdict, the diagnostics, the types that are
registered, the functions in alphabetical order, every variable with the writes to it, and every
backing.
-/
import TreeTyping.Check.Module

namespace TreeTyping

mutual

/-- A value as a document; a set is a list there. -/
def Value.toJson : Value → Json
  | .none => .null
  | .bool b => .bool b
  | .int n => .int n
  | .float x => .float x
  | .text s => .str s
  | .list items => .arr (Value.listToJson items)
  | .record fields => .obj (Value.fieldsToJson fields)
  | .emptySet => .arr []

def Value.listToJson : List Value → List Json
  | [] => []
  | v :: rest => v.toJson :: Value.listToJson rest

def Value.fieldsToJson : List (String × Value) → List (String × Json)
  | [] => []
  | (name, v) :: rest => (name, v.toJson) :: Value.fieldsToJson rest

end

namespace Fact

/-- A span as tables show it. -/
def spanJson (s : Span) : Json := s.toTreeJson?.getD .null

def writeJson (w : Write) : Json :=
  .obj [("kind", .str w.kind.name), ("type", .str w.type.name), ("value", w.value.toJson)]

def variablesJson (facts : List Fact) : Json :=
  .arr ((writes facts).map fun (d, ws) =>
    .obj [("name", (d.listed.map Json.str).getD .null),
          ("span", spanJson d.origin.span),
          ("type", ((typeAt? d.origin.place facts).map fun t => Json.str t.name).getD .null),
          ("events", .arr (ws.map writeJson))])

def layoutJson (l : Layout) : Json :=
  .obj [("length", .int l.length), ("length_field_bytes", l.lengthFieldBytes.toJson),
        ("element_bytes", l.elementBytes.toJson), ("elements", .arr (Value.listToJson l.elements))]

def backingsJson (facts : List Fact) : Json :=
  .arr ((backings facts).map fun (o, b) =>
    .obj ([("span", spanJson o.span), ("abstract", .str b.abstract.name),
      ("concrete", .str b.concrete.name)] ++ b.layout.toList.map fun l => ("layout", layoutJson l)))

end Fact

namespace Checked

/-- The identifier of the form of result documents. -/
def schemaId : String := "typecore-result-json-v0.1"

/-- The descriptions of the functions, in alphabetical order. -/
def functionNames (c : Checked) : List String :=
  (c.bodies.map fun b => b.signature.describe).mergeSort fun a b => !(b < a)

/-- The registered types, each with its family. -/
def typesJson (c : Checked) : Keyed Json :=
  c.env.registry.userTypes.foldl (fun entries t => entries.insert t.name (.str t.familyName)) []

def toJson (c : Checked) : Json :=
  .obj [("schema", .str schemaId),
        ("accepted", .bool c.accepted),
        ("diagnostics", .arr (c.diagnostics.map Diagnostic.toJson)),
        ("truncated", .bool c.truncated),
        ("skipped", .int c.skipped),
        ("types", .obj c.typesJson),
        ("functions", .arr (c.functionNames.map .str)),
        ("variables", Fact.variablesJson c.facts),
        ("backings", Fact.backingsJson c.facts)]

end Checked

end TreeTyping
