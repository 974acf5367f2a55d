/-
Syntax trees.

A tree is a node with its class, span and field values, or one of the plain values that fields hold.
Field values stand in the order of the class's fields, so a node needs no field names.  Trees that
come from documents fit the schema; trees put together by hand may hold anything anywhere, which is
why operators and literal kinds are values of their own, apart from their text.
-/
import TreeTyping.Source
import TreeTyping.Tree.Schema

namespace TreeTyping

/-- A syntax tree, or a value in a field of one. -/
inductive Tree where
  | null
  | bool (b : Bool)
  | int (n : Int)
  | float (x : Binary64)
  | text (s : String)
  | operator (op : Operator)
  | literalKind (kind : LiteralKind)
  | location (s : Span)
  | list (items : List Tree)
  | object (entries : List (String × Tree))
  | node (cls : NodeClass) (span : Span) (fields : List Tree)
deriving Repr, Inhabited

namespace Tree

/-- The kind of a value, as messages name it: for a node its class. -/
def kindName : Tree → String
  | .null => "NoneType"
  | .bool _ => "bool"
  | .int _ => "int"
  | .float _ => "float"
  | .text _ => "str"
  | .operator _ => "Operator"
  | .literalKind _ => "LiteralKind"
  | .location _ => "SourceSpan"
  | .list _ => "list"
  | .object _ => "dict"
  | .node cls _ _ => cls.name

def span? : Tree → Option Span
  | .node _ s _ => some s
  | _ => Option.none

/-- What a field holds when it is left out; nothing when it may not be. -/
def ofDefault? : Default → Option Tree
  | .required => Option.none
  | .null => some .null
  | .emptyList => some (.list [])
  | .emptyObject => some (.object [])

/-! ### Fitting the schema -/

/-- Whether a value has the shape.  Only it and the items of lists and objects are looked at. -/
def hasShape : Shape → Tree → Bool
  | .category c, .node cls _ _ => cls.category? == some c
  | .node c, .node cls _ _ => cls == c
  | .null, .null => true
  | .int, .int _ => true
  | .float, .float _ => true
  | .text, .text _ => true
  | .bool, .bool _ => true
  | .operator, .operator _ => true
  | .literalKind, .literalKind _ => true
  | .list item, .list items => items.all (hasShape item)
  | .object item, .object entries => entries.all fun e => hasShape item e.2
  | .either first second, value => hasShape first value || hasShape second value
  | _, _ => false

/-- Whether the value of a literal goes with its kind. -/
def literalMatches (kind : LiteralKind) : Tree → Bool
  | .bool _ => kind == .bool
  | .int _ => kind == .int || kind == .float
  | .float _ => kind == .float
  | .text _ => kind == .string
  | _ => false

/-- Whether the field values of a node fit its class, one by one. -/
def fieldsFit : List FieldSpec → List Tree → Bool
  | [], [] => true
  | spec :: specs, value :: values => hasShape spec.shape value && fieldsFit specs values
  | _, _ => false

/-- Whether a node's fields fit its class, and a literal's value its kind. -/
def nodeFits (cls : NodeClass) (fields : List Tree) : Bool :=
  fieldsFit cls.fields fields &&
    match cls, fields with
    | .literal, [value, .literalKind kind] => literalMatches kind value
    | _, _ => true

end Tree

end TreeTyping
