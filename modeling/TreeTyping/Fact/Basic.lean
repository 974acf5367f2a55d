/-
Facts.

Checking a module establishes facts about it, one after another: the type of a node, the backing of
a composed value, a write to a variable, a question about an interface that was asked on the way, a
note for whoever follows the check.  The facts of a check form one list in the order in which they
were established.  The tables an answer shows are views of that list.
-/
import TreeTyping.Composed.Backing
import TreeTyping.Interface.Cache
import TreeTyping.Note
import TreeTyping.Symbols

namespace TreeTyping

inductive WriteKind where
  /-- It was declared with a type and no value. -/
  | default
  /-- It was declared with a value. -/
  | initializer
  /-- It was assigned after its declaration. -/
  | assignment
deriving DecidableEq, Repr

def WriteKind.name : WriteKind → String
  | .default => "default"
  | .initializer => "initializer"
  | .assignment => "assignment"

/-- One write to a variable: the type of what was written, and its value where that is known. -/
structure Write where
  kind : WriteKind
  type : Ty
  value : Value
  span : Span
deriving Repr

inductive Fact where
  | typed (place : Place) (type : Ty)
  | backed (origin : Origin) (backing : Backing)
  | wrote (declaration : Declaration) (write : Write)
  | asked (question : Question)
  | noted (note : Note)
deriving Repr

end TreeTyping
