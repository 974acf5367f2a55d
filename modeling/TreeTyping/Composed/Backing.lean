/-
Backings of composed types.

Every abstract composed type has one backing: a list is backed by an array without fixed length, a
map by a hash map, a set by a hash set.  Conversely every array and hashed type implements one
abstract type.  A backing records both, and for a list literal the layout of its elements in memory:
a word for the length, then the elements one after another.
-/
import TreeTyping.Number
import TreeTyping.Syntax.Basic
import TreeTyping.Ty.Basic

namespace TreeTyping

namespace Ty

def backing? : Ty → Option Ty
  | .list e => some (.array e none)
  | .map k v => some (.hashMap k v)
  | .set e => some (.hashSet e)
  | _ => none

/-- The abstract composed type a backing implements. -/
def abstract? : Ty → Option Ty
  | .array e _ => some (.list e)
  | .hashMap k v => some (.map k v)
  | .hashSet e => some (.set e)
  | _ => none

end Ty

structure Layout where
  elementType : Ty
  length : Nat
  lengthFieldBytes : Number
  elementBytes : Number
  /-- The values of the elements that are known before the program runs. -/
  elements : List Value
deriving Repr

namespace Layout

/-- The bytes of the length field and all elements, unless they are too many for a double. -/
def totalBytes? (l : Layout) : Option Number := do
  l.lengthFieldBytes.add? (← (Number.int l.length).mul? l.elementBytes)

end Layout

/-- The concrete type of a composed value, and the abstract type it implements. -/
structure Backing where
  concrete : Ty
  abstract : Ty
  layout : Option Layout := none
deriving Repr

namespace Backing

/-- The backing of a variable of a composed type; other types have none. -/
def ofType? (t : Ty) : Option Backing :=
  match t.backing? with
  | some concrete => some { concrete, abstract := t }
  | none => t.abstract?.map fun abstract => { concrete := t, abstract }

end Backing

end TreeTyping
