/-
Backings of literals.

A list literal becomes an array: of fixed length if its place asks for such an array and it has as
many elements, otherwise of no fixed length.  Its layout records the size of its elements and their
values as far as they are known.  A map literal becomes a hash map, a set literal a hash set.
-/
import TreeTyping.Composed.CommonType
import TreeTyping.Composed.Size

namespace TreeTyping

namespace Ty

/-- The element type a place asks of a list literal. -/
def listElement? : Ty → Option Ty
  | .array e _ | .list e => some e
  | _ => none

/-- The key and value types a place asks of a map literal. -/
def mapEntry? : Ty → Option (Ty × Ty)
  | .hashMap k v | .map k v => some (k, v)
  | _ => none

/-- The element type a place asks of a set literal. -/
def setElement? : Ty → Option Ty
  | .hashSet e | .set e => some e
  | _ => none

end Ty

namespace Inference

/-- The array a place asks a list literal to be; a fixed length has to be that of the literal. -/
def expectedArray (expected : Option Ty) (found : Nat) (span : Span) : Inference (Option Ty) :=
  match expected with
  | some (.array e (some length)) =>
    if length = found then pure (some (.array e (some length)))
    else complain (.literalLength found (Ty.array e (some length)).name length) span
  | some (.array e none) => pure (some (.array e none))
  | _ => pure none

def listBacking (r : Registry) (wordBits : Number) (types : List Ty) (expected : Option Ty)
    (constants : List Value) (span : Span) : Inference Backing := do
  let array ← expectedArray expected types.length span
  let element ← commonType r types (expected.bind Ty.listElement?) span "element"
  let elementBytes ← lift (r.size wordBits element)
  let concrete := array.getD (.array element none)
  let layout : Layout :=
    { elementType := element, length := types.length,
      lengthFieldBytes := Registry.wordBytes wordBits, elementBytes, elements := constants }
  record (.noted (.listLiteral concrete.name types.length))
  return { concrete, abstract := .list element, layout := some layout }

def mapBacking (r : Registry) (keys values : List Ty) (expected : Option Ty) (span : Span) :
    Inference Backing := do
  let entry := expected.bind Ty.mapEntry?
  let key ← commonType r keys (entry.map Prod.fst) span "key"
  let value ← commonType r values (entry.map Prod.snd) span "value"
  return { concrete := .hashMap key value, abstract := .map key value }

def setBacking (r : Registry) (types : List Ty) (expected : Option Ty) (span : Span) :
    Inference Backing := do
  let element ← commonType r types (expected.bind Ty.setElement?) span "element"
  return { concrete := .hashSet element, abstract := .set element }

end Inference

end TreeTyping
