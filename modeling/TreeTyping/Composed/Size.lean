/-
Sizes of values.

A fixed-width primitive has its own width.  Machine-width primitives, dynamic arrays, hashed and
abstract composed types and functions take one word, interfaces two.  A struct is packed field by
field, a fixed array element by element, and an alias is as large as what it stands for.

A struct that contains itself inline has no finite size, and that is reported.  An alias that
contains itself through fixed arrays and aliases alone is never finished; this holds for arrays of
length zero too, since the element is measured before it is multiplied.  The recursion keeps the
same two lists of identities as the one for default values.
-/
import TreeTyping.Composed.Default
import TreeTyping.Number
import TreeTyping.Registry.Underlying

namespace TreeTyping.Registry

def wordBytes (wordBits : Number) : Number :=
  match wordBits with
  | .int n => .int (n / 8)
  | .float x => .float (if x.equalsInt 32 then .ofInt 4 else .ofInt 8)

def addSizes (a b : Number) : Except Failure Number :=
  match a.add? b with
  | some n => .ok n
  | none => .error (.fault .tooLarge)

def scaleSize (length : Int) (size : Number) : Except Failure Number :=
  match (Number.int length).mul? size with
  | some n => .ok n
  | none => .error (.fault .tooLarge)

mutual

/-- The size of a type inside the structs and aliases that were entered already. -/
def sizeInside (r : Registry) (wordBits : Number) (structs aliases : List Nat) (t : Ty) :
    Except Failure Number :=
  match t with
  | .primitive p =>
    match p.width.bits? with
    | some bits => .ok (.int (bits / 8))
    | none => .ok (wordBytes wordBits)
  | .alias n =>
    match r.resolveUnderlying (.alias n) .nowhere with
    | .error f => .error f
    | .ok resolved =>
      if _h : n.id ∈ aliases then sizeInside r wordBits structs (aliases.erase n.id) resolved
      else .error (.fault .endless)
  | .array _ none => .ok (wordBytes wordBits)
  | .array e (some length) => do
    let size ← sizeInside r wordBits structs aliases e
    scaleSize length size
  | .list _ | .map _ _ | .set _ | .hashMap _ _ | .hashSet _ | .function _ _ =>
    .ok (wordBytes wordBits)
  | .interface _ => scaleSize 2 (wordBytes wordBits)
  | .struct n =>
    if _h : n.id ∈ structs then
      sizeFields r wordBits (structs.erase n.id) r.identities (.int 0) (r.structFields n)
    else complain (.infiniteSize n.name) .nowhere
termination_by (structs.length, aliases.length, sizeOf t)
decreasing_by
  · refine Prod.Lex.right _ (Prod.Lex.left _ _ ?_)
    have := List.length_erase_of_mem _h
    have := List.length_pos_of_mem _h
    omega
  · exact Prod.Lex.right _ (Prod.Lex.right _ (by simp only [Ty.array.sizeOf_spec]; omega))
  · refine Prod.Lex.left _ _ ?_
    have := List.length_erase_of_mem _h
    have := List.length_pos_of_mem _h
    omega

/-- The size of fields, added to that of the fields before them. -/
def sizeFields (r : Registry) (wordBits : Number) (structs aliases : List Nat) (before : Number)
    (fields : Keyed Ty) : Except Failure Number :=
  match fields with
  | [] => .ok before
  | (_, t) :: rest => do
    let size ← sizeInside r wordBits structs aliases t
    let total ← addSizes before size
    sizeFields r wordBits structs aliases total rest
termination_by (structs.length, aliases.length, sizeOf fields)
decreasing_by
  · exact Prod.Lex.right _
      (Prod.Lex.right _ (by simp only [List.cons.sizeOf_spec, Prod.mk.sizeOf_spec]; omega))
  · exact Prod.Lex.right _ (Prod.Lex.right _ (by simp only [List.cons.sizeOf_spec]; omega))

end

/-- The size of a value of a type, in bytes. -/
def size (r : Registry) (wordBits : Number) (t : Ty) : Except Failure Number :=
  r.sizeInside wordBits r.identities r.identities t

end TreeTyping.Registry
