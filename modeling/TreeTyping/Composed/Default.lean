/-
The values variables start with.

A variable that is declared with a type and no value starts with the default of its type: zero,
false, the empty text, an empty collection, an array of as many defaults as it is long, a struct of
the defaults of its fields.  Interfaces have no default, and neither has a struct inside its own
default.

An alias has the default of what it stands for.  An alias that holds itself through arrays of fixed,
positive length and other aliases alone has no finite default.  The recursion keeps two lists of
identities: the structs that may still be entered, and the aliases that may still be entered before
the next struct is.  A struct that is not in the first is inside its own default; an alias that is
not in the second holds itself.  Entering takes an identity off its list, so the recursion ends.
-/
import TreeTyping.Registry.Basic
import TreeTyping.Syntax.Basic

namespace TreeTyping

def Primitive.default (p : Primitive) : Value :=
  match p.kind with
  | .float => .float (.zero false)
  | .bool => .bool false
  | .string => .text ""
  | .signed | .unsigned => .int 0

namespace Registry

def identities (r : Registry) : List Nat := List.range r.definitions.length

mutual

/-- The default of a type inside the structs and aliases that were entered already. -/
def defaultInside (r : Registry) (structs aliases : List Nat) (t : Ty) : Except Fault Value :=
  match t with
  | .primitive p => .ok p.default
  | .array _ none => .ok (.list [])
  | .array e (some length) =>
    if length ≤ 0 then .ok (.list [])
    else do return .list (List.replicate length.toNat (← defaultInside r structs aliases e))
  | .hashMap _ _ => .ok (.record [])
  | .hashSet _ => .ok .emptySet
  | .list _ => .ok (.list [])
  | .map _ _ => .ok (.record [])
  | .set _ => .ok .emptySet
  | .function _ _ => .ok .none
  | .interface _ => .ok .none
  | .alias n =>
    match r.underlying? n with
    | none => .ok .none
    | some t =>
      if _h : n.id ∈ aliases then defaultInside r structs (aliases.erase n.id) t
      else .error .endless
  | .struct n =>
    if _h : n.id ∈ structs then do
      return .record (← defaultFields r (structs.erase n.id) r.identities (r.structFields n))
    else .ok .none
termination_by (structs.length, aliases.length, sizeOf t)
decreasing_by
  · exact Prod.Lex.right _ (Prod.Lex.right _ (by simp only [Ty.array.sizeOf_spec]; omega))
  · refine Prod.Lex.right _ (Prod.Lex.left _ _ ?_)
    have := List.length_erase_of_mem _h
    have := List.length_pos_of_mem _h
    omega
  · refine Prod.Lex.left _ _ ?_
    have := List.length_erase_of_mem _h
    have := List.length_pos_of_mem _h
    omega

/-- The defaults of fields inside the structs and aliases that were entered already. -/
def defaultFields (r : Registry) (structs aliases : List Nat) (fields : Keyed Ty) :
    Except Fault (Keyed Value) :=
  match fields with
  | [] => .ok []
  | (name, t) :: rest => do
    let value ← defaultInside r structs aliases t
    let values ← defaultFields r structs aliases rest
    return (name, value) :: values
termination_by (structs.length, aliases.length, sizeOf fields)
decreasing_by
  · exact Prod.Lex.right _
      (Prod.Lex.right _ (by simp only [List.cons.sizeOf_spec, Prod.mk.sizeOf_spec]; omega))
  · exact Prod.Lex.right _ (Prod.Lex.right _ (by simp only [List.cons.sizeOf_spec]; omega))

end

def default (r : Registry) (t : Ty) : Except Fault Value :=
  r.defaultInside r.identities r.identities t

end Registry

end TreeTyping
