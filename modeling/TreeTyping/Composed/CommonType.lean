/-
The type the elements of a literal share.

Where the place of a literal asks for an element type, every element has to be assignable to it.
Otherwise the elements have the same type, or one of them has an interface type that all others
satisfy; the first such interface in the order of the elements is taken.
-/
import TreeTyping.Assignability

namespace TreeTyping

namespace Inference

/-- Requires every element to be assignable to what the place of a literal asks for. -/
def requireAllAssignable (r : Registry) (expected : Ty) (span : Span) : List Ty → Inference Unit
  | [] => pure ()
  | t :: rest => do
    if ← assignable r expected t then
      requireAllAssignable r expected span rest
    else
      if let .interface i := expected then
        requireSatisfies r t i span
      complain (.notAssignable expected.name t.name []) span

/-- Whether all types are an interface or satisfy it. -/
def allSatisfy (r : Registry) (interface : Nominal) : List Ty → Inference Bool
  | [] => pure true
  | t :: rest => do
    if t = .interface interface then
      allSatisfy r interface rest
    else if ← satisfies r t interface then
      allSatisfy r interface rest
    else
      return false

/-- The first interface among the candidates that all types satisfy. -/
def sharedInterface? (r : Registry) (types : List Ty) :
    (candidates : List Ty) → Inference (Option Ty)
  | [] => pure none
  | .interface i :: rest => do
    if ← allSatisfy r i types then
      return some (.interface i)
    else
      sharedInterface? r types rest
  | _ :: rest => sharedInterface? r types rest

/-- The type shared by elements that are all there is to go by. -/
def sharedType (r : Registry) (types : List Ty) (span : Span) (what : String) : Inference Ty :=
  match types with
  | [] => complain (.emptyLiteral what) span
  | first :: rest => do
    if rest.all (· = first) then
      return first
    match ← sharedInterface? r types types with
    | some t => return t
    | none => complain (.noCommonType what (types.map Ty.name).eraseDups) span

/-- The type shared by the elements of a literal, with what its place asks for. -/
def commonType (r : Registry) (types : List Ty) (expected : Option Ty) (span : Span)
    (what : String) : Inference Ty :=
  match expected with
  | some t => do
    requireAllAssignable r t span types
    return t
  | none => sharedType r types span what

end Inference

end TreeTyping
