/-
Assignability.

A value may be stored in a location of its own type, in a location whose interface it satisfies, and
across an abstract composed type and its backing in either direction.  Aliases are types of their
own: a value of an alias is not a value of what the alias stands for.

Whether a type satisfies an interface is a question that is counted and whose answer is remembered.
-/
import TreeTyping.Inference

namespace TreeTyping

namespace Registry

def satisfies (r : Registry) (t : Ty) (interface : Nominal) : Except Failure Bool := do
  return (← r.firstMismatch t interface).isNone

/-- Whether a value of type `source` may be stored where `target` is declared. -/
def isAssignable (r : Registry) (target source : Ty) : Except Failure Bool :=
  if target = source then .ok true
  else
    match target with
    | .interface i => r.satisfies source i
    | target =>
      match target.backing? with
      | some backing => .ok (backing = source)
      | none =>
        match source.backing? with
        | some backing => .ok (backing = target)
        | none => .ok false

/-- Whether two types stand for the same type and one of them is an alias. -/
def sameUnderlying (r : Registry) (a b : Ty) : Except Failure Bool :=
  if a.isAlias || b.isAlias then do
    let u ← r.resolveUnderlying a .nowhere
    let v ← r.resolveUnderlying b .nowhere
    return u = v
  else .ok false

end Registry

namespace Inference

/-- The first requirement of an interface that a type does not meet. -/
def mismatch (r : Registry) (t : Ty) (interface : Nominal) : Inference (Option MemberMismatch) := do
  if r.isTrivial t interface then return none
  inquire ⟨t, interface⟩ (r.firstMismatch t interface)

def satisfies (r : Registry) (t : Ty) (interface : Nominal) : Inference Bool := do
  return (← mismatch r t interface).isNone

def requireSatisfies (r : Registry) (t : Ty) (interface : Nominal) (span : Span) :
    Inference Unit := do
  match ← mismatch r t interface with
  | none => return ()
  | some m => complain (Registry.notSatisfied t interface m) span

/-- Whether a value of type `source` may be stored where `target` is declared. -/
def assignable (r : Registry) (target source : Ty) : Inference Bool :=
  match target with
  | .interface i => if target = source then pure true else satisfies r source i
  | target => lift (r.isAssignable target source)

/-- Refuses to store a value of type `source` where `target` is declared. -/
def refuse (r : Registry) (target source : Ty) (span : Span) : Inference Unit := do
  if let .interface i := target then
    requireSatisfies r source i span
  let convertible ← lift (r.sameUnderlying target source)
  let hints := if convertible then ["use an explicit conversion: " ++ target.name ++ "(...)"]
    else []
  complain (.notAssignable target.name source.name hints) span

/-- Requires that a value of type `source` may be stored where `target` is declared. -/
def requireAssignable (r : Registry) (target source : Ty) (span : Span) : Inference Unit := do
  if ← assignable r target source then return ()
  refuse r target source span

end Inference

end TreeTyping
