/-
Explicit conversion.

A value converts to a type that stands for the same type as its own, between types of numbers, to an
interface it satisfies, and wherever what it stands for could be assigned to what the target stands
for.
-/
import TreeTyping.Assignability

namespace TreeTyping.Inference

/-- Whether an interface is asked for and satisfied; nothing is asked of other types. -/
def satisfiesTarget (r : Registry) (target source : Ty) : Inference Bool :=
  match target with
  | .interface i => satisfies r source i
  | _ => pure false

/-- Requires a value of type `source` to be convertible to `target`. -/
def requireConvertible (r : Registry) (target source : Ty) (span : Span) : Inference Unit := do
  let wanted ← lift (r.resolveUnderlying target .nowhere)
  let found ← lift (r.resolveUnderlying source .nowhere)
  if source = target || found = wanted then return ()
  if found.isNumeric && wanted.isNumeric then return ()
  if ← satisfiesTarget r target source then return ()
  if ← assignable r wanted found then return ()
  complain (.noConversion source.name target.name) span

end TreeTyping.Inference
