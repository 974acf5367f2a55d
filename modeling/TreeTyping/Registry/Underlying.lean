/-
Following aliases.

`resolveUnderlying` follows an alias to what it stands for until it reaches a type that is no alias.
The walk remembers the aliases it has met: meeting one again means that the alias stands for itself,
and the names on the way are reported, up to and including the repeated one.  An alias that has not
been linked ends the walk as an unknown type.

Every step but the last meets a new identity, so one step more than there are definitions is enough.
-/
import TreeTyping.Registry.Basic

namespace TreeTyping.Registry

/-- The walk along aliases: `seen` holds the identities met, `chain` their names, last first. -/
def walkAliases (r : Registry) (span : Span) :
    (fuel : Nat) → (seen : List Nat) → (chain : List String) → Ty → Except Failure Ty
  | 0, _, chain, t => complain (.cyclicAlias (t.name :: chain).reverse) span
  | fuel + 1, seen, chain, .alias n =>
    if n.id ∈ seen then complain (.cyclicAlias (n.name :: chain).reverse) span
    else
      match r.underlying? n with
      | none => complain (.unknownType n.name) span
      | some t => walkAliases r span fuel (n.id :: seen) (n.name :: chain) t
  | _ + 1, _, _, t => .ok t

/-- The first type behind an alias that is no alias itself. -/
def resolveUnderlying (r : Registry) (t : Ty) (span : Span) : Except Failure Ty :=
  walkAliases r span (r.definitions.length + 2) [] [] t

end TreeTyping.Registry
