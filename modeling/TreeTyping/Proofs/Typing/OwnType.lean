/-
The type of an expression is recorded last.

Whatever can go wrong with an expression goes wrong before a type is recorded for it.  So where its
parts stand at other places, a type is recorded for an expression exactly if one is found, and it is
that type.
-/
import TreeTyping.Proofs.Typing.Frame

namespace TreeTyping

/-- The type that a table has for an expression. -/
def Expr.typeIn? (type? : Place → Option Ty) (e : Expr) :
    Option Ty := e.origin?.bind fun o => type? o.place

theorem Expr.mem_places_of_origin {e : Expr} {o : Origin} (h : e.origin? = some o) :
    o.place ∈ e.places := by
  cases e with
  | foreign | unreadable => cases h
  | _ =>
    cases h
    exact List.mem_cons_self

namespace Inference

variable {α : Type} {env : Env} {q : Place} {expected : Option Ty} {x : Inference α}

/-- What comes last and leaves remarks only does not change what is recorded. -/
theorem typeAt?_last {β : Type} {f : α → Inference β} (hf : ∀ a, Quiet (f a)) :
    Fact.typeAt? q (x >>= f).log = Fact.typeAt? q x.log := by
  rcases hresult : x.result with e | a
  · rw [log_bind_of_error hresult]
  · rw [log_bind_of_ok hresult, Fact.typeAt?_append, (hf a).typeAt?_eq_none, Option.none_or]

/-- **A type is recorded for an expression exactly if one is found**, and it is that type. -/
theorem infer_typeIn? {e : Expr} (hnodup : e.places.Nodup) :
    e.typeIn? (Fact.typeAt? · (infer env expected e).log) =
      (infer env expected e).result.toOption := by
  rcases ho : e.origin? with _ | o
  · cases e with
    | foreign f => rw [Expr.typeIn?, ho, infer, value, yieldOf]; rfl
    | unreadable => rw [Expr.typeIn?, ho, infer, value, yieldOf]; rfl
    | _ => cases ho
  · have hvalue : Fact.typeAt? o.place (infer env expected e).log = Fact.typeAt? o.place
        (yieldOf env expected e).log :=
      typeAt?_last fun y => by
        cases y with
        | value t => exact .pure
        | nothing procedure => exact .skip spanOf_plain.leaves fun _ => .complain
    rw [Expr.typeIn?, ho, Option.bind_some, hvalue, (framed e env expected).2 o ho hnodup]
    refine Option.ext fun t => ?_
    rw [Except.toOption_eq_some, infer_result, Option.bind_eq_some_iff]
    constructor
    · rintro ⟨y, hy, ht⟩
      cases y with
      | value s =>
        cases ht
        exact Except.toOption_eq_some.1 hy
      | nothing procedure => cases ht
    · exact fun h => ⟨.value t, Except.toOption_eq_some.2 h, rfl⟩

end Inference

end TreeTyping
