/-
Results with a log.

A logged result is a result, or the failure that prevented it, together with what was written down
on the way.  Logged results are put together one after the other: the log of the first comes before
that of the second, and what was written down before a failure stays.
-/
namespace TreeTyping

/-- A result or a failure, and what was written down on the way. -/
structure Logged (ω ε α : Type) where
  result : Except ε α
  log : List ω := []

namespace Logged

variable {ω ε α β : Type}

/-- One logged result after another; a failure ends both. -/
protected def bind (x : Logged ω ε α) (f : α → Logged ω ε β) : Logged ω ε β :=
  match x.result with
  | .ok a => ⟨(f a).result, x.log ++ (f a).log⟩
  | .error e => ⟨.error e, x.log⟩

instance : Monad (Logged ω ε) where
  pure a := ⟨.ok a, []⟩
  bind := Logged.bind

def lift (x : Except ε α) : Logged ω ε α := ⟨x, []⟩

def fail (e : ε) : Logged ω ε α := ⟨.error e, []⟩

def record (item : ω) : Logged ω ε Unit := ⟨.ok (), [item]⟩

@[simp] theorem result_pure (a : α) : (pure a : Logged ω ε α).result = .ok a := rfl

@[simp] theorem log_pure (a : α) : (pure a : Logged ω ε α).log = [] := rfl

@[simp] theorem result_lift (x : Except ε α) : (lift x : Logged ω ε α).result = x := rfl

@[simp] theorem log_lift (x : Except ε α) : (lift x : Logged ω ε α).log = [] := rfl

@[simp] theorem result_fail (e : ε) : (fail e : Logged ω ε α).result = .error e := rfl

@[simp] theorem log_fail (e : ε) : (fail e : Logged ω ε α).log = [] := rfl

@[simp] theorem result_record (item : ω) : (record item : Logged ω ε Unit).result = .ok () := rfl

@[simp] theorem log_record (item : ω) : (record item : Logged ω ε Unit).log = [item] := rfl

theorem bind_of_ok {x : Logged ω ε α} {f : α → Logged ω ε β} {a : α} (h : x.result = .ok a) :
    x >>= f = ⟨(f a).result, x.log ++ (f a).log⟩ := by
  show Logged.bind x f = _
  rw [Logged.bind, h]

theorem bind_of_error {x : Logged ω ε α} {f : α → Logged ω ε β} {e : ε} (h : x.result = .error e) :
    x >>= f = ⟨.error e, x.log⟩ := by
  show Logged.bind x f = _
  rw [Logged.bind, h]

theorem bind_assoc {γ : Type} (x : Logged ω ε α) (f : α → Logged ω ε β) (g : β → Logged ω ε γ) :
    x >>= f >>= g = x >>= fun a => f a >>= g := by
  rcases hx : x.result with e | a
  · have hfirst : (x >>= f).result = .error e := by rw [bind_of_error hx]
    rw [bind_of_error hfirst, bind_of_error hx, bind_of_error hx]
  · rcases hf : (f a).result with e | b
    · have hfirst : (x >>= f).result = .error e := by rw [bind_of_ok hx, hf]
      rw [bind_of_error hfirst, bind_of_ok hx, bind_of_ok hx, bind_of_error hf]
    · have hfirst : (x >>= f).result = .ok b := by rw [bind_of_ok hx, hf]
      rw [bind_of_ok hfirst, bind_of_ok hx, bind_of_ok hx, bind_of_ok hf, List.append_assoc]

/-- A sequence succeeds exactly when both parts do, one after the other. -/
theorem bind_result_eq_ok {x : Logged ω ε α} {f : α → Logged ω ε β} {b : β} :
    (x >>= f).result = .ok b ↔ ∃ a, x.result = .ok a ∧ (f a).result = .ok b := by
  rcases hx : x.result with e | a
  · rw [bind_of_error hx]
    simp
  · rw [bind_of_ok hx]
    simp

end Logged

end TreeTyping
