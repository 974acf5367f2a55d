/-
What cannot go wrong.

A diagnostic ends the check of one declaration and is reported; a fault ends everything.  `Safe` is
about the faults: a computation is safe when it ends in no fault but those that are allowed, and
whatever it concludes has some property.  A diagnostic is always allowed.

An inference is followed through its steps.  Whatever is answered to a question, the inference goes
on from the answer, so one that is safe is safe with the registry and with remembered answers alike.
-/
import TreeTyping.Inference

namespace TreeTyping

/-- Whether a failure is a fault. -/
def Failure.isFault : Failure → Bool
  | .found _ => false
  | .fault _ => true

/-- The diagnostic a failure is. -/
def Failure.diagnostic? : Failure → Option Diagnostic
  | .found d => some d
  | .fault _ => none

variable {α β : Type} {allowed : Fault → Prop}

/-- A computation ends in no fault but those allowed, and what it concludes has the property. -/
def Safe (allowed : Fault → Prop) (x : Except Failure α) (P : α → Prop) : Prop :=
  match x with
  | .ok a => P a
  | .error (.found _) => True
  | .error (.fault f) => allowed f

namespace Safe

variable {x : Except Failure α} {P : α → Prop} {Q : β → Prop}

theorem bind {f : α → Except Failure β}
    (hx : Safe allowed x P) (hf : ∀ a, P a → Safe allowed (f a) Q) : Safe allowed (x >>= f) Q := by
  rcases x with (_ | fault) | a
  · trivial
  · exact hx
  · exact hf a hx

/-- A step whose conclusion does not matter. -/
theorem skip {f : α → Except Failure β}
    (hx : Safe allowed x fun _ => True) (hf : ∀ a, Safe allowed (f a) Q) :
    Safe allowed (x >>= f) Q :=
  hx.bind fun a _ => hf a

theorem complain {cause : Cause} {span : Span} {h : cause.kind?.isSome = true} :
    Safe allowed (complain cause span h : Except Failure α) P :=
  trivial

theorem mono {P Q : α → Prop} (h : Safe allowed x P) (hPQ : ∀ a, P a → Q a) : Safe allowed x Q := by
  rcases x with (_ | fault) | a
  · trivial
  · exact h
  · exact hPQ a h

theorem map {f : α → β} (h : Safe allowed x fun a => Q (f a)) : Safe allowed (x.map f) Q := by
  rcases x with (_ | fault) | a
  · trivial
  · exact h
  · exact h

theorem allow (h : Safe (fun _ => False) x P) : Safe allowed x P := by
  rcases x with (_ | fault) | a
  · trivial
  · exact h.elim
  · exact h

theorem not_fault (h : Safe (fun _ => False) x P) {f : Failure} (hf : x = .error f) :
    f.isFault = false := by
  cases f with
  | found => rfl
  | fault =>
    subst hf
    exact h.elim

theorem of_error (h : Safe allowed x P) {f : Failure} (hf : x = .error f) :
    Safe allowed (.error f) Q := by
  subst hf
  cases f with
  | found => trivial
  | fault => exact h

theorem of_ok (h : Safe allowed x P) {a : α} (ha : x = .ok a) : P a := by
  subst ha
  exact h

end Safe

namespace Inference

variable {P : α → Prop} {x : Inference α}

/-- An inference ends in no fault but those allowed, and what it concludes has the property. -/
def Safe (allowed : Fault → Prop) : Inference α → (α → Prop) → Prop
  | .done result, P => TreeTyping.Safe allowed result P
  | .establish _ rest, P => rest.Safe allowed P
  | .ask _ answer rest, P => TreeTyping.Safe allowed answer fun a => (rest a).Safe allowed P

namespace Safe

theorem bind {f : α → Inference β} {Q : β → Prop}
    (hx : x.Safe allowed P) (hf : ∀ a, P a → (f a).Safe allowed Q) : (x >>= f).Safe allowed Q := by
  show (x.bind f).Safe allowed Q
  induction x with
  | done result =>
    rcases result with (_ | fault) | a
    · trivial
    · exact hx
    · exact hf a hx
  | establish fact rest ih => exact ih hx
  | ask q answer rest ih => exact TreeTyping.Safe.mono hx ih

/-- A step whose conclusion does not matter. -/
theorem skip {f : α → Inference β} {Q : β → Prop} (hx : x.Safe allowed fun _ => True)
    (hf : ∀ a, (f a).Safe allowed Q) : (x >>= f).Safe allowed Q :=
  hx.bind fun a _ => hf a

theorem pure {a : α} (h : P a) : (Pure.pure a : Inference α).Safe allowed P := h

theorem complain {cause : Cause} {span : Span} {h : cause.kind?.isSome = true} :
    (complain cause span h : Inference α).Safe allowed P :=
  trivial

theorem lift {x : Except Failure α} (h : TreeTyping.Safe allowed x P) : (lift x).Safe allowed P :=
  h

theorem record {fact : Fact} : (record fact).Safe allowed fun _ => True := trivial

theorem inquire {q : Question} {answer : Except Failure (Option MemberMismatch)}
    (h : TreeTyping.Safe allowed answer fun _ => True) :
    (inquire q answer).Safe allowed fun _ => True :=
  h

/-- A safe inference may be said to conclude whatever its result has. -/
theorem strengthen (h : x.Safe allowed fun _ => True) (hP : ∀ a, x.result = .ok a → P a) :
    x.Safe allowed P := by
  induction x with
  | done result =>
    rcases result with (_ | fault) | a
    · trivial
    · exact h
    · exact hP a rfl
  | establish fact rest ih => exact ih h hP
  | ask q answer rest ih =>
    rcases answer with (_ | fault) | a
    · trivial
    · exact h
    · exact ih a h hP

/-- **What a safe inference comes to with the registry is safe.** -/
theorem result (h : x.Safe allowed P) : TreeTyping.Safe allowed x.result P := by
  induction x with
  | done result => exact h
  | establish fact rest ih => exact ih h
  | ask q answer rest ih =>
    rcases answer with (_ | fault) | a
    · trivial
    · exact h
    · exact ih a h

end Safe

end Inference

end TreeTyping
