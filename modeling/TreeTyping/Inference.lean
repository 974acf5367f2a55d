/-
Conclusions, and what happens on the way to them.

An inference concludes something or fails.  On the way it establishes facts, and it asks whether
types satisfy interfaces.  A question comes with the answer the registry gives, and with how the
inference goes on from any answer, so that one and the same inference can be run with the registry
or with answers that are remembered.  A question the registry cannot answer ends the inference.

What an inference comes to with the registry is a logged result.  The facts established before a
failure stay.
-/
import TreeTyping.Fact.Basic
import TreeTyping.Logged

namespace TreeTyping

/-- A conclusion or a failure, behind the facts established and the questions asked on the way. -/
inductive Inference (α : Type) where
  | done (result : Except Failure α)
  | establish (fact : Fact) (rest : Inference α)
  /-- A question, with the answer of the registry. -/
  | ask (q : Question) (answer : Except Failure (Option MemberMismatch))
      (rest : Option MemberMismatch → Inference α)

namespace Inference

variable {α β : Type}

/-- One inference after another; a failure ends both. -/
protected def bind : Inference α → (α → Inference β) → Inference β
  | .done (.ok a), f => f a
  | .done (.error e), _ => .done (.error e)
  | .establish fact rest, f => .establish fact (rest.bind f)
  | .ask q answer rest, f => .ask q answer fun a => (rest a).bind f

instance : Monad Inference where
  pure a := .done (.ok a)
  bind := Inference.bind

/-- What an inference comes to when the registry answers its questions. -/
def run : Inference α → Logged Fact Failure α
  | .done result => Logged.lift result
  | .establish fact rest => do
    Logged.record fact
    rest.run
  | .ask q answer rest => do
    Logged.record (.asked q)
    let a ← Logged.lift answer
    (rest a).run

def result (x : Inference α) : Except Failure α := x.run.result

def log (x : Inference α) : List Fact := x.run.log

def facts (x : Inference α) : List Fact := x.log

/-- An inference without facts. -/
def lift (x : Except Failure α) : Inference α := .done x

def fail (f : Failure) : Inference α := .done (.error f)

/-- An inference that fails with a cause at a span. -/
def complain (cause : Cause) (span : Span)
    (h : cause.kind?.isSome = true := by exact Eq.refl true) : Inference α :=
  fail (.of cause span h)

def faulty (f : Fault) : Inference α := fail (.fault f)

def record (fact : Fact) : Inference Unit := .establish fact (pure ())

def inquire (q : Question) (answer : Except Failure (Option MemberMismatch)) :
    Inference (Option MemberMismatch) :=
  .ask q answer pure

def spanOf (span? : Option Span) : Inference Span :=
  match span? with
  | some span => pure span
  | none => faulty .missingPart

/-- One inference after another comes to what the two come to, one after the other. -/
theorem run_bind (x : Inference α) (f : α → Inference β) :
    (x >>= f).run = x.run >>= fun a => (f a).run := by
  show (x.bind f).run = _
  induction x with
  | done result =>
    cases result with
    | ok a => rfl
    | error e => rfl
  | establish fact rest ih =>
    rw [Inference.bind, run, run, ih, Logged.bind_assoc]
  | ask q answer rest ih =>
    rw [Inference.bind, run, run, Logged.bind_assoc]
    simp only [ih, Logged.bind_assoc]

section Bind

variable {x : Inference α} {f : α → Inference β}

theorem result_bind_of_ok {a : α} (h : x.result = .ok a) : (x >>= f).result = (f a).result := by
  rw [result, run_bind, Logged.bind_of_ok h]
  rfl

theorem log_bind_of_ok {a : α} (h : x.result = .ok a) : (x >>= f).log = x.log ++ (f a).log := by
  rw [log, run_bind, Logged.bind_of_ok h]
  rfl

theorem result_bind_of_error {e : Failure} (h : x.result = .error e) :
    (x >>= f).result = .error e := by
  rw [result, run_bind, Logged.bind_of_error h]

theorem log_bind_of_error {e : Failure} (h : x.result = .error e) : (x >>= f).log = x.log := by
  rw [log, run_bind, Logged.bind_of_error h]
  rfl

/-- One inference after another concludes something exactly when both do. -/
theorem bind_result_eq_ok {b : β} :
    (x >>= f).result = .ok b ↔ ∃ a, x.result = .ok a ∧ (f a).result = .ok b := by
  rw [result, run_bind, Logged.bind_result_eq_ok]
  rfl

end Bind

end Inference

end TreeTyping
