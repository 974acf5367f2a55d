/-
What a check keeps.

A check that returns, whether it accepts the module or not, has taken in the first of the variables
and the first of the bodies, up to some point.  What it keeps are the remarks of registration and
then the facts of these, in order.  So whatever the rules say about the facts of one declaration
carries over to the facts of the check.

The bodies belong to functions of the module, in the order in which these are declared, and each
comes with a signature of the shape of its function.
-/
import TreeTyping.Proofs.Check.Module
import TreeTyping.Proofs.Typing.Remarks

namespace TreeTyping

open List TreeTyping.Except
open Progress (BodyOutcome checkBody variableScopes variableOutcome variableOutcomes)

/-! ### Registration -/

namespace Signatures

/-- The functions to be checked are among the entries, with signatures of their shape. -/
structure Enrolled (done : List (Entry FunctionDef)) (s : Signatures) : Prop where
  entries : (s.bodies.map fun b => Entry.proper b.function).Sublist done
  shapes : ∀ b ∈ s.bodies, b.signature.params.length = b.function.params.length ∧
    b.signature.receiver.isSome = b.function.receiver.isSome
  remarks : ∀ fact ∈ s.facts, fact.isRemark = true

theorem add_remarks {s s' : Signatures} {signature : Signature} (h : s.add signature = .ok s')
    (hs : ∀ fact ∈ s.facts, fact.isRemark = true) : ∀ fact ∈ s'.facts, fact.isRemark = true := by
  unfold add at h
  split at h
  · obtain ⟨registry, -, h⟩ := bind_eq_ok.1 h
    cases h
    exact forall_mem_append.2 ⟨hs, forall_mem_singleton.2 rfl⟩
  · split at h
    · cases h
    · cases h
      exact hs

theorem step_enrolled {done : List (Entry FunctionDef)} {s s' : Signatures}
    {entry : Entry FunctionDef}
    (h : Enrolled done s) (hs : s.step entry = .ok s') : Enrolled (done ++ [entry]) s' := by
  have hkept : (s.bodies.map fun b => Entry.proper b.function).Sublist (done ++ [entry]) :=
    h.entries.trans (sublist_append_left _ _)
  obtain ⟨f, rfl, hregister⟩ | ⟨d, -, rfl⟩ := step_cases hs
  · obtain ⟨-, signature, added, hsignature, hadd, rfl⟩ := register_eq_ok hregister
    obtain ⟨-, hbodies, -⟩ := add_eq_ok hadd
    refine ⟨?_, ?_, ?_⟩
    · show ((added.bodies ++ _).map _).Sublist _
      rw [hbodies, map_append]
      exact h.entries.append (List.Sublist.refl _)
    · show ∀ b ∈ added.bodies ++ _, _
      rw [hbodies]
      exact forall_mem_append.2 ⟨h.shapes, forall_mem_singleton.2 (signatureOf_shape hsignature).2⟩
    · exact forall_mem_append.2 ⟨add_remarks hadd h.remarks, forall_mem_singleton.2 rfl⟩
  · exact ⟨hkept, h.shapes, h.remarks⟩

theorem run_enrolled {r : Registry} {functions : List (Entry FunctionDef)} {s : Signatures}
    (h : run r functions = .ok s) : Enrolled functions s :=
  foldlM_invariant (fun _ _ _ _ _ _ h hs => step_enrolled h hs)
    ⟨List.Sublist.refl _, forall_mem_nil _, forall_mem_nil _⟩ h

end Signatures

/-- The state after registration: no variable is in scope yet, and nothing is known but remarks. -/
structure Module.Enrolled (s : Settings) (m : Module) (p : Progress) (bs : List Body) : Prop where
  entries : (bs.map fun b => Entry.proper b.function).Sublist m.functions
  shapes : ∀ b ∈ bs, b.signature.params.length = b.function.params.length ∧
    b.signature.receiver.isSome = b.function.receiver.isSome
  remarks : ∀ fact ∈ p.facts, fact.isRemark = true
  unscoped : p.env.scopes = {}
  wordBits : p.env.wordBits = s.wordBits

theorem Module.declarations_enrolled {s : Settings} {m : Module} {p : Progress} {bs : List Body}
    (h : m.declarations s = .ok (p, bs)) : m.Enrolled s p bs := by
  obtain ⟨types, -, h⟩ := bind_eq_ok.1 h
  obtain ⟨signatures, hsignatures, h⟩ := bind_eq_ok.1 h
  cases h
  have henrolled := Signatures.run_enrolled hsignatures
  refine ⟨henrolled.entries, henrolled.shapes, ?_, rfl, rfl⟩
  exact forall_mem_append.2 ⟨forall_mem_append.2 ⟨forall_mem_singleton.2 rfl, henrolled.remarks⟩,
    forall_mem_singleton.2 rfl⟩

/-! ### Variables and bodies -/

namespace Progress

theorem variableOutcome_facts {env : Env} {entry : Entry VarDecl} {scopes : Scopes}
    {o : BodyOutcome}
    (h : variableOutcome env entry = .ok (scopes, o)) :
    o.facts = (variableScopes env entry).facts := by
  unfold variableOutcome at h
  dsimp only at h
  split at h <;> cases h <;> rfl

theorem checkBody_remarks {env : Env} {warn : Bool} {b : Body} {o : BodyOutcome}
    (h : checkBody env warn b = .ok o) :
    ∃ remarks, o.facts = (Inference.function env b.function b.signature).facts ++ remarks ∧
      ∀ fact ∈ remarks, fact.isRemark = true := by
  unfold checkBody at h
  dsimp only at h
  split at h
  · unfold flowOutcome at h
    dsimp only at h
    split at h
    · cases h
    · split at h
      · cases h
        exact ⟨_, rfl, forall_mem_singleton.2 rfl⟩
      · cases h
        refine ⟨_, append_assoc _ _ _, ?_⟩
        exact forall_mem_append.2 ⟨forall_mem_singleton.2 rfl, forall_mem_singleton.2 rfl⟩
  · cases h
    exact ⟨_, rfl, forall_mem_singleton.2 rfl⟩
  · cases h

end Progress

/-! ### Checks -/

/-- What a check has taken in: the first variables and the first bodies, with their outcomes. -/
structure Checked.Kept (s : Settings) (m : Module) (c : Checked) (p : Progress) (bs : List Body)
    (n k : Nat) (last : Scopes) (vars bodies : List BodyOutcome) : Prop where
  facts : c.facts = p.facts ++ (factsIn vars ++ factsIn bodies)
  registry : c.env.registry = p.env.registry
  declarations : m.declarations s = .ok (p, bs)
  vars : variableOutcomes p.env (m.vars.take n) = .ok (last, vars)
  bodies : (bs.take k).mapM (checkBody (p.env.withScopes last.closed) s.warnUnreachable) =
    .ok bodies

/-- **A check that returns keeps the facts of the declarations it has taken in.** -/
theorem Module.check_kept {s : Settings} {m : Module} {c : Checked} (h : m.check s = .ok c) :
    ∃ p bs n k last vars bodies, c.Kept s m p bs n k last vars bodies := by
  obtain ⟨p, bs, p₁, p₂, hdeclarations, hvars, hbodies, rfl⟩ := check_eq_ok.1 h
  obtain ⟨n, last, vars, hvars, henv, htook, -⟩ := Progress.takeVariables_took hvars
  obtain ⟨henv', k, bodies, hbodies, htook', -⟩ := Progress.bodies_took hbodies
  have hclose : p₁.close.env = p.env.withScopes last.closed := by
    rw [Progress.close, henv]
    rfl
  rw [hclose] at hbodies henv'
  refine ⟨p, bs, n, k, last, vars, bodies, ?_, ?_, hdeclarations, hvars, hbodies⟩
  · rw [finish_facts, htook'.facts, ← append_assoc]
    exact congrArg (· ++ factsIn bodies) htook.facts
  · rw [finish_env, henv']
    rfl

section Leaves

open Inference (Leaves)

variable {P : Fact → Prop}

theorem variableOutcomes_leaves {env : Env} {vars : List (Entry VarDecl)} {last : Scopes}
    {outcomes : List BodyOutcome} (h : variableOutcomes env vars = .ok (last, outcomes))
    (hvars : ∀ d scopes, .proper d ∈ vars →
      Leaves P (Inference.declare (env.withScopes scopes) d)) :
    ∀ fact ∈ factsIn outcomes, P fact := by
  induction vars generalizing env outcomes with
  | nil =>
    cases h
    exact forall_mem_nil _
  | cons entry rest ih =>
    obtain ⟨scopes, o, others, ho, hothers, rfl⟩ := Progress.variableOutcomes_cons.1 h
    rw [factsIn_cons, Progress.variableOutcome_facts ho]
    refine forall_mem_append.2
      ⟨?_, ih hothers fun d scopes hd => hvars d scopes (mem_cons_of_mem _ hd)⟩
    cases entry with
    | proper d => exact hvars d env.scopes mem_cons_self
    | foreign f => exact forall_mem_nil _

theorem bodies_leaves {env : Env} {warn : Bool} {bs : List Body} {outcomes : List BodyOutcome}
    (h : bs.mapM (checkBody env warn) = .ok outcomes)
    (hremark : ∀ fact, fact.isRemark = true → P fact)
    (hbodies : ∀ b ∈ bs, Leaves P (Inference.function env b.function b.signature)) :
    ∀ fact ∈ factsIn outcomes, P fact := by
  induction bs generalizing outcomes with
  | nil =>
    cases h
    exact forall_mem_nil _
  | cons b rest ih =>
    obtain ⟨o, others, ho, hothers, rfl⟩ := Progress.mapM_cons_eq_ok.1 h
    obtain ⟨hb, hrest⟩ := forall_mem_cons.1 hbodies
    obtain ⟨remarks, hfacts, hremarks⟩ := Progress.checkBody_remarks ho
    rw [factsIn_cons, hfacts]
    refine forall_mem_append.2 ⟨forall_mem_append.2 ⟨hb, ?_⟩, ih hothers hrest⟩
    exact fun fact hfact => hremark fact (hremarks fact hfact)

/-- **What holds of the facts of every declaration holds of all that a check keeps.** -/
theorem Module.check_leaves {s : Settings} {m : Module} {c : Checked} (h : m.check s = .ok c)
    (hremark : ∀ fact, fact.isRemark = true → P fact)
    (hvars : ∀ d env, .proper d ∈ m.vars → env.wordBits = s.wordBits →
      Leaves P (Inference.declare env d))
    (hfunctions : ∀ f env signature, .proper f ∈ m.functions → env.wordBits = s.wordBits →
      Leaves P (Inference.function env f signature)) : ∀ fact ∈ c.facts, P fact := by
  obtain ⟨p, bs, n, k, last, vars, bodies, hkept⟩ := check_kept h
  have henrolled := declarations_enrolled hkept.declarations
  rw [hkept.facts]
  refine forall_mem_append.2 ⟨?_, forall_mem_append.2 ⟨?_, ?_⟩⟩
  · exact fun fact hfact => hremark fact (henrolled.remarks fact hfact)
  · refine variableOutcomes_leaves hkept.vars fun d scopes hd => ?_
    exact hvars d _ (mem_of_mem_take hd) henrolled.wordBits
  · refine bodies_leaves hkept.bodies hremark fun b hb => ?_
    have hentry : Entry.proper b.function ∈ m.functions :=
      henrolled.entries.subset (mem_map_of_mem (mem_of_mem_take hb))
    exact hfunctions b.function _ b.signature hentry henrolled.wordBits

end Leaves

end TreeTyping
