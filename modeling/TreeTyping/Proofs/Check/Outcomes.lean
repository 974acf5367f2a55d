/-
A check as a run of outcomes.

After registration a check goes through the variables of a module and then through the bodies of its
functions.  Each of them adds facts and diagnostics, which is its outcome.  A variable is looked at
in the scopes that those before it leave, a body in the scopes of all variables, so the outcomes can
be listed before any of them is taken in.  A check takes in as many as it can before the limit on
errors is reached: `taken` says how many these are, and the two passes agree with it.

One declaration adds one error at most, since an error ends its check.
-/
import TreeTyping.Check.Module
import TreeTyping.Proofs.Except

namespace TreeTyping

open List TreeTyping.Except

/-! ### Collecting -/

namespace Collector

@[simp] theorem extend_nil (c : Collector) : c.extend [] = c := by
  rw [extend, append_nil]

theorem extend_append (c : Collector) (a b : List Diagnostic) :
    c.extend (a ++ b) = (c.extend a).extend b := by
  simp only [extend, append_assoc]

theorem extend_errorCount (c : Collector) (ds : List Diagnostic) :
    (c.extend ds).errorCount = c.errorCount + (ds.filter Diagnostic.isError).length := by
  rw [errorCount, errors, extend, filter_append, length_append]
  rfl

/-- The number of errors is that of the diagnostics, whatever the limit. -/
theorem errorCount_congr {c c' : Collector} (h : c.found = c'.found) :
    c.errorCount = c'.errorCount := by
  rw [errorCount, errorCount, errors, errors, h]

theorem shouldStop_iff {c : Collector} : c.shouldStop = true ↔ c.limit ≤ c.errorCount := by
  rw [shouldStop, decide_eq_true_eq, ge_iff_le]

end Collector

open Progress (BodyOutcome)

/-- The diagnostics of several outcomes. -/
def foundIn (outcomes : List BodyOutcome) : List Diagnostic := outcomes.flatMap BodyOutcome.found

/-- The facts of several outcomes. -/
def factsIn (outcomes : List BodyOutcome) : List Fact := outcomes.flatMap BodyOutcome.facts

@[simp] theorem foundIn_nil : foundIn [] = [] := rfl

@[simp] theorem foundIn_cons (o : BodyOutcome) (rest : List BodyOutcome) :
    foundIn (o :: rest) = o.found ++ foundIn rest := flatMap_cons

theorem foundIn_append (a b : List BodyOutcome) : foundIn (a ++ b) = foundIn a ++ foundIn b :=
  flatMap_append

@[simp] theorem factsIn_nil : factsIn [] = [] := rfl

@[simp] theorem factsIn_cons (o : BodyOutcome) (rest : List BodyOutcome) :
    factsIn (o :: rest) = o.facts ++ factsIn rest := flatMap_cons

theorem factsIn_append (a b : List BodyOutcome) : factsIn (a ++ b) = factsIn a ++ factsIn b :=
  flatMap_append

/-! ### How many outcomes are taken in -/

/-- The number of outcomes that are taken in before the limit is reached. -/
def taken (c : Collector) : List BodyOutcome → Nat
  | [] => 0
  | o :: rest => if c.shouldStop then 0 else taken (c.extend o.found) rest + 1

/--
Of the outcomes the first `n` are taken in: before each of them the limit has not been reached, and
it has been behind the last one, unless that is the last of all.
-/
structure StopsAfter (c : Collector) (outcomes : List BodyOutcome) (n : Nat) : Prop where
  within : n ≤ outcomes.length
  before : ∀ i < n, ((c.extend (foundIn (outcomes.take i))).errorCount : Int) < c.limit
  behind : n < outcomes.length → c.limit ≤ (c.extend (foundIn (outcomes.take n))).errorCount

theorem taken_stops (c : Collector) (outcomes : List BodyOutcome) :
    StopsAfter c outcomes (taken c outcomes) := by
  induction outcomes generalizing c with
  | nil =>
    exact ⟨Nat.le_refl _, fun i hi => absurd hi (Nat.not_lt_zero i),
      fun h => absurd h (Nat.not_lt_zero 0)⟩
  | cons o rest ih =>
    rw [taken]
    split
    · next hstop =>
        refine ⟨Nat.zero_le _, fun i hi => absurd hi (Nat.not_lt_zero i), fun _ => ?_⟩
        rw [take_zero, foundIn_nil, Collector.extend_nil]
        exact Collector.shouldStop_iff.1 hstop
    · next hgo =>
        have hrest := ih (c.extend o.found)
        have hbegin : (c.errorCount : Int) < c.limit := by
          simpa using mt Collector.shouldStop_iff.2 hgo
        refine ⟨Nat.succ_le_succ hrest.within, fun i hi => ?_, fun h => ?_⟩
        · cases i with
          | zero => simpa using hbegin
          | succ i =>
            have hbefore := hrest.before i (Nat.lt_of_succ_lt_succ hi)
            rwa [← Collector.extend_append] at hbefore
        · have hbehind := hrest.behind (Nat.lt_of_succ_lt_succ h)
          rwa [← Collector.extend_append] at hbehind

theorem taken_le (c : Collector) (outcomes : List BodyOutcome) :
    taken c outcomes ≤ outcomes.length :=
  (taken_stops c outcomes).within

/-- Where the limit is reached among the first outcomes, those behind them do not matter. -/
theorem taken_append_of_lt {c : Collector} {first : List BodyOutcome} (second : List BodyOutcome)
    (h : taken c first < first.length) : taken c (first ++ second) = taken c first := by
  induction first generalizing c with
  | nil => exact absurd h (Nat.not_lt_zero 0)
  | cons o rest ih =>
    rw [cons_append, taken, taken]
    rw [taken] at h
    split
    · rfl
    · next hgo =>
        rw [if_neg hgo] at h
        rw [ih (Nat.lt_of_succ_lt_succ h)]

/-- Where the limit is not reached among the first outcomes, all of them are taken in. -/
theorem taken_append_of_eq {c : Collector} {first : List BodyOutcome} (second : List BodyOutcome)
    (h : taken c first = first.length) :
    taken c (first ++ second) = first.length + taken (c.extend (foundIn first)) second := by
  induction first generalizing c with
  | nil => simp
  | cons o rest ih =>
    rw [taken] at h
    split at h
    · cases h
    · next hgo =>
        rw [cons_append, taken, if_neg hgo, ih (Nat.succ.inj h), ← Collector.extend_append]
        rw [length_cons, foundIn_cons]
        omega

/-- Outcomes were taken in, and a number of declarations was left over. -/
structure Took (p : Progress) (outcomes : List BodyOutcome) (left : Nat) (p' : Progress) :
    Prop where
  facts : p'.facts = p.facts ++ factsIn outcomes
  collector : p'.collector = p.collector.extend (foundIn outcomes)
  skipped : p'.skipped = p.skipped + left

namespace Took

theorem nothing {p p' : Progress} {left : Nat} (hfacts : p'.facts = p.facts)
    (hcollector : p'.collector = p.collector) (hskipped : p'.skipped = p.skipped + left) :
    Took p [] left p' :=
  ⟨by rw [hfacts, factsIn_nil, append_nil], by
    rw [hcollector, foundIn_nil, Collector.extend_nil], hskipped⟩

theorem trans {p q r : Progress} {first second : List BodyOutcome} {left more : Nat}
    (h : Took p first left q) (h' : Took q second more r) : Took p (first ++ second)
      (left + more) r := by
  refine ⟨?_, ?_, ?_⟩
  · rw [h'.facts, h.facts, append_assoc, factsIn_append]
  · rw [h'.collector, h.collector, ← Collector.extend_append, foundIn_append]
  · rw [h'.skipped, h.skipped, Nat.add_assoc]

/-- One outcome, and then others. -/
theorem cons {p q r : Progress} {o : BodyOutcome} {rest : List BodyOutcome} {left : Nat}
    (h : Took p [o] 0 q) (h' : Took q rest left r) : Took p (o :: rest) left r := by
  have hall := h.trans h'
  rwa [Nat.zero_add] at hall

theorem limit {p p' : Progress} {outcomes : List BodyOutcome} {left : Nat}
    (h : Took p outcomes left p') : p'.collector.limit = p.collector.limit := by
  rw [h.collector]
  rfl

/-- Closing the global scope adds nothing. -/
theorem close {p p' : Progress} {outcomes : List BodyOutcome} {left : Nat}
    (h : Took p outcomes left p') : Took p outcomes left p'.close :=
  ⟨h.facts, h.collector, h.skipped⟩

end Took

namespace Progress

variable {outcomes : List BodyOutcome} {p p' : Progress} {bs : List Body}
  {vars : List (Entry VarDecl)} {entry : Entry VarDecl} {env : Env} {last : Scopes} {warn : Bool}

theorem takeBody_took (p : Progress) (o : BodyOutcome) : Took p [o] 0 (p.takeBody o) :=
  ⟨by simp [takeBody, keep], by simp [takeBody], rfl⟩

/-! ### Variables -/

/-- What one entry of a module's variables adds, and the scopes after it. -/
def variableOutcome (env : Env) (entry : Entry VarDecl) : Except Failure (Scopes × BodyOutcome) :=
  let inference := variableScopes env entry
  match inference.result with
  | .ok scopes => .ok (scopes, ⟨inference.facts, []⟩)
  | .error (.found d) => .ok (env.scopes, ⟨inference.facts, [d]⟩)
  | .error f => .error f

/-- What several entries add, each in the scopes left by those before it, and the last scopes. -/
def variableOutcomes (env : Env) : List (Entry VarDecl) → Except Failure (Scopes × List BodyOutcome)
  | [] => .ok (env.scopes, [])
  | entry :: rest => do
    let (scopes, o) ← variableOutcome env entry
    let (last, outcomes) ← variableOutcomes (env.withScopes scopes) rest
    return (last, o :: outcomes)

theorem variableOutcomes_cons {rest : List (Entry VarDecl)} :
    variableOutcomes env (entry :: rest) = .ok (last, outcomes) ↔
      ∃ scopes o others, variableOutcome env entry = .ok (scopes, o) ∧
        variableOutcomes (env.withScopes scopes) rest = .ok (last, others) ∧
          outcomes = o :: others := by
  rw [variableOutcomes, bind_eq_ok]
  constructor
  · rintro ⟨⟨scopes, o⟩, ho, h⟩
    obtain ⟨⟨last', others⟩, hothers, h⟩ := bind_eq_ok.1 h
    cases h
    exact ⟨scopes, o, others, ho, hothers, rfl⟩
  · rintro ⟨scopes, o, others, ho, hothers, rfl⟩
    exact ⟨(scopes, o), ho, bind_eq_ok.2 ⟨(last, others), hothers, rfl⟩⟩

theorem variableOutcomes_length (h : variableOutcomes env vars = .ok (last, outcomes)) :
    outcomes.length = vars.length := by
  induction vars generalizing env outcomes with
  | nil =>
    cases h
    rfl
  | cons entry rest ih =>
    obtain ⟨scopes, o, others, -, hothers, rfl⟩ := variableOutcomes_cons.1 h
    rw [length_cons, length_cons, ih hothers]

theorem takeVariable_eq_ok (h : p.takeVariable entry = .ok p') :
    ∃ scopes o, variableOutcome p.env entry = .ok (scopes, o) ∧ p'.env = p.env.withScopes scopes ∧
      Took p [o] 0 p' := by
  unfold takeVariable at h
  unfold variableOutcome
  dsimp only at h ⊢
  rcases hresult : (variableScopes p.env entry).result with (d | f) | scopes
  all_goals
    rw [hresult] at h
    cases h
  · refine ⟨p.env.scopes, _, rfl, rfl, ?_⟩
    exact ⟨by simp [keep], by simp [keep, Collector.add, Collector.extend], rfl⟩
  · refine ⟨scopes, _, rfl, rfl, ?_⟩
    exact ⟨by simp [keep], by simp [keep], rfl⟩

theorem takeVariable_of_outcome {p : Progress} {scopes : Scopes} {o : BodyOutcome}
    (h : variableOutcome p.env entry = .ok (scopes, o)) :
    ∃ p', p.takeVariable entry = .ok p' ∧ p'.env = p.env.withScopes scopes ∧ Took p [o] 0 p' := by
  rcases hp' : p.takeVariable entry with f | p'
  · unfold takeVariable at hp'
    unfold variableOutcome at h
    dsimp only at h hp'
    split at h
    · next scopes' hresult => rw [hresult] at hp'; cases hp'
    · next d hd hresult => rw [hresult] at hp'; cases hp'
    · cases h
  · obtain ⟨scopes', o', ho', henv, htook⟩ := takeVariable_eq_ok hp'
    cases h.symm.trans ho'
    exact ⟨p', rfl, henv, htook⟩

/-- **Of the outcomes of the variables, those before the limit is reached are taken in.** -/
theorem takeVariables_of_outcomes {p : Progress}
    (h : variableOutcomes p.env vars = .ok (last, outcomes)) :
    ∃ p' cut, takeVariables vars p = .ok p' ∧ p'.env = p.env.withScopes cut ∧
      Took p (outcomes.take (taken p.collector outcomes))
        (outcomes.length - taken p.collector outcomes) p' ∧
      (∃ kept, variableOutcomes p.env (vars.take (taken p.collector outcomes)) = .ok (cut, kept)) ∧
      (taken p.collector outcomes = outcomes.length → cut = last) := by
  induction vars generalizing p outcomes with
  | nil =>
    cases h
    exact ⟨p, p.env.scopes, rfl, rfl, .nothing rfl rfl rfl, ⟨_, rfl⟩, fun _ => rfl⟩
  | cons entry rest ih =>
    obtain ⟨scopes, o, others, ho, hothers, rfl⟩ := variableOutcomes_cons.1 h
    rw [takeVariables, taken]
    by_cases hstop : p.collector.shouldStop = true
    · rw [if_pos hstop, if_pos hstop]
      refine ⟨_, p.env.scopes, rfl, rfl, .nothing rfl rfl ?_, ⟨[], rfl⟩, fun hall => nomatch hall⟩
      rw [length_cons, variableOutcomes_length hothers]
      rfl
    · rw [if_neg hstop, if_neg hstop]
      obtain ⟨q, hq, henv, htook⟩ := takeVariable_of_outcome ho
      have hcollector : q.collector = p.collector.extend o.found := by
        simp [htook.collector]
      rw [← henv] at hothers
      obtain ⟨p', cut, hp', henv', htook', ⟨kept, hkept⟩, hlast⟩ := ih hothers
      rw [hcollector] at htook' hkept hlast
      refine ⟨p', cut, ?_, ?_, ?_, ⟨o :: kept, ?_⟩, ?_⟩
      · rw [hq]
        exact hp'
      · rw [henv', henv]
        rfl
      · rw [take_succ_cons, length_cons, Nat.succ_sub_succ]
        exact htook.cons htook'
      · rw [take_succ_cons]
        exact variableOutcomes_cons.2 ⟨scopes, o, kept, ho, henv ▸ hkept, rfl⟩
      · intro hall
        exact hlast (Nat.succ.inj hall)

/-- Variables are taken in from the first on; some are left over where the limit is reached. -/
theorem takeVariables_took (h : takeVariables vars p = .ok p') :
    ∃ n last outcomes, variableOutcomes p.env (vars.take n) = .ok (last, outcomes) ∧
      p'.env = p.env.withScopes last ∧ Took p outcomes (vars.length - n) p' ∧
      (p'.collector.shouldStop = false → vars.length ≤ n) := by
  induction vars generalizing p with
  | nil =>
    cases h
    exact ⟨0, _, [], rfl, rfl, .nothing rfl rfl rfl, fun _ => Nat.le_refl _⟩
  | cons entry rest ih =>
    rw [takeVariables] at h
    split at h
    · next hstop =>
        cases h
        exact ⟨0, _, [], rfl, rfl, .nothing rfl rfl rfl,
          fun hgo => Bool.noConfusion (hgo.symm.trans hstop)⟩
    · obtain ⟨q, hq, h⟩ := bind_eq_ok.1 h
      obtain ⟨scopes, o, ho, henv, htook⟩ := takeVariable_eq_ok hq
      obtain ⟨n, last, others, hothers, henv', htook', hall⟩ := ih h
      refine ⟨n + 1, last, o :: others, ?_, ?_, ?_, fun hgo => Nat.succ_le_succ (hall hgo)⟩
      · rw [take_succ_cons]
        exact variableOutcomes_cons.2 ⟨scopes, o, others, ho, henv ▸ hothers, rfl⟩
      · rw [henv', henv]
        rfl
      · rw [length_cons, Nat.succ_sub_succ]
        exact htook.cons htook'

/-! ### Bodies -/

theorem takeBodies_env (outcomes : List BodyOutcome) (p : Progress) :
    (takeBodies outcomes p).env = p.env := by
  induction outcomes generalizing p with
  | nil => rfl
  | cons o rest ih =>
    rw [takeBodies]
    split
    · rfl
    · rw [ih]
      rfl

theorem takeBodies_took (outcomes : List BodyOutcome) (p : Progress) :
    Took p (outcomes.take (taken p.collector outcomes))
      (outcomes.length - taken p.collector outcomes) (takeBodies outcomes p) := by
  induction outcomes generalizing p with
  | nil => exact .nothing rfl rfl rfl
  | cons o rest ih =>
    rw [takeBodies, taken]
    split
    · exact .nothing rfl rfl rfl
    · rw [take_succ_cons, length_cons, Nat.succ_sub_succ]
      exact (p.takeBody_took o).cons (ih _)

theorem mapM_cons_eq_ok {α β ε : Type} {f : α → Except ε β} {x : α} {xs : List α} {ys : List β} :
    (x :: xs).mapM f = .ok ys ↔ ∃ y rest, f x = .ok y ∧ xs.mapM f = .ok rest ∧ ys = y :: rest := by
  simp only [mapM_eq_ok, forall₂_cons_left_iff]

theorem bodiesInTurn_of_outcomes {p : Progress}
    (h : bs.mapM (checkBody p.env warn) = .ok outcomes) :
    ∃ p', bodiesInTurn warn bs p = .ok p' ∧ p'.env = p.env ∧
      Took p (outcomes.take (taken p.collector outcomes))
        (outcomes.length - taken p.collector outcomes) p' := by
  induction bs generalizing p outcomes with
  | nil =>
    cases h
    exact ⟨p, rfl, rfl, .nothing rfl rfl rfl⟩
  | cons b rest ih =>
    obtain ⟨o, others, ho, hothers, rfl⟩ := mapM_cons_eq_ok.1 h
    have hlength : others.length = rest.length := ((mapM_eq_ok.1 hothers).length_eq).symm
    rw [bodiesInTurn, ho, taken]
    show ∃ p', (if p.collector.shouldStop then
      pure { p.drop o.facts with skipped := p.skipped + (rest.length + 1) }
      else bodiesInTurn warn rest (p.takeBody o)) = .ok p' ∧ _
    by_cases hstop : p.collector.shouldStop = true
    · rw [if_pos hstop, if_pos hstop]
      exact ⟨_, rfl, rfl, .nothing rfl rfl (by rw [length_cons, hlength]; rfl)⟩
    · rw [if_neg hstop, if_neg hstop]
      obtain ⟨p', hp', henv, htook⟩ := ih (p := p.takeBody o) hothers
      refine ⟨p', hp', henv, ?_⟩
      rw [take_succ_cons, length_cons, Nat.succ_sub_succ]
      exact (p.takeBody_took o).cons htook

/-- **The outcomes of the bodies are taken in up to the limit**, with one worker or several. -/
theorem bodies_of_outcomes {s : Settings} {p : Progress}
    (h : bs.mapM (checkBody p.env s.warnUnreachable) = .ok outcomes) :
    ∃ p', bodies s bs p = .ok p' ∧ p'.env = p.env ∧
      Took p (outcomes.take (taken p.collector outcomes))
        (outcomes.length - taken p.collector outcomes) p' := by
  unfold bodies
  split
  · rw [h]
    have htook := takeBodies_took outcomes (p.note (.bodiesShared bs.length s.workers))
    exact ⟨_, rfl, takeBodies_env _ _, htook.facts, htook.collector, htook.skipped⟩
  · exact bodiesInTurn_of_outcomes h

theorem bodiesInTurn_took (h : bodiesInTurn warn bs p = .ok p') :
    p'.env = p.env ∧ ∃ k outcomes, (bs.take k).mapM (checkBody p.env warn) = .ok outcomes ∧
      Took p outcomes (bs.length - k) p' ∧ (p'.collector.shouldStop = false → bs.length ≤ k) := by
  induction bs generalizing p with
  | nil =>
    cases h
    exact ⟨rfl, 0, [], rfl, .nothing rfl rfl rfl, fun _ => Nat.le_refl _⟩
  | cons b rest ih =>
    obtain ⟨o, ho, h⟩ := bind_eq_ok.1 h
    split at h
    · next hstop =>
        cases h
        exact ⟨rfl, 0, [], rfl, .nothing rfl rfl rfl,
          fun hgo => Bool.noConfusion (hgo.symm.trans hstop)⟩
    · obtain ⟨henv, k, others, hothers, htook, hall⟩ := ih h
      refine ⟨henv, k + 1, o :: others, ?_, ?_, fun hgo => Nat.succ_le_succ (hall hgo)⟩
      · rw [take_succ_cons]
        exact mapM_cons_eq_ok.2 ⟨o, others, ho, hothers, rfl⟩
      · rw [length_cons, Nat.succ_sub_succ]
        exact (p.takeBody_took o).cons htook

/-- Bodies are taken in from the first on; where the limit is reached some are left over. -/
theorem bodies_took {s : Settings} (h : bodies s bs p = .ok p') :
    p'.env = p.env ∧ ∃ k outcomes, (bs.take k).mapM (checkBody p.env s.warnUnreachable) = .ok
      outcomes ∧
      Took p outcomes (bs.length - k) p' ∧ (p'.collector.shouldStop = false → bs.length ≤ k) := by
  unfold bodies at h
  split at h
  · obtain ⟨outcomes, houtcomes, h⟩ := bind_eq_ok.1 h
    cases h
    have hall := mapM_eq_ok.1 houtcomes
    have htook := takeBodies_took outcomes (p.note (.bodiesShared bs.length s.workers))
    refine ⟨takeBodies_env _ _, _, _, mapM_eq_ok.2 (forall₂_take _ hall),
      ⟨htook.facts, htook.collector, ?_⟩, fun hgo => ?_⟩
    · rw [htook.skipped, hall.length_eq]
      rfl
    · refine Nat.le_of_not_lt fun hlt => ?_
      have hbehind := (taken_stops p.collector outcomes).behind (hall.length_eq ▸ hlt)
      have hstop : (takeBodies outcomes
          (p.note (.bodiesShared bs.length s.workers))).collector.shouldStop = true := by
        rw [htook.collector]
        exact Collector.shouldStop_iff.2 hbehind
      cases hgo.symm.trans hstop
  · exact bodiesInTurn_took h

theorem checkBody_eq_error {b : Body} {f : Failure}
    (h : checkBody env warn b = .error f) : ∃ fault, f = .fault fault := by
  unfold checkBody at h
  dsimp only at h
  split at h
  · unfold flowOutcome at h
    dsimp only at h
    split at h
    · cases h
      exact ⟨_, rfl⟩
    · split at h <;> cases h
  · cases h
  · next hother _ =>
      cases h
      cases f with
      | found d => exact (hother d _ rfl).elim
      | fault fault => exact ⟨fault, rfl⟩

/-! ### Errors -/

theorem variableOutcome_errors {scopes : Scopes} {o : BodyOutcome}
    (h : variableOutcome env entry = .ok (scopes, o)) :
    (o.found.filter Diagnostic.isError).length ≤ 1 := by
  unfold variableOutcome at h
  dsimp only at h
  split at h
  · cases h
    exact Nat.zero_le _
  · cases h
    exact length_filter_le _ _
  · cases h

theorem variableOutcomes_errors (h : variableOutcomes env vars = .ok (last, outcomes)) :
    ∀ o ∈ outcomes, (o.found.filter Diagnostic.isError).length ≤ 1 := by
  induction vars generalizing env outcomes with
  | nil =>
    cases h
    exact forall_mem_nil _
  | cons entry rest ih =>
    obtain ⟨scopes, o, others, ho, hothers, rfl⟩ := variableOutcomes_cons.1 h
    exact forall_mem_cons.2 ⟨variableOutcome_errors ho, ih hothers⟩

theorem warnings_errors {α : Type} (x : Reach α) : x.warnings.filter Diagnostic.isError = [] := by
  rw [filter_eq_nil_iff]
  intro d hd
  obtain ⟨s, -, hs⟩ := mem_filterMap.1 hd
  obtain ⟨span, -, rfl⟩ := Option.map_eq_some_iff.1 hs
  nofun

theorem checkBody_errors {b : Body} {o : BodyOutcome}
    (h : checkBody env warn b = .ok o) : (o.found.filter Diagnostic.isError).length ≤ 1 := by
  unfold checkBody at h
  dsimp only at h
  split at h
  · unfold flowOutcome at h
    dsimp only at h
    split at h
    · cases h
    · have hwarnings := warnings_errors (Reach.ofSequence warn b.function.body)
      split at h
      · cases h
        show (List.filter _ (Reach.warnings _)).length ≤ 1
        rw [hwarnings]
        exact Nat.zero_le _
      · cases h
        show (List.filter _ (Reach.warnings _ ++ [_])).length ≤ 1
        rw [filter_append, hwarnings, nil_append]
        exact length_filter_le _ _
  · cases h
    exact length_filter_le _ _
  · cases h

end Progress

theorem errorCount_step {c : Collector} {outcomes : List BodyOutcome}
    (h : ∀ o ∈ outcomes, (o.found.filter Diagnostic.isError).length ≤ 1) (i : Nat) :
    (c.extend (foundIn (outcomes.take (i + 1)))).errorCount ≤
      (c.extend (foundIn (outcomes.take i))).errorCount + 1 := by
  rcases ho : outcomes[i]? with _ | o
  · have hshort : outcomes.length ≤ i := List.getElem?_eq_none_iff.1 ho
    rw [take_of_length_le hshort, take_of_length_le (Nat.le_succ_of_le hshort)]
    exact Nat.le_succ _
  · have hone := h o (mem_of_getElem? ho)
    rw [take_add_one, ho, foundIn_append, Collector.extend_append, Collector.extend_errorCount]
    simpa using hone

theorem errorCount_take_le (c : Collector) (outcomes : List BodyOutcome) (i : Nat) :
    (c.extend (foundIn (outcomes.take i))).errorCount ≤
    (c.extend (foundIn outcomes)).errorCount := by
  have hsplit : foundIn outcomes = foundIn (outcomes.take i) ++ foundIn (outcomes.drop i) := by
    rw [← foundIn_append, take_append_drop]
  rw [hsplit, Collector.extend_append, Collector.extend_errorCount _ (foundIn (outcomes.drop i))]
  exact Nat.le_add_right _ _

/-- **The errors within the limit**: all that registration finds, and others up to the limit. -/
theorem StopsAfter.errorCount_eq {c : Collector} {outcomes : List BodyOutcome} {n : Nat}
    (h : StopsAfter c outcomes n)
    (hone : ∀ o ∈ outcomes, (o.found.filter Diagnostic.isError).length ≤ 1) :
    ((c.extend (foundIn (outcomes.take n))).errorCount : Int) =
      max (c.errorCount : Int) (min c.limit (c.extend (foundIn outcomes)).errorCount) := by
  have hmore : c.errorCount ≤ (c.extend (foundIn (outcomes.take n))).errorCount := by
    rw [Collector.extend_errorCount]
    exact Nat.le_add_right _ _
  have hall := errorCount_take_le c outcomes n
  -- Before the last outcome the limit was not reached, and that one added one error at most.
  have hlast : ((c.extend (foundIn (outcomes.take n))).errorCount : Int) ≤ max (c.errorCount : Int)
      c.limit := by
    cases n with
    | zero =>
      rw [take_zero, foundIn_nil, Collector.extend_nil]
      exact Int.le_max_left _ _
    | succ i =>
      have hstep := errorCount_step (c := c) hone i
      have hbefore := h.before i (Nat.lt_succ_self i)
      omega
  by_cases hn : n < outcomes.length
  · have hbehind := h.behind hn
    omega
  · rw [take_of_length_le (Nat.le_of_not_lt hn)] at hmore hall hlast ⊢
    omega

/-! ### Checks -/

open Progress (checkBody variableOutcomes)

/-- The scopes with the global one closed. -/
def Scopes.closed (s : Scopes) : Scopes := { s with global := { s.global with frozen := true } }

/-- Names lead where they led before the global scope was closed. -/
theorem Scopes.closed_lookup? (s : Scopes) (name : String) :
    s.closed.lookup? name = s.lookup? name := by
  rw [lookup?, lookup?, chain, chain, findSome?_append, findSome?_append]
  rfl

/-- The outcomes of the variables and bodies of a module, in order and without a limit. -/
structure Unfolds (s : Settings) (m : Module) (p : Progress) (bs : List Body) (last : Scopes)
    (vars bodies : List BodyOutcome) : Prop where
  declarations : m.declarations s = .ok (p, bs)
  vars : variableOutcomes p.env m.vars = .ok (last, vars)
  bodies : bs.mapM (checkBody (p.env.withScopes last.closed) s.warnUnreachable) = .ok bodies

/--
What a check has in the end: what registration has found, the outcomes that were taken in, and the
number of declarations that were left over.
-/
structure Checked.TookIn (c : Checked) (p : Progress) (bs : List Body) (outcomes : List BodyOutcome)
    (left : Nat) : Prop where
  registry : c.env.registry = p.env.registry
  functions : c.env.functions = p.env.functions
  bodies : c.bodies = bs
  diagnostics : c.diagnostics = p.collector.found ++ foundIn outcomes
  facts : c.facts = p.facts ++ factsIn outcomes
  skipped : c.skipped = left

namespace Module

section Finish

variable (m : Module) (bodies : List Body) (p : Progress)

-- The notes at the end go to the trail alone.
@[simp] theorem finish_env : (m.finish bodies p).env = p.env := by
  unfold finish
  dsimp only
  split <;> rfl

@[simp] theorem finish_collector : (m.finish bodies p).collector = p.collector := by
  unfold finish
  dsimp only
  split <;> rfl

@[simp] theorem finish_facts : (m.finish bodies p).facts = p.facts := by
  unfold finish
  dsimp only
  split <;> rfl

@[simp] theorem finish_skipped : (m.finish bodies p).skipped = p.skipped := by
  unfold finish
  dsimp only
  split <;> rfl

end Finish

/-- A check consists of its parts: declarations, variables and bodies, one after the other. -/
theorem check_eq_ok {m : Module} {s : Settings} {c : Checked} : m.check s = .ok c ↔
    ∃ p bs p₁ p₂, m.declarations s = .ok (p, bs) ∧ Progress.takeVariables m.vars p = .ok p₁ ∧
      Progress.bodies s bs p₁.close = .ok p₂ ∧ c = m.finish bs p₂ := by
  constructor
  · intro h
    obtain ⟨⟨p, bs⟩, hdeclarations, h⟩ := bind_eq_ok.1 h
    obtain ⟨p₁, hvars, h⟩ := bind_eq_ok.1 h
    obtain ⟨p₂, hbodies, h⟩ := bind_eq_ok.1 h
    exact ⟨p, bs, p₁, p₂, hdeclarations, hvars, hbodies, (Except.ok.inj h).symm⟩
  · rintro ⟨p, bs, p₁, p₂, hdeclarations, hvars, hbodies, rfl⟩
    unfold check
    rw [hdeclarations]
    show (Progress.takeVariables m.vars p >>= _) = _
    rw [hvars]
    show (Progress.bodies s bs p₁.close >>= _) = _
    rw [hbodies]
    rfl

variable {m : Module} {s : Settings}

theorem declarations_limit {p : Progress} {bs : List Body}
    (h : m.declarations s = .ok (p, bs)) : p.collector.limit = s.maxErrors := by
  unfold declarations at h
  obtain ⟨types, -, h⟩ := bind_eq_ok.1 h
  obtain ⟨signatures, -, h⟩ := bind_eq_ok.1 h
  cases h
  rfl

theorem declarations_skipped {p : Progress} {bs : List Body} (h : m.declarations s = .ok (p, bs)) :
    p.skipped = 0 := by
  obtain ⟨types, -, h⟩ := bind_eq_ok.1 h
  obtain ⟨signatures, -, h⟩ := bind_eq_ok.1 h
  cases h
  rfl

theorem finish_tookIn {p p' : Progress} {bs : List Body} {outcomes : List BodyOutcome} {left : Nat}
    (h : Took p outcomes left p') (hp : p.skipped = 0) {scopes : Scopes}
    (henv : p'.env = p.env.withScopes scopes) :
    (m.finish bs p').TookIn p bs outcomes left := by
  refine ⟨?_, ?_, rfl, ?_, ?_, ?_⟩
  · rw [finish_env, henv]
    rfl
  · rw [finish_env, henv]
    rfl
  · rw [Checked.diagnostics, finish_collector, h.collector]
    rfl
  · rw [finish_facts, h.facts]
  · rw [finish_skipped, h.skipped, hp, Nat.zero_add]

/-- **A check that never reaches the limit takes in all outcomes.** -/
theorem check_unfolds {K : Int} {all : Checked} (hall : m.check { s with maxErrors := K } = .ok all)
    (hK : (all.collector.errorCount : Int) < K) :
    ∃ p bs last vars bodies, Unfolds { s with maxErrors := K } m p bs last vars bodies ∧
      all.TookIn p bs (vars ++ bodies) 0 ∧ all.env = p.env.withScopes last.closed := by
  obtain ⟨p, bs, p₁, p₂, hdeclarations, hvars, hbodies, rfl⟩ := check_eq_ok.1 hall
  obtain ⟨n, last, vars, hvars, henv₁, htook₁, hall₁⟩ := Progress.takeVariables_took hvars
  obtain ⟨henv₂, k, bodies, hbodies, htook₂, hall₂⟩ := Progress.bodies_took hbodies
  have hclose : p₁.close.env = p.env.withScopes last.closed := by
    rw [Progress.close, henv₁]
    rfl
  rw [finish_collector] at hK
  have hlimit₁ : p₁.collector.limit = K := htook₁.limit.trans (declarations_limit hdeclarations)
  have hlimit₂ : p₂.collector.limit = K := htook₂.limit.trans hlimit₁
  have hgo₂ : p₂.collector.shouldStop = false := by
    rw [← Bool.not_eq_true, Collector.shouldStop_iff]
    omega
  have hcollector : p₂.collector = p₁.collector.extend (foundIn bodies) := htook₂.collector
  have hgo₁ : p₁.collector.shouldStop = false := by
    have hmore := Collector.extend_errorCount p₁.collector (foundIn bodies)
    rw [← hcollector] at hmore
    rw [← Bool.not_eq_true, Collector.shouldStop_iff]
    omega
  rw [Nat.sub_eq_zero_of_le (hall₁ hgo₁)] at htook₁
  rw [Nat.sub_eq_zero_of_le (hall₂ hgo₂)] at htook₂
  rw [take_of_length_le (hall₁ hgo₁)] at hvars
  rw [take_of_length_le (hall₂ hgo₂), hclose] at hbodies
  refine ⟨p, bs, last, vars, bodies, ⟨hdeclarations, hvars, hbodies⟩, ?_, ?_⟩
  · exact finish_tookIn (htook₁.close.trans htook₂) (declarations_skipped hdeclarations)
      (henv₂.trans hclose)
  · rw [finish_env, henv₂, hclose]

end Module

end TreeTyping
