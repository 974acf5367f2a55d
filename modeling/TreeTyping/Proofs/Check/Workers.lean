/-
Bodies on several workers.

The bodies of a module may be checked at the same time.  Workers share nothing but the answers about
interfaces that are remembered: a worker looks a question up, and where it is not there works the
answer out from the registry and stores it.  Between the lookup and the store other workers go on,
so one answer may be worked out and stored many times.

A schedule says whose turn it is, step after step; any list of turns is one, so schedules know
nothing of the number of workers or of the order in which bodies are begun.  What is remembered is
always what the registry answers, and every answer a worker gets is therefore the one it would have
worked out itself.  So a body comes to the same whatever the schedule, and as outcomes are taken in
by the order of the declarations, so does the check.
-/
import TreeTyping.Proofs.Check.Module
import TreeTyping.Proofs.Check.Outcomes
import TreeTyping.Proofs.Interface.Cache
import TreeTyping.Proofs.Typing.Engine
import TreeTyping.Proofs.Typing.Frame

namespace TreeTyping

open List TreeTyping.Except

/-! ### Tasks -/

/-- Where a worker stands with an inference, and the facts it has established. -/
inductive Task where
  | working (facts : List Fact) (rest : Inference Unit)
  /-- The question was not remembered, and its answer has not been stored yet. -/
  | answering (facts : List Fact) (q : Question) (answer : Except Failure (Option MemberMismatch))
      (rest : Option MemberMismatch → Inference Unit)

namespace Task

/-- One step of a worker, with the answers that are remembered; there is none when it is done. -/
def next (c : SatisfactionCache) : Task → Option (SatisfactionCache × Task)
  | .working _ (.done _) => none
  | .working facts (.establish fact rest) => some (c, .working (facts ++ [fact]) rest)
  | .working facts (.ask q answer rest) =>
    match c.find? q with
    | some a => some ({ c with hits := c.hits + 1 }, .working (facts ++ [.asked q]) (rest a))
    | none => some ({ c with misses := c.misses + 1 }, .answering (facts ++ [.asked q])
        q answer rest)
  | .answering facts q (.ok a) rest => some (c.store q a, .working facts (rest a))
  | .answering facts _ (.error f) _ => some (c, .working facts (.done (.error f)))

/-- What a worker has come to, once it is done. -/
def result? : Task → Option (Logged Fact Failure Unit)
  | .working facts (.done result) => some ⟨result, facts⟩
  | _ => none

/-- What a worker comes to if the registry answers its questions from here on. -/
def final : Task → Logged Fact Failure Unit
  | .working facts rest => ⟨rest.run.result, facts ++ rest.run.log⟩
  | .answering facts _ answer rest =>
    let rest := Logged.lift answer >>= fun a => (rest a).run
    ⟨rest.result, facts ++ rest.log⟩

/-- The questions of a worker go to the given registry. -/
def Asks (r : Registry) : Task → Prop
  | .working _ rest => rest.Asks r
  | .answering _ q answer rest =>
    answer = r.firstMismatch q.concrete q.interface ∧ ∀ a, (rest a).Asks r

/-- The steps an inference takes if the registry answers and nothing is remembered. -/
def stepsOf : Inference Unit → Nat
  | .done _ => 0
  | .establish _ rest => stepsOf rest + 1
  | .ask _ (.ok a) rest => stepsOf (rest a) + 2
  | .ask _ (.error _) _ => 2

/-- The number of steps a worker has before it at most. -/
def steps : Task → Nat
  | .working _ rest => stepsOf rest
  | .answering _ _ (.ok a) rest => stepsOf (rest a) + 1
  | .answering _ _ (.error _) _ => 1

/-- The number of steps several workers have before them at most. -/
def stepsOfAll : List Task → Nat
  | [] => 0
  | t :: rest => t.steps + stepsOfAll rest

theorem stepsOfAll_set_lt {tasks : List Task} {turn : Nat} {t t' : Task}
    (ht : tasks[turn]? = some t)
    (hless : t'.steps < t.steps) : stepsOfAll (tasks.set turn t') < stepsOfAll tasks := by
  induction tasks generalizing turn with
  | nil => cases ht
  | cons u rest ih =>
    cases turn with
    | zero =>
      cases ht
      rw [set_cons_zero, stepsOfAll, stepsOfAll]
      omega
    | succ turn =>
      have hrest := ih ht
      rw [set_cons_succ, stepsOfAll, stepsOfAll]
      omega

theorem final_of_result? {t : Task} {x : Logged Fact Failure Unit} (h : t.result? = some x) :
    t.final = x := by
  unfold result? at h
  split at h
  · cases h
    simp [final, Inference.run]
  · cases h

theorem results_final {tasks : List Task} {xs : List (Logged Fact Failure Unit)}
    (h : tasks.mapM result? = some xs) : xs = tasks.map final := by
  induction tasks generalizing xs with
  | nil =>
    cases h
    rfl
  | cons t rest ih =>
    rw [mapM_cons] at h
    obtain ⟨x, hx, h⟩ := Option.bind_eq_some_iff.1 h
    obtain ⟨others, hothers, h⟩ := Option.bind_eq_some_iff.1 h
    cases h
    rw [map_cons, final_of_result? hx, ← ih hothers]

theorem not_done_of_results {tasks : List Task} (h : tasks.mapM result? = none) :
    ∃ t ∈ tasks, t.result? = none := by
  induction tasks with
  | nil => cases h
  | cons t rest ih =>
    rcases ht : t.result? with _ | x
    · exact ⟨t, mem_cons_self, ht⟩
    · rcases hrest : rest.mapM result? with _ | xs
      · obtain ⟨u, hu, hnone⟩ := ih hrest
        exact ⟨u, mem_cons_of_mem _ hu, hnone⟩
      · rw [mapM_cons, ht, hrest] at h
        cases h

/-- A worker that is not done has a step. -/
theorem next_isSome {t : Task} (c : SatisfactionCache) (h : t.result? = none) :
    ∃ c' t', t.next c = some (c', t') := by
  cases t with
  | working facts rest =>
    cases rest with
    | done result => cases h
    | establish fact rest => exact ⟨_, _, rfl⟩
    | ask q answer rest =>
      rw [next]
      split <;> exact ⟨_, _, rfl⟩
  | answering facts q answer rest =>
    cases answer with
    | ok a => exact ⟨_, _, rfl⟩
    | error f => exact ⟨_, _, rfl⟩

/--
**What a step keeps.**  The answers that are remembered stay right, the worker still comes to the
same, and it has fewer steps before it.
-/
theorem next_keeps {r : Registry} {c c' : SatisfactionCache} {t t' : Task} (hc : c.Right r)
    (ht : t.Asks r) (h : t.next c = some (c', t')) :
    c'.Right r ∧ t'.Asks r ∧ t'.final = t.final ∧ t'.steps < t.steps := by
  cases t with
  | working facts rest =>
    cases rest with
    | done result => cases h
    | establish fact rest =>
      cases h
      refine ⟨hc, ht, ?_, Nat.lt_succ_self _⟩
      rw [final, final, Inference.run, Logged.bind_of_ok (Logged.result_record fact), append_assoc]
      rfl
    | ask q answer rest =>
      obtain ⟨rfl, hrest⟩ := ht
      have hasked {y : Logged Fact Failure Unit} :
          (Logged.record (.asked q) >>= fun _ => y) = ⟨y.result, [.asked q] ++ y.log⟩ :=
        Logged.bind_of_ok (Logged.result_record _)
      rw [next] at h
      split at h
      · next a hfind =>
          -- what is remembered is what the registry would answer
          have hanswer := hc q a hfind
          cases h
          refine ⟨hc, hrest a, ?_, ?_⟩
          · rw [final, final, Inference.run, hasked, hanswer, append_assoc]
            rfl
          · rw [steps, steps, hanswer, stepsOf]
            omega
      · cases h
        refine ⟨hc, ⟨rfl, hrest⟩, ?_, ?_⟩
        · rw [final, final, Inference.run, hasked, append_assoc]
        · rw [steps.eq_def, steps]
          cases r.firstMismatch q.concrete q.interface with
          | ok a => exact Nat.lt_succ_self _
          | error f => exact Nat.lt_succ_self _
  | answering facts q answer rest =>
    obtain ⟨hanswer, hrest⟩ := ht
    cases answer with
    | ok a =>
      cases h
      exact ⟨hc.store hanswer.symm, hrest a, rfl, Nat.lt_succ_self _⟩
    | error f =>
      cases h
      exact ⟨hc, trivial, rfl, Nat.lt_succ_self _⟩

end Task

/-! ### Pools -/

/-- Workers that share the answers they remember. -/
structure Pool where
  cache : SatisfactionCache
  tasks : List Task

namespace Pool

/-- One step of the worker whose turn it is. -/
def advance (pool : Pool) (turn : Nat) : Option Pool := do
  let task ← pool.tasks[turn]?
  let (cache, task) ← task.next pool.cache
  return { cache, tasks := pool.tasks.set turn task }

/-- The steps of a schedule; there must be a step at every turn. -/
def run (pool : Pool) (schedule : List Nat) : Option Pool := schedule.foldlM advance pool

theorem run_append (pool : Pool) (first second : List Nat) :
    pool.run (first ++ second) = pool.run first >>= fun next => next.run second :=
  foldlM_append

/-- What the workers have come to, once all are done. -/
def results? (pool : Pool) : Option (List (Logged Fact Failure Unit)) :=
  pool.tasks.mapM Task.result?

/-- The pool before the first step: all is to be worked on, and some answers are remembered. -/
def start (cache : SatisfactionCache) (inferences : List (Inference Unit)) : Pool :=
  { cache, tasks := inferences.map (.working []) }

/-- The number of steps the workers have before them at most. -/
def steps (pool : Pool) : Nat := Task.stepsOfAll pool.tasks

/-- The workers are on their way to what the inferences come to with the registry. -/
structure Pursues (r : Registry) (inferences : List (Inference Unit)) (pool : Pool) : Prop where
  cache : pool.cache.Right r
  asks : ∀ t ∈ pool.tasks, t.Asks r
  final : pool.tasks.map Task.final = inferences.map Inference.run

variable {r : Registry} {inferences : List (Inference Unit)} {pool pool' : Pool}

theorem start_pursues {cache : SatisfactionCache} (hc : cache.Right r)
    (h : ∀ x ∈ inferences, x.Asks r) : Pursues r inferences (start cache inferences) := by
  refine ⟨hc, forall_mem_map.2 h, ?_⟩
  rw [start, map_map]
  refine map_congr_left fun x _ => ?_
  show Task.final (.working [] x) = x.run
  rw [Task.final, nil_append]

theorem Pursues.advance {turn : Nat} (h : Pursues r inferences pool)
    (hstep : pool.advance turn = some pool') :
    Pursues r inferences pool' ∧ pool'.steps < pool.steps := by
  obtain ⟨t, ht, hstep⟩ := Option.bind_eq_some_iff.1 hstep
  obtain ⟨⟨c, t'⟩, hnext, hstep⟩ := Option.bind_eq_some_iff.1 hstep
  cases hstep
  obtain ⟨hc, hasks, hfinal, hless⟩ := Task.next_keeps h.cache (h.asks t (mem_of_getElem? ht)) hnext
  refine ⟨⟨hc, fun u hu => ?_, ?_⟩, ?_⟩
  · rcases mem_or_eq_of_mem_set hu with hu | rfl
    · exact h.asks u hu
    · exact hasks
  · rw [← h.final, map_set, hfinal]
    refine ext_getElem? fun i => ?_
    by_cases hi : turn = i
    · subst hi
      rw [getElem?_set_self' , getElem?_map, ht]
      rfl
    · rw [getElem?_set_ne hi]
  · exact Task.stepsOfAll_set_lt ht hless

/-- **On any schedule workers are on their way to what the inferences come to**; it is finite. -/
theorem Pursues.run {schedule : List Nat} (h : Pursues r inferences pool)
    (hrun : pool.run schedule = some pool') :
    Pursues r inferences pool' ∧ pool'.steps + schedule.length ≤ pool.steps := by
  induction schedule generalizing pool with
  | nil =>
    cases hrun
    exact ⟨h, Nat.le_refl _⟩
  | cons turn rest ih =>
    rw [Pool.run, foldlM_cons] at hrun
    obtain ⟨middle, hmiddle, hrest⟩ := Option.bind_eq_some_iff.1 hrun
    obtain ⟨hpursues, hless⟩ := h.advance hmiddle
    obtain ⟨hend, hle⟩ := ih hpursues hrest
    refine ⟨hend, ?_⟩
    rw [length_cons]
    omega

/-- When all workers are done, they have come to what the inferences come to with the registry. -/
theorem Pursues.results {xs : List (Logged Fact Failure Unit)} (h : Pursues r inferences pool)
    (hxs : pool.results? = some xs) : xs = inferences.map Inference.run := by
  rw [← h.final]
  exact Task.results_final hxs

/-- Workers that are not all done have a step, so every schedule can be gone on with to the end. -/
theorem Pursues.finish (h : Pursues r inferences pool) :
    ∃ more pool', pool.run more = some pool' ∧ (pool'.results?).isSome = true := by
  generalize hn : pool.steps = n
  induction n using Nat.strongRecOn generalizing pool with
  | ind n ih =>
    rcases hresults : pool.results? with _ | xs
    · obtain ⟨t, ht, hnone⟩ := Task.not_done_of_results hresults
      obtain ⟨turn, hturn⟩ := mem_iff_getElem?.1 ht
      obtain ⟨c, t', hnext⟩ := Task.next_isSome pool.cache hnone
      have hstep : pool.advance turn = some { cache := c, tasks := pool.tasks.set turn t' } := by
        rw [Pool.advance, hturn]
        show (t.next pool.cache >>= _) = _
        rw [hnext]
        rfl
      obtain ⟨hpursues, hless⟩ := h.advance hstep
      obtain ⟨more, pool', hmore, hdone⟩ := ih _ (hn ▸ hless) hpursues rfl
      refine ⟨turn :: more, pool', ?_, hdone⟩
      rw [Pool.run, foldlM_cons, hstep]
      exact hmore
    · exact ⟨[], pool, rfl, by rw [hresults]; rfl⟩

end Pool

/-! ### Checks on workers -/

namespace Progress

/-- The outcome of a body, by what the inference of its statements has come to. -/
def outcomeOf (warn : Bool) (b : Body) (x : Logged Fact Failure Unit) :
    Except Failure BodyOutcome :=
  match x.result with
  | .ok () => flowOutcome warn b x.log
  | .error (.found d) => .ok (rejected b x.log [] d)
  | .error f => .error f

end Progress

/-- Two checks have the same outcome; what they remember, and note on the way, may differ. -/
structure Checked.Agrees (c c' : Checked) : Prop where
  env : c.env = c'.env
  bodies : c.bodies = c'.bodies
  collector : c.collector = c'.collector
  facts : c.facts = c'.facts
  skipped : c.skipped = c'.skipped

namespace Module

open Progress (BodyOutcome checkBody outcomeOf)

/-- The state before the first body is looked at, and the bodies. -/
def beforeBodies (s : Settings) (m : Module) : Except Failure (Progress × List Body) := do
  let (p, bs) ← m.declarations s
  let p ← Progress.takeVariables m.vars p
  return (p.close, bs)

/-- The workers before their first step; what has been asked about the variables is remembered. -/
def poolOf (p : Progress) (bs : List Body) : Pool :=
  .start (SatisfactionCache.replay {} p.env.registry (Fact.questions p.trail))
    (bs.map fun b => Inference.function p.env b.function b.signature)

/-- What a check comes to whose bodies are worked on by a schedule, once all of them are done. -/
def checkShared (s : Settings) (m : Module) (schedule : List Nat) :
    Except Failure (Option Checked) := do
  let (p, bs) ← m.beforeBodies s
  match (poolOf p bs).run schedule with
  | none => return none
  | some pool =>
    match pool.results? with
    | none => return none
    | some xs => do
      let outcomes ← (bs.zip xs).mapM fun x => outcomeOf s.warnUnreachable x.1 x.2
      let p := p.note (.bodiesShared bs.length s.workers)
      return some { m.finish bs (Progress.takeBodies outcomes p) with cache := pool.cache }

variable {m : Module} {s : Settings} {p : Progress} {bs : List Body}

theorem check_eq_beforeBodies : m.check s = m.beforeBodies s >>= fun x => do
    return m.finish x.2 (← Progress.bodies s x.2 x.1) := by
  rw [check, beforeBodies]
  rcases m.declarations s with f | ⟨p, bs⟩
  · rfl
  · show (Progress.takeVariables m.vars p >>= _) = (Progress.takeVariables m.vars p >>= _) >>= _
    rcases Progress.takeVariables m.vars p with f | p₁ <;> rfl

/-- What comes before the bodies does not depend on the number of workers. -/
theorem beforeBodies_workers (n : Int) :
    m.beforeBodies { s with workers := n } = m.beforeBodies s := rfl

theorem poolOf_pursues : Pool.Pursues p.env.registry
    (bs.map fun b => Inference.function p.env b.function b.signature) (poolOf p bs) := by
  refine Pool.start_pursues (SatisfactionCache.right_empty.replay _)
    (forall_mem_map.2 fun b _ => ?_)
  exact Inference.function_records.asks

theorem outcomes_of_results {warn : Bool} {pool : Pool} {xs : List (Logged Fact Failure Unit)}
    (hpool : Pool.Pursues p.env.registry
      (bs.map fun b => Inference.function p.env b.function b.signature) pool)
    (hxs : pool.results? = some xs) :
    ((bs.zip xs).mapM fun x => outcomeOf warn x.1 x.2) = bs.mapM (checkBody p.env warn) := by
  rw [hpool.results hxs, map_map]
  clear hpool hxs
  induction bs with
  | nil => rfl
  | cons b rest ih =>
    rw [map_cons, zip_cons_cons, mapM_cons, mapM_cons, ih]
    rfl

/-- A check that has taken in the same outcomes from the same state agrees with another. -/
theorem finish_agrees {p₁ p₂ : Progress} {outcomes : List BodyOutcome} {left : Nat}
    (h₁ : Took p outcomes left p₁)
    (h₂ : Took p outcomes left p₂) (henv : p₁.env = p₂.env) :
    (m.finish bs p₁).Agrees (m.finish bs p₂) := by
  refine ⟨?_, rfl, ?_, ?_, ?_⟩
  · rw [finish_env, finish_env, henv]
  · rw [finish_collector, finish_collector, h₁.collector, h₂.collector]
  · rw [finish_facts, finish_facts, h₁.facts, h₂.facts]
  · rw [finish_skipped, finish_skipped, h₁.skipped, h₂.skipped]

/-- A check on any number of workers takes in the outcomes of the bodies up to the limit. -/
theorem check_took {outcomes : List BodyOutcome} (hbefore : m.beforeBodies s = .ok (p, bs))
    (h : bs.mapM (checkBody p.env s.warnUnreachable) = .ok outcomes) (n : Int) :
    ∃ p', m.check { s with workers := n } = .ok (m.finish bs p') ∧ p'.env = p.env ∧
      Took p (outcomes.take (taken p.collector outcomes))
        (outcomes.length - taken p.collector outcomes) p' := by
  obtain ⟨p', hp', henv, htook⟩ := Progress.bodies_of_outcomes (s := { s with workers := n }) h
  refine ⟨p', ?_, henv, htook⟩
  rw [check_eq_beforeBodies, beforeBodies_workers, hbefore]
  show (Progress.bodies { s with workers := n } bs p >>= _) = _
  rw [hp']
  rfl

/-- A check whose bodies have been worked on by a schedule takes in the same. -/
theorem checkShared_took {outcomes : List BodyOutcome} (hbefore : m.beforeBodies s = .ok (p, bs))
    (h : bs.mapM (checkBody p.env s.warnUnreachable) = .ok outcomes) {schedule : List Nat}
    {pool : Pool}
    (hrun : (poolOf p bs).run schedule = some pool) {xs : List (Logged Fact Failure Unit)}
    (hxs : pool.results? = some xs) :
    ∃ p', m.checkShared s schedule = .ok (some { m.finish bs p' with cache := pool.cache }) ∧
      p'.env = p.env ∧
      Took p (outcomes.take (taken p.collector outcomes))
        (outcomes.length - taken p.collector outcomes) p' := by
  have htook := Progress.takeBodies_took outcomes (p.note (.bodiesShared bs.length s.workers))
  refine ⟨Progress.takeBodies outcomes (p.note (.bodiesShared bs.length s.workers)), ?_,
    Progress.takeBodies_env _ _, htook.facts, htook.collector, htook.skipped⟩
  rw [checkShared, hbefore]
  show (match (poolOf p bs).run schedule with | none => _ | some pool => _) = _
  rw [hrun]
  show (match pool.results? with | none => _ | some xs => _) = _
  rw [hxs]
  show (((bs.zip xs).mapM fun x => outcomeOf s.warnUnreachable x.1 x.2) >>= _) = _
  rw [outcomes_of_results (poolOf_pursues.run hrun).1 hxs, h]
  rfl

/-- A check by a schedule comes to an end only when the workers do. -/
theorem results_of_checkShared {schedule : List Nat} {c : Checked}
    (hbefore : m.beforeBodies s = .ok (p, bs)) (h : m.checkShared s schedule = .ok (some c)) :
    ∃ pool xs, (poolOf p bs).run schedule = some pool ∧ pool.results? = some xs := by
  rw [checkShared, hbefore] at h
  rcases hrun : (poolOf p bs).run schedule with _ | pool
  · replace h : (match (poolOf p bs).run schedule with
      | none => pure none | some pool => _) = _ := h
    rw [hrun] at h
    cases h
  · replace h : (match (poolOf p bs).run schedule with
      | none => pure none | some pool => _) = _ := h
    rw [hrun] at h
    rcases hxs : pool.results? with _ | xs
    · replace h : (match pool.results? with | none => pure none | some xs => _) = _ := h
      rw [hxs] at h
      cases h
    · exact ⟨pool, xs, rfl, hxs⟩

/--
**Bodies on several workers come to the same as bodies one after the other.**

Let no body end in a fault.  Then the check on one worker comes to an end, and so does the check on
any number of workers, with the same diagnostics, facts, signatures and count of what was skipped.
The same holds when the steps of the workers, with their lookups and stores among the answers that
are remembered, are taken in any order: every schedule is finite and can be gone on with until all
workers are done, and the check then agrees with the one on one worker.  No body changes the
registry, the functions or the global scope: an engine that checks it has the same environment
afterwards, whether the body is accepted or refused.
-/
theorem workers_agree (m : Module) (s : Settings)
    (hbodies : ∀ p bs, m.beforeBodies s = .ok (p, bs) →
      ∀ b ∈ bs, ∃ o, checkBody p.env s.warnUnreachable b = .ok o) :
    (∀ f, m.beforeBodies s = .error f →
      (∀ n, m.check { s with workers := n } = .error f) ∧
      ∀ schedule, m.checkShared s schedule = .error f) ∧
    ∀ p bs, m.beforeBodies s = .ok (p, bs) → ∃ c, m.check { s with workers := 1 } = .ok c ∧
      c.env = p.env ∧ (∀ n, ∃ c', m.check { s with workers := n } = .ok c' ∧ c'.Agrees c) ∧
      (∀ schedule c', m.checkShared s schedule = .ok (some c') → c'.Agrees c) ∧
      (∃ bound, ∀ schedule pool, (poolOf p bs).run schedule = some pool → schedule.length ≤ bound ∧
        ∃ more c', m.checkShared s (schedule ++ more) = .ok (some c')) ∧
      ∀ b ∈ bs, ∀ e : Engine, e.env = p.env → Engine.function b.function b.signature e =
        Engine.ends (Inference.function p.env b.function b.signature).result
          { e.told (Inference.function p.env b.function b.signature).log with
            signature := none, loops := 0 } := by
  refine ⟨fun f hf => ⟨fun n => ?_, fun schedule => ?_⟩, fun p bs hbefore => ?_⟩
  · rw [check_eq_beforeBodies, beforeBodies_workers, hf]
    rfl
  · rw [checkShared, hf]
    rfl
  obtain ⟨outcomes, houtcomes⟩ := mapM_total (hbodies p bs hbefore)
  obtain ⟨p₁, hcheck, henv, htook⟩ := check_took hbefore houtcomes 1
  refine ⟨m.finish bs p₁, hcheck, ?_, fun n => ?_, fun schedule c' hshared => ?_,
    ⟨(poolOf p bs).steps, ?_⟩, ?_⟩
  · rw [finish_env, henv]
  · obtain ⟨p₂, hcheck₂, henv₂, htook₂⟩ := check_took hbefore houtcomes n
    exact ⟨_, hcheck₂, finish_agrees htook₂ htook (henv₂.trans henv.symm)⟩
  · obtain ⟨pool, xs, hrun, hxs⟩ := results_of_checkShared hbefore hshared
    obtain ⟨p₂, hshared₂, henv₂, htook₂⟩ := checkShared_took hbefore houtcomes hrun hxs
    cases hshared.symm.trans hshared₂
    have hagrees : (m.finish bs p₂).Agrees (m.finish bs p₁) :=
      finish_agrees htook₂ htook (henv₂.trans henv.symm)
    exact ⟨hagrees.env, hagrees.bodies, hagrees.collector, hagrees.facts, hagrees.skipped⟩
  · intro schedule pool hrun
    obtain ⟨hpursues, hsteps⟩ := poolOf_pursues.run hrun
    refine ⟨by omega, ?_⟩
    obtain ⟨more, last, hmore, hdone⟩ := hpursues.finish
    obtain ⟨xs, hxs⟩ := Option.isSome_iff_exists.1 hdone
    have hwhole : (poolOf p bs).run (schedule ++ more) = some last := by
      rw [Pool.run_append, hrun]
      exact hmore
    obtain ⟨p₂, hshared₂, -, -⟩ := checkShared_took hbefore houtcomes hwhole hxs
    exact ⟨more, _, hshared₂⟩
  · intro b _
    exact fun _ he => he ▸ Engine.function_eq

/--
A module with two functions that each take a structure for an interface it satisfies; the second
also goes on to return a value, which a procedure may not.
-/
def sharersTree : Tree :=
  let on (line column : Int) : Span := .point line column .null
  let type (line : Int) (name : String) : Tree := .node .simpleType (on line 10) [.text name]
  let block (line : Int) (body : List Tree) : Tree := .node .block (on line 1) [.list body]
  let stone (line : Int) : Tree := .node .structLiteral (on line 9) [.text "Stone", .object []]
  let take (line : Int) : Tree :=
    .node .varDecl (on line 5) [.text "x", type line "Heavy", stone line]
  let procedure (line : Int) (name : String) (body : List Tree) (receiver : Tree) : Tree :=
    .node .functionDef (on line 1) [.text name, .list [], .null, block line body, receiver]
  .node .compilationUnit (on 1 1)
    [.text "m",
     .list [.node .interfaceDecl (on 1 1)
         [.text "Heavy", .list [.node .methodSig (on 1 5) [.text "drop", .list [], .null]]],
       .node .structDecl (on 2 1) [.text "Stone", .list []]],
     .list [],
     .list [procedure 3 "drop" [] (.node .parameter (on 3 2) [.text "s", type 3 "Stone"]),
       procedure 4 "first" [take 4] .null,
       procedure 5 "second" [take 5, .node .returnStatement (on 6 5) [stone 6]] .null]]

/-- The module read from that tree. -/
def sharers : Module := (Module.ofTree? (.root 0) sharersTree).get (by decide)

/-- No body of the module ends in a fault. -/
theorem sharers_bodies (p : Progress) (bs : List Body) (h : sharers.beforeBodies {} = .ok (p, bs)) :
    ∀ b ∈ bs, ∃ o, checkBody p.env false b = .ok o := by
  have hall : (sharers.beforeBodies {}).toOption.map
      (fun x => x.2.all fun b => (checkBody x.1.env false b).toOption.isSome) = some true := by
        decide +kernel
  rw [h] at hall
  intro b hb
  obtain ⟨o, ho⟩ := Option.isSome_iff_exists.1 (all_eq_true.1 (Option.some.inj hall) b hb)
  exact ⟨o, toOption_eq_some.1 ho⟩

/--
Two workers that take turns both work out that the structure satisfies the interface, where one
worker has to do so once; the outcome is the same.
-/
theorem workers_agree_sharers : (∀ p bs, sharers.beforeBodies {} = .ok (p, bs) →
      ∀ b ∈ bs, ∃ o, checkBody p.env false b = .ok o) ∧
    ∃ c c', sharers.check { workers := 1 } = .ok c ∧
      sharers.checkShared {} [2, 1, 2, 1, 2, 1, 2, 1, 2, 1, 2, 1, 0] = .ok (some c') ∧ c'.Agrees c ∧
      c.cache.misses = 1 ∧ c'.cache.misses = 2 := by
  refine ⟨sharers_bodies, ?_⟩
  have hbefore : (sharers.beforeBodies {}).toOption.isSome = true := by decide +kernel
  obtain ⟨⟨p, bs⟩, hpbs⟩ := Option.isSome_iff_exists.1 hbefore
  obtain ⟨c, hc, -, -, hagrees, -⟩ :=
    (workers_agree sharers {} sharers_bodies).2 p bs (toOption_eq_some.1 hpbs)
  have hone : (sharers.check { workers := 1 }).toOption.map (fun c => c.cache.misses) = some 1 := by
    decide +kernel
  have htwo : (sharers.checkShared {} [2, 1, 2, 1, 2, 1, 2, 1, 2, 1, 2, 1, 0]).toOption.map
      (fun c => c.map fun c => c.cache.misses) = some (some 2) := by decide +kernel
  obtain ⟨shared, hshared, hmisses⟩ := Option.map_eq_some_iff.1 htwo
  obtain ⟨c', rfl, hc'⟩ := Option.map_eq_some_iff.1 hmisses
  replace hshared := toOption_eq_some.1 hshared
  rw [hc] at hone
  exact ⟨c, c', hc, hshared, hagrees _ c' hshared, Option.some.inj hone, hc'⟩

end Module

end TreeTyping
