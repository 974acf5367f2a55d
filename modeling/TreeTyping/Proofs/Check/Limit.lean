/-
What the limit on errors cuts off.

A check with a limit takes in the outcomes of the declarations in order, up to the first behind
which as many errors have been found as the limit allows.  What it has then is what a check without
a limit has after the same declarations, and the others are counted.

There is one way in which the limit does harm.  After the variables the first body is looked at
before the limit is, and with several workers all bodies are.  Where the variables were cut short,
that look is one into scopes that lack some of them, which no check without a limit ever takes.  It
may end in a fault, and then the whole check does, though nothing of the body would have been kept.
-/
import Mathlib.Tactic
import TreeTyping.Proofs.Check.Module

namespace TreeTyping

open List TreeTyping.Except
open Progress (BodyOutcome checkBody variableOutcomes)

/-- The bodies that are looked at before the limit is. -/
def lookedAhead (s : Settings) (bs : List Body) : List Body :=
  if s.workers > 1 ∧ bs.length > 1 then bs else bs.take 1

namespace Progress

/-- Where the limit is reached, the look ahead fails, or all bodies are left over. -/
theorem bodies_stopped (s : Settings) (bs : List Body) {p : Progress}
    (hstop : p.collector.shouldStop = true) :
    (∃ p', bodies s bs p = .ok p' ∧ p'.env = p.env ∧ Took p [] bs.length p') ∨
      ∃ f, (lookedAhead s bs).mapM (checkBody p.env s.warnUnreachable) = .error f ∧
        bodies s bs p = .error f := by
  unfold bodies lookedAhead
  split
  · rcases h : bs.mapM (checkBody p.env s.warnUnreachable) with f | outcomes
    · exact .inr ⟨f, rfl, rfl⟩
    · have hlength : outcomes.length = bs.length := ((mapM_eq_ok.1 h).length_eq).symm
      have hnone : taken p.collector outcomes = 0 := by
        cases outcomes with
        | nil => rfl
        | cons o rest => rw [taken, if_pos hstop]
      have htook := takeBodies_took outcomes (p.note (.bodiesShared bs.length s.workers))
      rw [show (p.note (.bodiesShared bs.length s.workers)).collector = p.collector from rfl, hnone,
        take_zero, Nat.sub_zero, hlength] at htook
      exact .inl ⟨_, rfl, takeBodies_env _ _, htook.facts, htook.collector, htook.skipped⟩
  · cases bs with
    | nil => exact .inl ⟨p, rfl, rfl, .nothing rfl rfl rfl⟩
    | cons b rest =>
      rw [bodiesInTurn, take_succ_cons, take_zero, mapM_cons]
      rcases checkBody p.env s.warnUnreachable b with f | o
      · exact .inr ⟨f, rfl, rfl⟩
      · refine .inl ⟨{ p.drop o.facts with skipped := p.skipped + (rest.length + 1) }, ?_, rfl,
          .nothing rfl rfl rfl⟩
        exact if_pos hstop

/-- Where all variables and bodies can be looked at, the limit alone decides what is taken in. -/
theorem passes_of_outcomes {s : Settings} {m : Module} {bs : List Body} {p : Progress}
    {last : Scopes}
    {vars bodies : List BodyOutcome} (hvars : variableOutcomes p.env m.vars = .ok (last, vars))
    (hbodies : bs.mapM (checkBody (p.env.withScopes last.closed) s.warnUnreachable) = .ok bodies)
    (hall : taken p.collector vars = vars.length) :
    ∃ p₁ p₂, takeVariables m.vars p = .ok p₁ ∧ Progress.bodies s bs p₁.close = .ok p₂ ∧
      p₂.env = p.env.withScopes last.closed ∧
      Took p ((vars ++ bodies).take (taken p.collector (vars ++ bodies)))
        ((vars ++ bodies).length - taken p.collector (vars ++ bodies)) p₂ := by
  obtain ⟨p₁, cut, hp₁, henv, htook, -, hlast⟩ := takeVariables_of_outcomes hvars
  obtain rfl := hlast hall
  rw [hall, take_length, Nat.sub_self] at htook
  have hclose : p₁.close.env = p.env.withScopes cut.closed := by
    rw [close, henv]
    rfl
  rw [← hclose] at hbodies
  obtain ⟨p₂, hp₂, henv₂, htook₂⟩ := bodies_of_outcomes hbodies
  have hcollector : p₁.close.collector = p.collector.extend (foundIn vars) := htook.collector
  rw [hcollector] at htook₂
  have hpasses := htook.close.trans htook₂
  refine ⟨p₁, p₂, hp₁, hp₂, henv₂.trans hclose, ?_⟩
  rw [taken_append_of_eq bodies hall, take_length_add_append, length_append, Nat.add_sub_add_left]
  rwa [Nat.zero_add] at hpasses

end Progress

/-! ### Checks with and without a limit -/

namespace Module

variable {m : Module} {s : Settings}

/-- Registration does not look at the limit. -/
theorem declarations_withLimit {k K : Int} {p : Progress} {bs : List Body}
    (h : m.declarations { s with maxErrors := K } = .ok (p, bs)) :
    m.declarations { s with maxErrors := k } =
      .ok ({ p with collector := { p.collector with limit := k } }, bs) := by
  obtain ⟨types, htypes, h⟩ := bind_eq_ok.1 h
  obtain ⟨signatures, hsignatures, h⟩ := bind_eq_ok.1 h
  cases h
  exact bind_eq_ok.2 ⟨types, htypes, bind_eq_ok.2 ⟨signatures, hsignatures, rfl⟩⟩

/-- What the limit leaves of a check whose outcomes are known. -/
theorem check_cut {p : Progress} {bs : List Body} {last : Scopes} {vars bodies : List BodyOutcome}
    (h : Unfolds s m p bs last vars bodies) :
    (∃ c, m.check s = .ok c ∧ c.collector = p.collector.extend
        (foundIn ((vars ++ bodies).take (taken p.collector (vars ++ bodies)))) ∧
      c.TookIn p bs ((vars ++ bodies).take (taken p.collector (vars ++ bodies)))
        ((vars ++ bodies).length - taken p.collector (vars ++ bodies))) ∨
    ∃ cut kept f, taken p.collector (vars ++ bodies) < m.vars.length ∧
      variableOutcomes p.env (m.vars.take (taken p.collector (vars ++ bodies))) = .ok (cut, kept) ∧
      (lookedAhead s bs).mapM (checkBody (p.env.withScopes cut.closed) s.warnUnreachable) =
      .error f ∧
      m.check s = .error f := by
  have hskipped := declarations_skipped h.declarations
  have hvars : vars.length = m.vars.length := Progress.variableOutcomes_length h.vars
  have hbodies : bodies.length = bs.length := ((mapM_eq_ok.1 h.bodies).length_eq).symm
  by_cases hall : taken p.collector vars = vars.length
  · obtain ⟨p₁, p₂, hp₁, hp₂, henv, htook⟩ := Progress.passes_of_outcomes h.vars h.bodies hall
    refine .inl ⟨m.finish bs p₂, ?_, ?_, finish_tookIn htook hskipped henv⟩
    · exact check_eq_ok.2 ⟨p, bs, p₁, p₂, h.declarations, hp₁, hp₂, rfl⟩
    · rw [finish_collector, htook.collector]
  · have hlt : taken p.collector vars < vars.length :=
      Nat.lt_of_le_of_ne (taken_le p.collector vars) hall
    rw [taken_append_of_lt bodies hlt]
    obtain ⟨p₁, cut, hp₁, henv, htook, ⟨kept, hkept⟩, -⟩ :=
      Progress.takeVariables_of_outcomes h.vars
    have hclose : p₁.close.env = p.env.withScopes cut.closed := by
      rw [Progress.close, henv]
      rfl
    have hstop : p₁.close.collector.shouldStop = true := by
      rw [Collector.shouldStop_iff, htook.close.collector]
      exact (taken_stops p.collector vars).behind hlt
    rcases Progress.bodies_stopped s bs hstop with ⟨p₂, hp₂, henv₂, htook₂⟩ | ⟨f, hf, hfail⟩
    · refine .inl ⟨m.finish bs p₂, ?_, ?_, ?_⟩
      · exact check_eq_ok.2 ⟨p, bs, p₁, p₂, h.declarations, hp₁, hp₂, rfl⟩
      · rw [finish_collector, (htook.close.trans htook₂).collector, append_nil,
          take_append_of_le_length (taken_le _ _)]
      · have hpasses := htook.close.trans htook₂
        rw [append_nil] at hpasses
        rw [take_append_of_le_length (taken_le _ _), length_append, hbodies]
        rw [← Nat.sub_add_comm (taken_le _ _)] at hpasses
        exact finish_tookIn hpasses hskipped (henv₂.trans hclose)
    · refine .inr ⟨cut, kept, f, hvars ▸ hlt, hkept, hclose ▸ hf, ?_⟩
      rw [check, h.declarations]
      show (Progress.takeVariables m.vars p >>= _) = _
      rw [hp₁]
      show (Progress.bodies s bs p₁.close >>= _) = _
      rw [hfail]
      rfl

/--
**The limit on errors only cuts a check short, unless a body it looks at too soon ends in a fault.**

Let `all` be what a check comes to that never reaches its limit.  A check of the same module with
the limit `k` takes in the outcomes of the declarations, in order, up to the first behind which
there are at least `k` errors.  It has the diagnostics and facts of registration and of the
declarations it took in, the same signatures, counts the declarations that are left over, and has as
many errors as registration found, or `k` if there are as many.  When anything is left over, the
module is not accepted.

The one exception is a check that is cut short among the variables: a body is still looked at, in
the scopes that the variables leave up to there, and when that ends in a fault the check does too.
-/
theorem check_within_limit {k K : Int} (hk : 1 ≤ k) {all : Checked}
    (hall : m.check { s with maxErrors := K } = .ok all)
    (hK : (all.collector.errorCount : Int) < K) :
    ∃ p bs last vars bodies n, Unfolds { s with maxErrors := k } m p bs last vars bodies ∧
      all.TookIn p bs (vars ++ bodies) 0 ∧ p.collector.limit = k ∧
      StopsAfter p.collector (vars ++ bodies) n ∧
      ((∃ c, m.check { s with maxErrors := k } = .ok c ∧
          c.TookIn p bs ((vars ++ bodies).take n) ((vars ++ bodies).length - n) ∧
          (c.collector.errorCount : Int) =
            max (p.collector.errorCount : Int) (min k all.collector.errorCount) ∧
          (c.truncated = true → c.accepted = false)) ∨
        ∃ cut kept f, n < m.vars.length ∧ variableOutcomes p.env (m.vars.take n) = .ok (cut, kept) ∧
          (lookedAhead s bs).mapM (checkBody (p.env.withScopes cut.closed) s.warnUnreachable) =
            .error (.fault f) ∧
          m.check { s with maxErrors := k } = .error (.fault f)) := by
  obtain ⟨q, bs, last, vars, bodies, hunfolds, htookIn, -⟩ := check_unfolds hall hK
  have hcut : Unfolds { s with maxErrors := k } m
    { q with collector := { q.collector with limit := k } }
      bs last vars bodies :=
    ⟨declarations_withLimit hunfolds.declarations, hunfolds.vars, hunfolds.bodies⟩
  generalize hp : ({ q with collector := { q.collector with limit := k } } : Progress) = p at hcut
  have htookIn' : all.TookIn p bs (vars ++ bodies) 0 := by
    rw [← hp]
    exact ⟨htookIn.registry, htookIn.functions, htookIn.bodies, htookIn.diagnostics, htookIn.facts,
      htookIn.skipped⟩
  have hlimit : p.collector.limit = k := declarations_limit hcut.declarations
  have hstops := taken_stops p.collector (vars ++ bodies)
  refine ⟨p, bs, last, vars, bodies, _, hcut, htookIn', hlimit, hstops, ?_⟩
  rcases check_cut hcut with ⟨c, hc, hcollector, hctook⟩ | ⟨cut, kept, f, hlt, hkept, hahead, hfail⟩
  · have hone : ∀ o ∈ vars ++ bodies, (o.found.filter Diagnostic.isError).length ≤ 1 := by
      intro o ho
      rcases mem_append.1 ho with ho | ho
      · exact Progress.variableOutcomes_errors hcut.vars o ho
      · obtain ⟨b, -, hb⟩ := mapM_mem hcut.bodies o ho
        exact Progress.checkBody_errors hb
    have htotal : all.collector.errorCount =
        (p.collector.extend (foundIn (vars ++ bodies))).errorCount :=
      Collector.errorCount_congr htookIn'.diagnostics
    refine .inl ⟨c, hc, hctook, ?_, fun htruncated => ?_⟩
    · rw [htotal, hcollector, ← hlimit]
      exact hstops.errorCount_eq hone
    · have hleft : 0 < c.skipped := of_decide_eq_true htruncated
      rw [hctook.skipped] at hleft
      have hbehind := hstops.behind (by omega)
      rw [← hcollector, hlimit] at hbehind
      rw [Checked.accepted, decide_eq_false_iff_not]
      omega
  · obtain ⟨b, -, hb⟩ := mapM_eq_error hahead
    obtain ⟨fault, rfl⟩ := Progress.checkBody_eq_error hb
    exact .inr ⟨cut, kept, fault, hlt, hkept, hahead, hfail⟩

/--
A module with a type `R` of pairs of `R`, which no value has.  Its variables are one of a type that
is not there, and one with the name of the type; its function makes a pair of its argument, by the
name `R`.
-/
def shadowedTree : Tree :=
  let on (line column : Int) : Span := .point line column .null
  let type (line : Int) (name : String) : Tree := .node .simpleType (on line 10) [.text name]
  let name (line column : Int) (s : String) : Tree := .node .identifier (on line column) [.text s]
  let pairs : Tree := .node .genericType (on 1 10) [.text "array", .list [type 1 "R"], .int 2]
  let pair : Tree := .node .listLiteral (on 5 7) [.list [name 5 8 "a", name 5 11 "a"]]
  let call : Tree := .node .functionCall (on 5 5) [name 5 5 "R", .list [pair]]
  .node .compilationUnit (on 1 1)
    [.text "m",
     .list [.node .typeAliasDecl (on 1 1) [.text "R", pairs]],
     .list [.node .varDecl (on 2 1) [.text "e", type 2 "Missing", .null],
       .node .varDecl (on 3 1)
         [.text "R", type 3 "int", .node .literal (on 3 16) [.int 1, .literalKind .int]]],
     .list [.node .functionDef (on 4 1)
       [.text "f", .list [.node .parameter (on 4 8) [.text "a", type 4 "R"]], .null,
        .node .block (on 5 1) [.list [.node .expressionStatement (on 5 5) [call]]], .null]]]

/-- The module read from that tree. -/
def shadowed : Module := (Module.ofTree? (.root 0) shadowedTree).get (by decide)

/-- Without a limit two errors are found: the missing type, and that a variable is called. -/
theorem shadowed_all : ∃ all, shadowed.check { maxErrors := 50 } = .ok all ∧
    all.collector.errorCount = 2 := by
  have hcheck : (shadowed.check { maxErrors := 50 }).toOption.map
      (fun c => c.collector.errorCount) = some 2 := by
    decide +kernel
  obtain ⟨all, hall, hcount⟩ := Option.map_eq_some_iff.1 hcheck
  exact ⟨all, toOption_eq_some.1 hall, hcount⟩

/-- The outcomes of the module, of which a check with the limit one takes in the first. -/
theorem check_within_limit_shadowed : ∃ all, shadowed.check { maxErrors := 50 } = .ok all ∧
    (all.collector.errorCount : Int) < 50 ∧
    ∃ p bs last vars bodies n, Unfolds { maxErrors := 1 } shadowed p bs last vars bodies ∧
      all.TookIn p bs (vars ++ bodies) 0 ∧ p.collector.limit = 1 ∧
        StopsAfter p.collector (vars ++ bodies) n := by
  obtain ⟨all, hall, hcount⟩ := shadowed_all
  have hless : (all.collector.errorCount : Int) < 50 := by
    rw [hcount]
    decide
  obtain ⟨p, bs, last, vars, bodies, n, hunfolds, htookIn, hlimit, hstops, -⟩ :=
    check_within_limit (s := {}) (Int.le_refl 1) hall hless
  exact ⟨all, hall, hless, p, bs, last, vars, bodies, n, hunfolds, htookIn, hlimit, hstops⟩

/--
With the limit one the check ends in a fault: the variable `R` is left over, and where it is not in
scope the function makes a value of the type `R`, whose size is endless.
-/
theorem shadowed_fails :
    (∃ all, shadowed.check { maxErrors := 50 } = .ok all ∧ all.collector.errorCount = 2) ∧
    shadowed.check { maxErrors := 1 } = .error (.fault .endless) :=
  ⟨shadowed_all, by cbv⟩

end Module

end TreeTyping
