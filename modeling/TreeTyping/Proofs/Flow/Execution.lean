/-
How statements run, and that the ways out of a statement are exactly those its runs take.

The runs are described on their own, without the analysis: `Ends s x` says that some finite run of
`s` leaves it in the way `x`.  Conditions and values are not looked at, so a conditional may take
any of its branches and a loop may run any number of rounds, except that a loop whose condition is a
constant obeys it.  A panic never leaves its statement and has no rule.

The analysis visits the body of a loop once, while a run may go through it many times.  Rounds leave
no trace, though: whatever the last round does, the first could have done, and this is all that
`rounds_iff` needs.
-/
import TreeTyping.Flow.Exits
import TreeTyping.Proofs.Syntax.Occurrence

namespace TreeTyping

/-- One way out of a statement. -/
inductive Exit where
  | normal | returns | breaks | continues
deriving DecidableEq, Repr

/-! ### Ways out as a set -/

namespace Exits

/-- Whether a way out is one of several. -/
def has (e : Exits) : Exit → Bool
  | .normal => e.normal
  | .returns => e.returns
  | .breaks => e.breaks
  | .continues => e.continues

instance : Membership Exit Exits where
  mem e x := e.has x = true

instance (x : Exit) (e : Exits) : Decidable (x ∈ e) := inferInstanceAs (Decidable (_ = true))

theorem mem_iff {x : Exit} {e : Exits} : x ∈ e ↔ e.has x = true := Iff.rfl

@[simp] theorem not_mem_none (x : Exit) : x ∉ ({} : Exits) := by
  cases x <;> decide

@[simp] theorem mem_onward {x : Exit} : x ∈ onward ↔ x = .normal := by
  cases x <;> decide

@[simp] theorem mem_union {x : Exit} {a b : Exits} : x ∈ a.union b ↔ x ∈ a ∨ x ∈ b := by
  cases x <;> simp [mem_iff, has, union]

@[simp] theorem mem_withoutNormal {x : Exit} {e : Exits} :
    x ∈ e.withoutNormal ↔ x ∈ e ∧ x ≠ .normal := by
  cases x <;> simp [mem_iff, has, withoutNormal]

@[simp] theorem mem_returns {x : Exit} : x ∈ ({ returns := true } : Exits) ↔ x = .returns := by
  cases x <;> decide

@[simp] theorem mem_breaks {x : Exit} : x ∈ ({ breaks := true } : Exits) ↔ x = .breaks := by
  cases x <;> decide

@[simp] theorem mem_continues {x : Exit} :
    x ∈ ({ continues := true } : Exits) ↔ x = .continues := by
  cases x <;> decide

theorem mem_ofLoop {x : Exit} {e : Exits} {forever : Bool} :
    x ∈ ofLoop e forever ↔
      (x = .normal ∧ (forever = false ∨ .breaks ∈ e)) ∨ (x = .returns ∧ .returns ∈ e) := by
  cases x <;> simp [mem_iff, has, ofLoop]

end Exits

/-! ### Runs -/

mutual

/-- `Ends s x`: some finite run of the statement `s` leaves it in the way `x`. -/
inductive Ends : Stmt → Exit → Prop
  | declare (d : VarDecl) : Ends (.declare d) .normal
  | assign (o : Origin) (target value : Expr) : Ends (.assign o target value) .normal
  | expr (o : Origin) (e : Expr) : Ends (.expr o e) .normal
  | pass (o : Origin) : Ends (.pass o) .normal
  | ret (o : Origin) (value : Option Expr) : Ends (.ret o value) .returns
  | brk (o : Origin) : Ends (.brk o) .breaks
  | cont (o : Origin) : Ends (.cont o) .continues
  /-- A conditional runs its first branch, -/
  | first {o : Origin} {c : Expr} {body : List Stmt} {more : List Branch}
      {otherwise : Option (List Stmt)}
      {x : Exit} (h : EndsAll body x) : Ends (.cond o c body more otherwise) x
  /-- or one of the further branches, -/
  | further {o : Origin} {c : Expr} {body : List Stmt} {more : List Branch}
      {otherwise : Option (List Stmt)} {b : Branch} {x : Exit} (hb : b ∈ more)
      (h : EndsAll b.body x) :
      Ends (.cond o c body more otherwise) x
  /-- or its default branch, -/
  | otherwise {o : Origin} {c : Expr} {body last : List Stmt} {more : List Branch} {x : Exit}
      (h : EndsAll last x) : Ends (.cond o c body more (some last)) x
  /-- or nothing when it has no default branch. -/
  | noBranch (o : Origin) (c : Expr) (body : List Stmt) (more : List Branch) :
      Ends (.cond o c body more none) .normal
  /-- A match runs one of its arms, -/
  | arm {o : Origin} {e : Expr} {arms : List Case} {otherwise : Option (List Stmt)} {a : Case}
      {x : Exit} (ha : a ∈ arms) (h : EndsAll a.body x) : Ends (.select o e arms otherwise) x
  /-- or its default, -/
  | default {o : Origin} {e : Expr} {arms : List Case} {last : List Stmt} {x : Exit}
      (h : EndsAll last x) : Ends (.select o e arms (some last)) x
  /-- or nothing when it has no default. -/
  | noArm (o : Origin) (e : Expr) (arms : List Case) : Ends (.select o e arms none) .normal
  | loopNever {o : Origin} {c : Expr} {body : List Stmt} (hc : c.constant = .bool false) :
      Ends (.loop o c body) .normal
  | loopForever {o : Origin} {c : Expr} {body : List Stmt} {x : Exit} (hc : c.constant = .bool true)
      (h : Rounds true body x) : Ends (.loop o c body) x
  | loop {o : Origin} {c : Expr} {body : List Stmt} {x : Exit} (hc : ∀ b, c.constant ≠ .bool b)
      (h : Rounds false body x) : Ends (.loop o c body) x
  | iterate {o : Origin} {name : String} {e : Expr} {body : List Stmt} {x : Exit}
      (h : Rounds false body x) : Ends (.iterate o name e body) x
  | block {o : Origin} {body : List Stmt} {x : Exit} (h : EndsAll body x) : Ends (.block o body) x

/-- `EndsAll body x`: some finite run of the statements in turn leaves them in the way `x`. -/
inductive EndsAll : List Stmt → Exit → Prop
  | nil : EndsAll [] .normal
  | next {s : Stmt} {rest : List Stmt} {x : Exit} (hs : Ends s .normal) (h : EndsAll rest x) :
      EndsAll (s :: rest) x
  | stop {s : Stmt} {rest : List Stmt} {x : Exit} (hs : Ends s x) (hx : x ≠ .normal) :
      EndsAll (s :: rest) x

/-- `Rounds forever body x`: finitely many rounds of a loop leave the loop in the way `x`. -/
inductive Rounds : Bool → List Stmt → Exit → Prop
  /-- A loop that does not run forever may end before any round. -/
  | done (body : List Stmt) : Rounds false body .normal
  /-- A round that comes to its end, or is cut short by a continue, is followed by others. -/
  | again {forever : Bool} {body : List Stmt} {x y : Exit} (hy : EndsAll body y)
      (hg : y = .normal ∨ y = .continues) (h : Rounds forever body x) : Rounds forever body x
  /-- A break ends the loop and nothing else. -/
  | broken {forever : Bool} {body : List Stmt} (h : EndsAll body .breaks) :
      Rounds forever body .normal
  | returned {forever : Bool} {body : List Stmt} (h : EndsAll body .returns) :
      Rounds forever body .returns

end

/-! ### Loops -/

-- The recursion is on the run: every round but the last is dropped.
theorem rounds_mem {e : Exits} {forever : Bool} {body : List Stmt}
    (he : ∀ x, x ∈ e ↔ EndsAll body x)
    {x : Exit} : Rounds forever body x → x ∈ Exits.ofLoop e forever
  | .done _ => by simp [Exits.mem_ofLoop]
  | .again _ _ h => rounds_mem he h
  | .broken h => by simp [Exits.mem_ofLoop, (he .breaks).mpr h]
  | .returned h => by simp [Exits.mem_ofLoop, (he .returns).mpr h]

/-- **The ways out of a loop are those its rounds take**, when those of its body are known. -/
theorem rounds_iff {e : Exits} {forever : Bool} {body : List Stmt}
    (he : ∀ x, x ∈ e ↔ EndsAll body x)
    (x : Exit) : x ∈ Exits.ofLoop e forever ↔ Rounds forever body x := by
  refine ⟨fun h => ?_, rounds_mem he⟩
  rcases Exits.mem_ofLoop.mp h with ⟨rfl, rfl | hb⟩ | ⟨rfl, hr⟩
  · exact .done body
  · exact .broken ((he _).mp hb)
  · exact .returned ((he _).mp hr)

/-! ### Runs of compound statements

One equivalence for each statement that holds others: it says which runs of the parts make up a run
of the whole.  The analysis is compared with these and not with the rules.
-/

/-- The runs of a default branch; without one there is nothing to run. -/
def EndsDefault (x : Exit) : Option (List Stmt) → Prop
  | none => x = .normal
  | some last => EndsAll last x

theorem ends_cond_iff {o : Origin} {c : Expr} {body : List Stmt} {more : List Branch}
    {otherwise : Option (List Stmt)} {x : Exit} :
    Ends (.cond o c body more otherwise) x ↔
      (EndsAll body x ∨ ∃ b ∈ more, EndsAll b.body x) ∨ EndsDefault x otherwise := by
  constructor
  · intro h
    cases h with
    | first h => exact .inl (.inl h)
    | further hb h => exact .inl (.inr ⟨_, hb, h⟩)
    | otherwise h => exact .inr h
    | noBranch => exact .inr rfl
  · rintro ((h | ⟨b, hb, h⟩) | h)
    · exact .first h
    · exact .further hb h
    · cases otherwise with
      | none =>
        subst h
        exact .noBranch o c body more
      | some last => exact .otherwise h

theorem ends_select_iff {o : Origin} {e : Expr} {arms : List Case} {otherwise : Option (List Stmt)}
    {x : Exit} :
    Ends (.select o e arms otherwise) x ↔ (∃ a ∈ arms, EndsAll a.body x) ∨
      EndsDefault x otherwise := by
  constructor
  · intro h
    cases h with
    | arm ha h => exact .inl ⟨_, ha, h⟩
    | default h => exact .inr h
    | noArm => exact .inr rfl
  · rintro (⟨a, ha, h⟩ | h)
    · exact .arm ha h
    · cases otherwise with
      | none =>
        subst h
        exact .noArm o e arms
      | some last => exact .default h

theorem ends_never_iff {o : Origin} {c : Expr} {body : List Stmt} {x : Exit}
    (hc : c.constant = .bool false) : Ends (.loop o c body) x ↔ x = .normal := by
  constructor
  · intro h
    cases h with
    | loopNever => rfl
    | loopForever hc' => simp [hc] at hc'
    | loop hc' => exact absurd hc (hc' false)
  · rintro rfl
    exact .loopNever hc

theorem ends_loop_iff {o : Origin} {c : Expr} {body : List Stmt} {x : Exit}
    (hc : c.constant ≠ .bool false) :
    Ends (.loop o c body) x ↔ Rounds (Reach.constantCondition? c == some true) body x := by
  unfold Reach.constantCondition?
  constructor
  · intro h
    cases h with
    | loopNever hc' => exact absurd hc' hc
    | loopForever hc' h => simpa [hc'] using h
    | loop hc' h =>
      split
      · rename_i b hb
        exact absurd hb (hc' b)
      · exact h
  · intro h
    split at h
    · rename_i b hb
      cases b with
      | false => exact absurd hb hc
      | true => exact .loopForever hb h
    · rename_i hb
      exact .loop hb h

theorem ends_iterate_iff {o : Origin} {name : String} {e : Expr} {body : List Stmt} {x : Exit} :
    Ends (.iterate o name e body) x ↔ Rounds false body x := by
  constructor
  · intro h
    cases h with
    | iterate h => exact h
  · exact .iterate

theorem endsAll_cons_iff {s : Stmt} {rest : List Stmt} {x : Exit} :
    EndsAll (s :: rest) x ↔ (Ends s x ∧ x ≠ .normal) ∨ (Ends s .normal ∧ EndsAll rest x) := by
  constructor
  · intro h
    cases h with
    | next hs h => exact .inr ⟨hs, h⟩
    | stop hs hx => exact .inl ⟨hs, hx⟩
  · rintro (⟨hs, hx⟩ | ⟨hs, h⟩)
    · exact .stop hs hx
    · exact .next hs h

end TreeTyping
