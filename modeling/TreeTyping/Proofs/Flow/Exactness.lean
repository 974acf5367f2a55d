/-
The ways out of a statement are exactly the ways its runs take.

Both directions are proved at once, by induction on the statement: a set of ways out that is exact
for the parts of a statement is exact for the whole.  Whatever the analysis leaves out, the
statements behind the end of a sequence and the body of a loop that never runs, no run gets to
either.

The analysis stops at a value that is no statement.  It answers for every statement that holds none,
and wherever it answers the answer is exact.
-/
import TreeTyping.Proofs.Flow.Execution

namespace TreeTyping.Reach

open List Logged

variable {warn : Bool}

theorem constantCondition?_eq_some {c : Expr} {b : Bool} :
    constantCondition? c = some b ↔ c.constant = .bool b := by
  unfold constantCondition?
  split
  · rename_i b' hb
    simp [hb]
  · rename_i hb
    simp only [reduceCtorEq, false_iff]
    exact hb b

/-! ### Analyses that are exact and answer -/

/-- An analysis finds exactly the ways out that there are, and answers on what is proper. -/
structure Tells (r : Reach Exits) (ways : Exit → Prop) (proper : Prop) : Prop where
  exact : ∀ {e : Exits}, r.result = .ok e → ∀ x, x ∈ e ↔ ways x
  answers : proper → ∃ e, r.result = .ok e

namespace Tells

variable {r : Reach Exits} {first ways : Exit → Prop} {proper proper' : Prop}

theorem pure {e : Exits} (h : ∀ x, x ∈ e ↔ ways x) : Tells (Pure.pure e) ways proper := by
  refine ⟨fun he => ?_, fun _ => ⟨e, rfl⟩⟩
  cases he
  exact h

theorem fail {f : Fault} (h : ¬proper) : Tells (Logged.fail f) ways proper := by
  refine ⟨fun he => ?_, fun hp => absurd hp h⟩
  cases he

theorem bind {f : Exits → Reach Exits} (hr : Tells r first proper)
    (hf : ∀ e, (∀ x, x ∈ e ↔ first x) → Tells (f e) ways proper) : Tells (r >>= f) ways proper := by
  refine ⟨fun he => ?_, fun hp => ?_⟩
  · obtain ⟨a, ha, he⟩ := bind_result_eq_ok.1 he
    exact (hf a (hr.exact ha)).exact he
  · obtain ⟨a, ha⟩ := hr.answers hp
    obtain ⟨e, he⟩ := (hf a (hr.exact ha)).answers hp
    exact ⟨e, bind_result_eq_ok.2 ⟨a, ha, he⟩⟩

theorem mono (h : Tells r ways proper) (hp : proper' → proper) : Tells r ways proper' :=
  ⟨h.exact, fun hp' => h.answers (hp hp')⟩

end Tells

theorem span_of_isProper {s : Stmt} (h : s.isProper = true) : ∃ span, s.span? = some span := by
  cases s with
  | foreign | unreadable => cases h
  | _ => exact ⟨_, rfl⟩

theorem unreached_ok {body : List Stmt} (h : Stmt.AllProper body) :
    (unreached warn body).result = .ok () := by
  cases body with
  | nil => rfl
  | cons s rest =>
    rw [unreached]
    split
    · obtain ⟨span, hspan⟩ := span_of_isProper (h.head _ s (.self s))
      rw [hspan]
      rfl
    · rfl

theorem Tells.unreached {body : List Stmt} {e : Exits} {ways : Exit → Prop}
    (h : ∀ x, x ∈ e ↔ ways x) :
    Tells (Reach.unreached warn body >>= fun _ => Pure.pure e) ways (Stmt.AllProper body) := by
  refine ⟨fun he => ?_, fun hp => ⟨e, bind_result_eq_ok.2 ⟨(), unreached_ok hp, rfl⟩⟩⟩
  obtain ⟨_, _, he⟩ := bind_result_eq_ok.1 he
  cases he
  exact h

/-! ### From the statements of a block to the block -/

/-- The ways out of any of the blocks that several parts hold. -/
def ofBlocks {α : Type} (warn : Bool) (body : α → List Stmt) : List α → Reach Exits
  | [] => pure {}
  | a :: rest => do
    let e ← ofSequence warn (body a)
    return e.union (← ofBlocks warn body rest)

theorem ofBranches_eq (more : List Branch) :
    ofBranches warn more = ofBlocks warn Branch.body more := by
  induction more with
  | nil => rw [ofBranches]; rfl
  | cons b rest ih =>
    obtain ⟨c, body⟩ := b
    rw [ofBranches, ih]
    rfl

theorem ofCases_eq (arms : List Case) : ofCases warn arms = ofBlocks warn Case.body arms := by
  induction arms with
  | nil => rw [ofCases]; rfl
  | cons a rest ih =>
    obtain ⟨values, body⟩ := a
    rw [ofCases, ih]
    rfl

/-- The analysis tells the ways out of a statement. -/
def Told (warn : Bool) (s : Stmt) : Prop := Tells (ofStmt warn s) (Ends s) s.Proper

theorem ofSequence_tells {body : List Stmt} (h : ∀ s ∈ body, Told warn s) :
    Tells (ofSequence warn body) (EndsAll body) (Stmt.AllProper body) := by
  induction body with
  | nil =>
    rw [ofSequence]
    refine .pure fun x => Exits.mem_onward.trans ⟨fun hx => hx ▸ .nil, fun hx => ?_⟩
    cases hx
    rfl
  | cons s rest ih =>
    obtain ⟨hs, hrest⟩ := forall_mem_cons.1 h
    rw [ofSequence]
    refine (hs.mono Stmt.AllProper.head).bind fun first hfirst => ?_
    split
    · rename_i hn
      have hnormal : Exit.normal ∈ first := hn
      refine ((ih hrest).mono Stmt.AllProper.tail).bind fun others hothers => .pure fun x => ?_
      rw [endsAll_cons_iff, ← hfirst x, ← hfirst .normal, Exits.mem_union, Exits.mem_withoutNormal,
        hothers x]
      simp [hnormal]
    · rename_i hn
      have hnormal : Exit.normal ∉ first := hn
      refine (Tells.unreached fun x => ?_).mono Stmt.AllProper.tail
      rw [endsAll_cons_iff, ← hfirst x, ← hfirst .normal]
      -- Control never goes on behind `s`, so only its own ways out are left.
      refine ⟨fun hx => .inl ⟨hx, ?_⟩, ?_⟩
      · rintro rfl
        exact hnormal hx
      · rintro (⟨hx, _⟩ | ⟨hx, _⟩)
        · exact hx
        · exact absurd hx hnormal

theorem ofOptional_tells {otherwise : Option (List Stmt)}
    (h : ∀ last, otherwise = some last → ∀ s ∈ last, Told warn s) :
    Tells (ofOptional warn otherwise) (EndsDefault · otherwise)
      (∀ last, otherwise = some last → Stmt.AllProper last) := by
  cases otherwise with
  | none =>
    rw [ofOptional]
    exact .pure fun _ => Exits.mem_onward
  | some last =>
    rw [ofOptional]
    exact (ofSequence_tells (h last rfl)).mono fun hp => hp last rfl

theorem ofBlocks_tells {α : Type} {body : α → List Stmt} {parts : List α}
    (h : ∀ a ∈ parts, ∀ s ∈ body a, Told warn s) :
    Tells (ofBlocks warn body parts) (fun x => ∃ a ∈ parts, EndsAll (body a) x)
      (∀ a ∈ parts, Stmt.AllProper (body a)) := by
  induction parts with
  | nil => exact .pure fun x => by simp
  | cons a rest ih =>
    obtain ⟨ha, hrest⟩ := forall_mem_cons.1 h
    refine ((ofSequence_tells ha).mono fun hp => hp a mem_cons_self).bind fun first hfirst => ?_
    refine ((ih hrest).mono fun hp b hb => hp b (mem_cons_of_mem _ hb)).bind
      fun others hothers => ?_
    refine .pure fun x => ?_
    rw [Exits.mem_union, hfirst x, hothers x]
    simp

/-! ### Every statement -/

theorem ofStmt_tells (s : Stmt) : Told warn s := by
  induction s using Stmt.byForm with
  | declare | assign | expr | pass =>
    rw [Told, ofStmt]
    refine .pure fun x => Exits.mem_onward.trans ⟨?_, fun hx => ?_⟩
    · rintro rfl
      constructor
    · cases hx
      rfl
  | ret =>
    rw [Told, ofStmt]
    refine .pure fun x => Exits.mem_returns.trans ⟨fun hx => hx ▸ .ret _ _, fun hx => ?_⟩
    cases hx
    rfl
  | brk =>
    rw [Told, ofStmt]
    refine .pure fun x => Exits.mem_breaks.trans ⟨fun hx => hx ▸ .brk _, fun hx => ?_⟩
    cases hx
    rfl
  | cont =>
    rw [Told, ofStmt]
    refine .pure fun x => Exits.mem_continues.trans ⟨fun hx => hx ▸ .cont _, fun hx => ?_⟩
    cases hx
    rfl
  | panic =>
    rw [Told, ofStmt]
    exact .pure fun x => iff_of_false (Exits.not_mem_none x) (by rintro ⟨⟩)
  | cond o c body more otherwise hbody hmore hlast =>
    rw [Told, ofStmt, ofBranches_eq]
    refine ((ofSequence_tells hbody).mono fun hp => ?_).bind fun first hfirst =>
      ((ofBlocks_tells hmore).mono fun hp b hb => ?_).bind fun others hothers =>
      ((ofOptional_tells hlast).mono fun hp last hlast => ?_).bind fun last hlast =>
        .pure fun x => ?_
    · exact hp.block (Stmt.mem_blocks_cond.2 ⟨rfl, .inl rfl⟩)
    · exact hp.block (Stmt.mem_blocks_cond.2 ⟨rfl, .inr (.inl ⟨b, hb, rfl⟩)⟩)
    · exact hp.block (Stmt.mem_blocks_cond.2 ⟨rfl, .inr (.inr hlast)⟩)
    · rw [Exits.mem_union, Exits.mem_union, ends_cond_iff, hfirst x, hothers x, hlast x]
  | select o v arms otherwise harms hlast =>
    rw [Told, ofStmt, ofCases_eq]
    refine ((ofBlocks_tells harms).mono fun hp a ha => ?_).bind fun first hfirst =>
      ((ofOptional_tells hlast).mono fun hp last hlast => ?_).bind fun last hlast =>
        .pure fun x => ?_
    · exact hp.block (Stmt.mem_blocks_select.2 ⟨rfl, .inl ⟨a, ha, rfl⟩⟩)
    · exact hp.block (Stmt.mem_blocks_select.2 ⟨rfl, .inr hlast⟩)
    · rw [Exits.mem_union, ends_select_iff, hfirst x, hlast x]
  | loop o c body hbody =>
    rw [Told, ofStmt]
    split
    · rename_i hc
      refine (Tells.unreached fun x => ?_).mono fun hp => hp.block mem_cons_self
      rw [Exits.mem_onward, ends_never_iff (constantCondition?_eq_some.1 hc)]
    · rename_i hc
      refine ((ofSequence_tells hbody).mono fun hp => hp.block mem_cons_self).bind
        fun inner hinner =>
        .pure fun x => ?_
      rw [ends_loop_iff (fun h => hc (constantCondition?_eq_some.2 h)), rounds_iff hinner]
  | iterate o name v body hbody =>
    rw [Told, ofStmt]
    refine ((ofSequence_tells hbody).mono fun hp => hp.block mem_cons_self).bind fun inner hinner =>
      .pure fun x => ?_
    rw [ends_iterate_iff, rounds_iff hinner]
  | block o body hbody =>
    rw [Told, ofStmt]
    have h := (ofSequence_tells hbody).mono fun hp : (Stmt.block o body).Proper =>
      hp.block mem_cons_self
    refine ⟨fun he x => (h.exact he x).trans ⟨.block, fun hx => ?_⟩, h.answers⟩
    cases hx with
    | block hx => exact hx
  | foreign | unreadable =>
    rw [Told, ofStmt]
    exact .fail fun hp => absurd (hp _ _ (.self _)) (by simp [Stmt.isProper])

theorem ofStmt_exact {s : Stmt} {e : Exits} (h : (ofStmt warn s).result = .ok e) (x : Exit) :
    x ∈ e ↔ Ends s x :=
  (ofStmt_tells s).exact h x

theorem ofStmt_answers {s : Stmt} (h : s.Proper) : ∃ e, (ofStmt warn s).result = .ok e :=
  (ofStmt_tells s).answers h

theorem ofSequence_exact {body : List Stmt} {e : Exits} (h : (ofSequence warn body).result = .ok e)
    (x : Exit) : x ∈ e ↔ EndsAll body x :=
  (ofSequence_tells fun s _ => ofStmt_tells s).exact h x

theorem ofSequence_answers {body : List Stmt} (h : Stmt.AllProper body) :
    ∃ e, (ofSequence warn body).result = .ok e :=
  (ofSequence_tells fun s _ => ofStmt_tells s).answers h

/--
**The ways out of a statement, and of a block, are exactly the ways their runs take.**  Whenever the
analysis answers, a way out is in its answer if and only if some finite run leaves in that way; and
it answers whenever nothing but statements proper is to be looked at.
-/
theorem exits_eq_outcomes (warn : Bool) :
    (∀ (s : Stmt) (e : Exits), (ofStmt warn s).result = .ok e → ∀ x, x ∈ e ↔ Ends s x) ∧
    (∀ (body : List Stmt) (e : Exits), (ofSequence warn body).result = .ok e →
      ∀ x, x ∈ e ↔ EndsAll body x) ∧
    (∀ s : Stmt, s.Proper → ∃ e, (ofStmt warn s).result = .ok e) ∧
    (∀ body : List Stmt, Stmt.AllProper body → ∃ e, (ofSequence warn body).result = .ok e) :=
  ⟨fun _ _ => ofStmt_exact, fun _ _ => ofSequence_exact, fun _ => ofStmt_answers,
    fun _ => ofSequence_answers⟩

/-- A loop on the constant true, which breaks, returns from a loop inside, or goes round again. -/
def endlessLoop : Stmt :=
  let o : Origin := ⟨.root 0, .nowhere⟩
  let flag : Expr := .identifier o "flag"
  .loop o (.literal o (.bool true) (some .bool))
    [.cond o flag [.brk o] [.mk flag [.panic o none]]
      (some [.iterate o "x" flag [.ret o (some flag), .brk o], .cont o]),
     .pass o]

/-- The statement behind the conditional is never reached; the loop ends by break or return. -/
theorem endlessLoop_outcomes :
    endlessLoop.Proper ∧ (ofStmt true endlessLoop).result = .ok
      { normal := true, returns := true } ∧
    (∃ e, (ofStmt true endlessLoop).result = .ok e) ∧
    (∃ e, (ofSequence true [endlessLoop]).result = .ok e) ∧
    (∀ x, Ends endlessLoop x ↔ x = .normal ∨ x = .returns) ∧
    (∀ x, EndsAll [endlessLoop] x ↔ x = .normal ∨ x = .returns) := by
  have hproper : endlessLoop.Proper := by
    simp [endlessLoop, Stmt.proper_iff, Stmt.allProper_cons, Stmt.allProper_nil, Stmt.isProper,
      Stmt.blocks, Branch.body]
  have hstmt : (ofStmt true endlessLoop).result = .ok { normal := true, returns := true } := rfl
  have hbody : (ofSequence true [endlessLoop]).result = .ok { normal := true, returns := true } :=
    rfl
  obtain ⟨hexact, hexactAll, hanswers, hanswersAll⟩ := exits_eq_outcomes true
  refine ⟨hproper, hstmt, hanswers _ hproper, hanswersAll _ ?_, fun x => ?_, fun x => ?_⟩
  · exact Stmt.allProper_cons.2 ⟨hproper, Stmt.allProper_nil⟩
  · rw [← hexact _ _ hstmt x]
    cases x <;> decide
  · rw [← hexactAll _ _ hbody x]
    cases x <;> decide

end TreeTyping.Reach
