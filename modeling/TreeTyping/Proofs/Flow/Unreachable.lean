/-
The statements that are warned about are where the parts that no run gets to begin.

A statement is told from its copies by the place where it stands, so all is said about places: a
place in a statement is the number of one of its blocks, the number of a statement in that block,
and so on inward.  Which places runs start is described on its own, with the runs of `Ends` for what
has to be over before.

  * A place begins an unreached part when no run starts it, although some run starts the statement
    right before it in its block, or the loop whose body it begins and whose condition is
    constantly false.
  * The analysis writes down the statements at just these places, each once.
  * Every place that no run starts is one of them, stands behind one in its block, or is inside
    such a statement.

The analysis goes through the blocks of a statement in order and through a block up to the first
statement that control does not go on behind.  The places are put together in the same way, so the
lists of the parts are joined and never searched.
-/
import Mathlib.Data.List.Forall2
import Mathlib.Data.List.Nodup
import TreeTyping.Flow.Body
import TreeTyping.Proofs.Flow.Exactness

namespace TreeTyping

open List

/-- A place in a statement: a block of it, a statement of the block, and a place in that. -/
abbrev Route := List (Nat × Nat)

namespace Stmt

/-- The statement at a place. -/
def at? (s : Stmt) : Route → Option Stmt
  | [] => some s
  | (b, i) :: rest => s.blocks[b]?.bind fun block => block.2[i]?.bind fun a => a.at? rest

/-- Whether a statement is a loop whose body never runs. -/
def Skips : Stmt → Prop
  | .loop _ c _ => c.constant = .bool false
  | _ => False

theorem loop_of_blocks {s : Stmt} {b : Nat} {body : List Stmt}
    (h : s.blocks[b]? = some (true, body)) :
    b = 0 ∧ ((∃ o c, s = .loop o c body) ∨ ∃ o name e, s = .iterate o name e body) := by
  have hb : (true, body) ∈ s.blocks := mem_of_getElem? h
  cases s with
  | loop | iterate =>
    rw [blocks, getElem?_singleton] at h
    split at h
    · simp_all
    · simp at h
  | cond => simp [mem_blocks_cond] at hb
  | select => simp [mem_blocks_select] at hb
  | block => simp [blocks] at hb
  | _ => cases hb

end Stmt

/-! ### What runs start -/

mutual

/-- `Starts s route`: some run of the statement `s` starts the statement at `route`. -/
inductive Starts : Stmt → Route → Prop
  | self (s : Stmt) : Starts s []
  /-- A block that is no loop body may be run at once, -/
  | branch {s : Stmt} {b i : Nat} {body : List Stmt} {rest : Route}
      (hb : s.blocks[b]? = some (false, body))
      (h : StartsIn body i rest) : Starts s ((b, i) :: rest)
  /-- the body of a loop unless its condition is constantly false, -/
  | loop {o : Origin} {c : Expr} {body : List Stmt} {i : Nat} {rest : Route}
      (hc : c.constant ≠ .bool false)
      (h : StartsRound body i rest) : Starts (.loop o c body) ((0, i) :: rest)
  /-- and the body of an iteration for any number of rounds. -/
  | iterate {o : Origin} {name : String} {e : Expr} {body : List Stmt} {i : Nat} {rest : Route}
      (h : StartsRound body i rest) : Starts (.iterate o name e body) ((0, i) :: rest)

/-- `StartsIn body i rest`: some run of the statements starts that at `rest` in number `i`. -/
inductive StartsIn : List Stmt → Nat → Route → Prop
  | here {s : Stmt} {tail : List Stmt} {rest : Route} (h : Starts s rest) :
      StartsIn (s :: tail) 0 rest
  | later {s : Stmt} {tail : List Stmt} {i : Nat} {rest : Route} (hs : Ends s .normal)
      (h : StartsIn tail i rest) : StartsIn (s :: tail) (i + 1) rest

/-- `StartsRound body i rest`: some round of a loop starts what is at `rest` in number `i`. -/
inductive StartsRound : List Stmt → Nat → Route → Prop
  | this {body : List Stmt} {i : Nat} {rest : Route} (h : StartsIn body i rest) :
      StartsRound body i rest
  /-- Another round comes behind one that comes to its end or is cut short by a continue. -/
  | after {body : List Stmt} {i : Nat} {rest : Route} {y : Exit} (hy : EndsAll body y)
      (hg : y = .normal ∨ y = .continues) (h : StartsRound body i rest) : StartsRound body i rest

end

/-- The place `q` is right behind `p` in its block, or first in the loop at `p` that never runs. -/
inductive Borders (s : Stmt) : Route → Route → Prop
  | next (up : Route) (b i : Nat) : Borders s (up ++ [(b, i)]) (up ++ [(b, i + 1)])
  | inward (up : Route) {o : Origin} {c : Expr} {body : List Stmt}
      (h : s.at? up = some (.loop o c body))
      (hc : c.constant = .bool false) : Borders s up (up ++ [(0, 0)])

/--
An unreached part begins at `q`: there is a statement there that no run starts, and some run starts
what leads to it.
-/
def Heads (s : Stmt) (q : Route) : Prop :=
  (s.at? q).isSome ∧ ¬ Starts s q ∧ ∃ p, Borders s p q ∧ Starts s p

/-! ### Starting, block by block -/

/-- Control may get to the statement number `i`: all before it can be gone on behind. -/
def Reached (body : List Stmt) (i : Nat) : Prop := ∀ s ∈ body.take i, Ends s .normal

@[simp] theorem reached_zero (body : List Stmt) : Reached body 0 := by simp [Reached]

@[simp] theorem reached_cons {s : Stmt} {tail : List Stmt} {i : Nat} :
    Reached (s :: tail) (i + 1) ↔ Ends s .normal ∧ Reached tail i := by
  simp [Reached]

/-- Where control does not get to a statement, there is a last one it gets to before it. -/
theorem exists_last_reached {body : List Stmt} {i : Nat} (h : ¬ Reached body i) :
    ∃ j < i, Reached body j ∧ ¬ Reached body (j + 1) := by
  induction i with
  | zero => exact absurd (reached_zero body) h
  | succ i ih =>
    by_cases hi : Reached body i
    · exact ⟨i, Nat.lt_succ_self i, hi, h⟩
    · obtain ⟨j, hj, hlast⟩ := ih hi
      exact ⟨j, by omega, hlast⟩

theorem startsIn_iff {body : List Stmt} {i : Nat} {rest : Route} :
    StartsIn body i rest ↔ Reached body i ∧ ∃ a, body[i]? = some a ∧ Starts a rest := by
  induction body generalizing i with
  | nil =>
    simp only [getElem?_nil, reduceCtorEq, false_and, exists_false, and_false, iff_false]
    intro h
    cases h
  | cons s tail ih =>
    cases i with
    | zero =>
      simp only [reached_zero, true_and, getElem?_cons_zero, Option.some.injEq, exists_eq_left']
      exact ⟨fun h => by cases h with | here h => exact h, .here⟩
    | succ i =>
      rw [reached_cons, getElem?_cons_succ, and_assoc, ← ih]
      exact ⟨fun h => by cases h with | later hs h => exact ⟨hs, h⟩, fun h => .later h.1 h.2⟩

-- The recursion is on the run: what the last round starts, the first could have started.
theorem StartsRound.startsIn {body : List Stmt} {i : Nat} {rest : Route} :
    StartsRound body i rest → StartsIn body i rest
  | .this h => h
  | .after _ _ h => h.startsIn

/-- What is started in the blocks: nothing in a loop that never runs, else what each starts. -/
theorem starts_cons_iff {s : Stmt} {b i : Nat} {rest : Route} :
    Starts s ((b, i) :: rest) ↔
      ¬ s.Skips ∧ ∃ block, s.blocks[b]? = some block ∧ StartsIn block.2 i rest := by
  constructor
  · intro h
    cases h with
    | branch hb h =>
      refine ⟨fun hs => ?_, _, hb, h⟩
      cases s with
      | loop => simpa [Stmt.blocks] using mem_of_getElem? hb
      | _ => exact hs
    | loop hc h => exact ⟨hc, _, rfl, h.startsIn⟩
    | iterate h => exact ⟨id, _, rfl, h.startsIn⟩
  · rintro ⟨hs, ⟨l, body⟩, hb, h⟩
    cases l with
    | false => exact .branch hb h
    | true =>
      obtain ⟨rfl, ⟨o, c, rfl⟩ | ⟨o, name, e, rfl⟩⟩ := Stmt.loop_of_blocks hb
      · exact .loop hs (.this h)
      · exact .iterate (.this h)

/-! ### Where unreached parts begin, block by block -/

theorem Stmt.Skips.eq_loop {s : Stmt} (h : s.Skips) :
    ∃ o c body, s = .loop o c body ∧ c.constant = .bool false := by
  cases s with
  | loop o c body => exact ⟨o, c, body, rfl, h⟩
  | _ => cases h

theorem heads_nil (s : Stmt) : ¬ Heads s [] := by
  rintro ⟨-, hnot, -⟩
  exact hnot (.self s)

/-- In a loop that never runs, the unreached part begins with its body. -/
theorem heads_of_skips {s : Stmt} (hs : s.Skips) (q : Route) :
    Heads s q ↔ q = [(0, 0)] ∧ (s.at? q).isSome := by
  have honly {p : Route} (hp : Starts s p) : p = [] := by
    cases p with
    | nil => rfl
    | cons x rest => exact absurd hs (starts_cons_iff.1 hp).1
  constructor
  · rintro ⟨hsome, -, p, hborder, hp⟩
    obtain rfl := honly hp
    refine ⟨?_, hsome⟩
    generalize hnil : ([] : Route) = p at hborder
    cases hborder with
    | next up b i => simp at hnil
    | inward up => rw [← hnil, nil_append]
  · rintro ⟨rfl, hsome⟩
    obtain ⟨o, c, body, rfl, hc⟩ := hs.eq_loop
    refine ⟨hsome, fun h => by simpa using honly h, [], ?_, .self _⟩
    exact .inward [] rfl hc

section

variable {s a : Stmt} {b i : Nat} {block : Bool × List Stmt} {p rest : Route}

theorem Stmt.at?_cons (hb : s.blocks[b]? = some block) (ha : block.2[i]? = some a) :
    s.at? ((b, i) :: rest) = a.at? rest := by
  simp [Stmt.at?, hb, ha]

theorem Stmt.exists_of_at?_isSome (h : (s.at? ((b, i) :: rest)).isSome) :
    ∃ block a, s.blocks[b]? = some block ∧ block.2[i]? = some a ∧ (a.at? rest).isSome := by
  obtain ⟨found, hfound⟩ := Option.isSome_iff_exists.1 h
  obtain ⟨block, hb, hblock⟩ := Option.bind_eq_some_iff.1 hfound
  obtain ⟨a, ha, hfound⟩ := Option.bind_eq_some_iff.1 hblock
  exact ⟨block, a, hb, ha, Option.isSome_iff_exists.2 ⟨found, hfound⟩⟩

theorem starts_cons (hs : ¬ s.Skips) (hb : s.blocks[b]? = some block) (ha : block.2[i]? = some a) :
    Starts s ((b, i) :: rest) ↔ Reached block.2 i ∧ Starts a rest := by
  simp [starts_cons_iff, startsIn_iff, hs, hb, ha]

theorem borders_cons (hs : ¬ s.Skips) (hb : s.blocks[b]? = some block) (ha : block.2[i]? = some a) :
    Borders s p ((b, i) :: rest) ↔
      (rest = [] ∧ ∃ j, i = j + 1 ∧ p = [(b, j)]) ∨ ∃ inner, p = (b, i) :: inner ∧
      Borders a inner rest := by
  constructor
  · intro h
    generalize hq : (b, i) :: rest = q at h
    cases h with
    | next up b' j =>
      cases up with
      | nil =>
        obtain ⟨⟨rfl, rfl⟩, rfl⟩ : (b = b' ∧ i = j + 1) ∧ rest = [] := by simpa using hq
        exact .inl ⟨rfl, j, rfl, rfl⟩
      | cons x up =>
        obtain ⟨rfl, rfl⟩ : (b, i) = x ∧ rest = up ++ [(b', j + 1)] := by simpa using hq
        exact .inr ⟨_, rfl, .next up b' j⟩
    | inward up h hc =>
      cases p with
      | nil =>
        obtain rfl : s = _ := Option.some.inj h
        exact absurd hc hs
      | cons x up =>
        obtain ⟨rfl, rfl⟩ : (b, i) = x ∧ rest = up ++ [(0, 0)] := by simpa using hq
        rw [Stmt.at?_cons hb ha] at h
        exact .inr ⟨_, rfl, .inward up h hc⟩
  · rintro (⟨rfl, j, rfl, rfl⟩ | ⟨inner, rfl, h⟩)
    · exact .next [] b j
    · cases h with
      | next up b' j => exact .next ((b, i) :: up) b' j
      | inward inner h hc =>
        rw [← Stmt.at?_cons hb ha] at h
        exact .inward ((b, i) :: inner) h hc

/--
In a block that may run, an unreached part begins behind the last statement that control gets to, or
inside one that control gets to.
-/
theorem heads_cons (hs : ¬ s.Skips) (hb : s.blocks[b]? = some block) (ha : block.2[i]? = some a) :
    Heads s ((b, i) :: rest) ↔
      (rest = [] ∧ (∃ j, i = j + 1 ∧ Reached block.2 j) ∧ ¬ Reached block.2 i) ∨
        (Reached block.2 i ∧ Heads a rest) := by
  have hstarts {q : Route} : Starts s ((b, i) :: q) ↔ Reached block.2 i ∧ Starts a q :=
    starts_cons hs hb ha
  have hbefore {j : Nat} (hj : i = j + 1) : Starts s [(b, j)] ↔ Reached block.2 j := by
    subst hj
    have hlt : j < block.2.length := by
      have := (List.getElem?_eq_some_iff.1 ha).1
      omega
    rw [starts_cons hs hb (getElem?_eq_getElem hlt)]
    exact ⟨fun h => h.1, fun h => ⟨h, .self _⟩⟩
  rw [Heads, Stmt.at?_cons hb ha, hstarts]
  constructor
  · rintro ⟨hsome, hnot, q, hborder, hq⟩
    rcases (borders_cons hs hb ha).1 hborder with ⟨rfl, j, hj, rfl⟩ | ⟨inner, rfl, hinside⟩
    · exact .inl ⟨rfl, ⟨j, hj, (hbefore hj).1 hq⟩, fun h => hnot ⟨h, .self a⟩⟩
    · obtain ⟨hreached, hinner⟩ := hstarts.1 hq
      exact .inr ⟨hreached, hsome, fun h => hnot ⟨hreached, h⟩, inner, hinside, hinner⟩
  · rintro (⟨rfl, ⟨j, hj, hreached⟩, hnot⟩ | ⟨hreached, hsome, hnot, inner, hborder, hinner⟩)
    · have hahead := (borders_cons hs hb ha).2 (.inl ⟨rfl, j, hj, rfl⟩)
      exact ⟨rfl, fun h => hnot h.1, [(b, j)], hahead, (hbefore hj).2 hreached⟩
    · have hinside := (borders_cons hs hb ha).2 (.inr ⟨inner, rfl, hborder⟩)
      exact ⟨hsome, fun h => hnot h.2, (b, i) :: inner, hinside, hstarts.2 ⟨hreached, hinner⟩⟩

end

/-! ### Lists of places -/

/-- The statement `a` is found at a place, and has a span to be reported. -/
def FoundAt {α : Type} (find : α → Option Stmt) (p : α) (a : Stmt) : Prop :=
  find p = some a ∧ ∃ span, a.span? = some span

/-- `Lists find P log`: the log holds the statements found at the places with `P`, each once. -/
def Lists {α : Type} (find : α → Option Stmt) (P : α → Prop) (log : List Stmt) : Prop :=
  ∃ places : List α, places.Nodup ∧ (∀ p, p ∈ places ↔ P p) ∧ List.Forall₂ (FoundAt find) places log

namespace Lists

variable {α β : Type} {find : β → Option Stmt} {P Q : β → Prop} {inner : α → Option Stmt}
  {A : α → Prop} {f : α → β} {log more : List Stmt}

theorem nil (h : ∀ p, ¬ P p) : Lists find P [] :=
  ⟨[], nodup_nil, by simpa using h, .nil⟩

theorem single {p : β} {a : Stmt} (hP : ∀ q, P q ↔ q = p) (ha : FoundAt find p a) :
    Lists find P [a] :=
  ⟨[p], nodup_singleton p, by simp [hP], .cons ha .nil⟩

theorem congr (h : Lists find P log) (hPQ : ∀ p, P p ↔ Q p) : Lists find Q log := by
  obtain ⟨places, hnodup, hmem, hlog⟩ := h
  exact ⟨places, hnodup, fun p => (hmem p).trans (hPQ p), hlog⟩

/-- Places may be named from further out. -/
theorem image (h : Lists inner A log) (hf : f.Injective) (hfind : ∀ p, find (f p) = inner p) :
    Lists find (fun q => ∃ p, A p ∧ f p = q) log := by
  obtain ⟨places, hnodup, hmem, hlog⟩ := h
  refine ⟨places.map f, List.Nodup.map hf hnodup, ?_, ?_⟩
  · intro q
    simp only [mem_map, hmem]
  · rw [forall₂_map_left_iff]
    refine hlog.imp fun p a hp => ?_
    exact ⟨(hfind p).trans hp.1, hp.2⟩

/-- Two lists of different places make one. -/
theorem append (h : Lists find P log) (h' : Lists find Q more) (hPQ : ∀ p, P p → ¬ Q p) :
    Lists find (fun p => P p ∨ Q p) (log ++ more) := by
  obtain ⟨places, hnodup, hmem, hlog⟩ := h
  obtain ⟨others, hnodup', hmem', hmore⟩ := h'
  refine ⟨places ++ others, ?_, ?_, ?_⟩
  · refine List.Nodup.append hnodup hnodup' ?_
    intro p hp hp'
    exact hPQ p ((hmem p).1 hp) ((hmem' p).1 hp')
  · intro p
    rw [mem_append, hmem, hmem']
  · exact rel_append hlog hmore

end Lists

/-! ### What the analysis writes down -/

namespace Reach

open Logged

theorem unreached_log {body : List Stmt} (h : (unreached true body).result = .ok ()) :
    (unreached true body).log = body.take 1 ∧ ∀ s ∈ body.take 1, ∃ span, s.span? = some span := by
  cases body with
  | nil => exact ⟨rfl, forall_mem_nil _⟩
  | cons s rest =>
    rw [unreached, if_pos rfl] at h ⊢
    cases hspan : s.span? with
    | none => simp [hspan] at h
    | some span => exact ⟨rfl, by simp [hspan]⟩

/-- The blocks of several parts are looked at in turn. -/
theorem ofBlocks_log {α : Type} {body : α → List Stmt} {parts : List α} {e : Exits}
    (h : (ofBlocks true body parts).result = .ok e) :
    (∀ a ∈ parts, ∃ e, (ofSequence true (body a)).result = .ok e) ∧
      (ofBlocks true body parts).log = parts.flatMap fun a => (ofSequence true (body a)).log := by
  induction parts generalizing e with
  | nil => exact ⟨forall_mem_nil _, rfl⟩
  | cons a rest ih =>
    simp only [ofBlocks, bind_result_eq_ok, result_pure, Except.ok.injEq] at h
    obtain ⟨first, hfirst, others, hothers, -⟩ := h
    obtain ⟨hrest, hlog⟩ := ih hothers
    refine ⟨forall_mem_cons.2 ⟨⟨first, hfirst⟩, hrest⟩, ?_⟩
    rw [ofBlocks, bind_of_ok hfirst, bind_of_ok hothers, hlog]
    simp

theorem ofOptional_log {otherwise : Option (List Stmt)} {e : Exits}
    (h : (ofOptional true otherwise).result = .ok e) :
    (∀ b ∈ otherwise, ∃ e, (ofSequence true b).result = .ok e) ∧
      (ofOptional true otherwise).log = otherwise.toList.flatMap fun b =>
      (ofSequence true b).log := by
  cases otherwise with
  | none => exact ⟨by simp, rfl⟩
  | some last =>
    rw [ofOptional] at h ⊢
    exact ⟨by simp [h], by simp⟩

/-- A statement writes down what its blocks do in turn, unless it is a loop that never runs. -/
theorem ofStmt_log {s : Stmt} {e : Exits} (hs : ¬ s.Skips) (h : (ofStmt true s).result = .ok e) :
    (∀ block ∈ s.blocks, ∃ e, (ofSequence true block.2).result = .ok e) ∧
      (ofStmt true s).log = s.blocks.flatMap fun block => (ofSequence true block.2).log := by
  cases s with
  | cond o c body more otherwise =>
    simp only [ofStmt, ofBranches_eq, bind_result_eq_ok, result_pure, Except.ok.injEq] at h
    obtain ⟨first, hfirst, others, hothers, last, hlast, -⟩ := h
    obtain ⟨hmore, hmoreLog⟩ := ofBlocks_log hothers
    obtain ⟨hdefault, hdefaultLog⟩ := ofOptional_log hlast
    constructor
    · rintro ⟨l, b⟩ hb
      rcases (Stmt.mem_blocks_cond.1 hb).2 with rfl | ⟨r, hr, rfl⟩ | hb
      · exact ⟨first, hfirst⟩
      · exact hmore r hr
      · exact hdefault b hb
    · rw [ofStmt, ofBranches_eq, bind_of_ok hfirst, bind_of_ok hothers, bind_of_ok hlast,
        hmoreLog, hdefaultLog]
      simp [Stmt.blocks, flatMap_map]
  | select o v arms otherwise =>
    simp only [ofStmt, ofCases_eq, bind_result_eq_ok, result_pure, Except.ok.injEq] at h
    obtain ⟨first, hfirst, last, hlast, -⟩ := h
    obtain ⟨harms, harmsLog⟩ := ofBlocks_log hfirst
    obtain ⟨hdefault, hdefaultLog⟩ := ofOptional_log hlast
    constructor
    · rintro ⟨l, b⟩ hb
      rcases (Stmt.mem_blocks_select.1 hb).2 with ⟨a, ha, rfl⟩ | hb
      · exact harms a ha
      · exact hdefault b hb
    · rw [ofStmt, ofCases_eq, bind_of_ok hfirst, bind_of_ok hlast, harmsLog, hdefaultLog]
      simp [Stmt.blocks, flatMap_map]
  | loop o c body =>
    unfold ofStmt at h ⊢
    split at h
    · rename_i hc
      exact absurd (constantCondition?_eq_some.1 hc) hs
    · simp only [bind_result_eq_ok, result_pure, Except.ok.injEq] at h
      obtain ⟨inner, hinner, -⟩ := h
      refine ⟨by simp [Stmt.blocks, hinner], ?_⟩
      rw [bind_of_ok hinner]
      simp [Stmt.blocks]
  | iterate o name v body =>
    simp only [ofStmt, bind_result_eq_ok, result_pure, Except.ok.injEq] at h
    obtain ⟨inner, hinner, -⟩ := h
    refine ⟨by simp [Stmt.blocks, hinner], ?_⟩
    rw [ofStmt, bind_of_ok hinner]
    simp [Stmt.blocks]
  | block o body =>
    rw [ofStmt] at h ⊢
    exact ⟨by simp [Stmt.blocks, h], by simp [Stmt.blocks]⟩
  | foreign | unreadable => simp [ofStmt] at h
  | _ => exact ⟨forall_mem_nil _, rfl⟩

/-! ### The places of a block -/

/-- The statement at a place of a block. -/
def find (body : List Stmt) (p : Nat × Route) : Option Stmt := body[p.1]?.bind fun a => a.at? p.2

/-- An unreached part of a block begins at `p`. -/
def HeadsIn (body : List Stmt) (p : Nat × Route) : Prop :=
  ∃ a, body[p.1]? = some a ∧
    ((p.2 = [] ∧ (∃ j, p.1 = j + 1 ∧ Reached body j) ∧ ¬ Reached body p.1) ∨
      (Reached body p.1 ∧ Heads a p.2))

variable {s : Stmt} {tail : List Stmt} {i : Nat} {rest : Route}

theorem headsIn_zero : HeadsIn (s :: tail) (0, rest) ↔ Heads s rest := by
  simp [HeadsIn]

theorem headsIn_succ_of_ends (hs : Ends s .normal) :
    HeadsIn (s :: tail) (i + 1, rest) ↔ HeadsIn tail (i, rest) := by
  cases i with
  | zero => simp [HeadsIn, hs]
  | succ i => simp [HeadsIn, hs]

theorem headsIn_succ_of_not_ends (hs : ¬ Ends s .normal) :
    HeadsIn (s :: tail) (i + 1, rest) ↔ i = 0 ∧ rest = [] ∧ tail ≠ [] := by
  cases i with
  | zero =>
    cases tail with
    | nil => simp [HeadsIn]
    | cons a tail => simp [HeadsIn, hs]
  | succ i => simp [HeadsIn, hs]

theorem ofSequence_lists {body : List Stmt} {e : Exits}
    (hparts : ∀ a ∈ body, ∀ e, (ofStmt true a).result = .ok e →
      Lists a.at? (Heads a) (ofStmt true a).log)
    (h : (ofSequence true body).result = .ok e) :
    Lists (find body) (HeadsIn body) (ofSequence true body).log := by
  induction body generalizing e with
  | nil => exact .nil (by simp [HeadsIn])
  | cons s tail ih =>
    rw [ofSequence, bind_result_eq_ok] at h
    obtain ⟨first, hfirst, h⟩ := h
    have hnormal : first.normal = true ↔ Ends s .normal := ofStmt_exact hfirst .normal
    have hhead : Lists (find (s :: tail)) (fun q => ∃ p, Heads s p ∧ (0, p) = q)
        (ofStmt true s).log :=
      (hparts s mem_cons_self first hfirst).image (fun _ _ hpq => (Prod.mk.inj hpq).2) fun _ => rfl
    rw [ofSequence, bind_of_ok hfirst]
    by_cases hn : first.normal = true
    · rw [if_pos hn, bind_result_eq_ok] at h
      obtain ⟨others, hothers, -⟩ := h
      have htail := ih (fun a ha => hparts a (mem_cons_of_mem s ha)) hothers
      have hlater : Lists (find (s :: tail)) (fun q => ∃ p, HeadsIn tail p ∧ (p.1 + 1, p.2) = q)
          (ofSequence true tail).log :=
        htail.image (fun p q hpq => by simp_all [Prod.ext_iff]) fun _ => rfl
      rw [if_pos hn, bind_of_ok hothers]
      simp only [log_pure, append_nil]
      refine (hhead.append hlater ?_).congr ?_
      · rintro q ⟨p, -, rfl⟩ ⟨p', -, hp'⟩
        simp at hp'
      · rintro ⟨i, rest⟩
        cases i with
        | zero => simp [headsIn_zero]
        | succ i => simp [headsIn_succ_of_ends (hnormal.1 hn)]
    · rw [if_neg hn, bind_result_eq_ok] at h
      obtain ⟨_, hrest, -⟩ := h
      rw [if_neg hn, bind_of_ok hrest]
      obtain ⟨hlog, hspan⟩ := unreached_log hrest
      simp only [log_pure, append_nil, hlog]
      have hstop := mt hnormal.2 hn
      have hlater : Lists (find (s :: tail)) (fun q => q = (1, []) ∧ tail ≠ []) (tail.take 1) := by
        cases tail with
        | nil => exact .nil (by simp)
        | cons a tail => exact .single (p := (1, [])) (by simp) ⟨rfl, hspan a mem_cons_self⟩
      refine (hhead.append hlater ?_).congr ?_
      · rintro q ⟨p, -, rfl⟩ ⟨hq, -⟩
        simp at hq
      · rintro ⟨i, rest⟩
        cases i with
        | zero => simp [headsIn_zero]
        | succ i => simp [headsIn_succ_of_not_ends hstop, and_assoc]

/-- The statements at the places of several blocks. -/
def findAmong (blocks : List (Bool × List Stmt)) (p : Nat × Nat × Route) : Option Stmt :=
  blocks[p.1]?.bind fun block => find block.2 p.2

/-- An unreached part of one of several blocks begins at `p`. -/
def HeadsAmong (blocks : List (Bool × List Stmt)) (p : Nat × Nat × Route) : Prop :=
  ∃ block, blocks[p.1]? = some block ∧ HeadsIn block.2 p.2

theorem blocks_lists {blocks : List (Bool × List Stmt)}
    (h : ∀ block ∈ blocks, Lists (find block.2) (HeadsIn block.2) (ofSequence true block.2).log) :
    Lists (findAmong blocks) (HeadsAmong blocks)
      (blocks.flatMap fun block => (ofSequence true block.2).log) := by
  induction blocks with
  | nil => exact .nil (by simp [HeadsAmong])
  | cons block rest ih =>
    obtain ⟨hblock, hrest⟩ := forall_mem_cons.1 h
    have hhead : Lists (findAmong (block :: rest)) (fun q => ∃ p, HeadsIn block.2 p ∧ (0, p) = q)
        (ofSequence true block.2).log :=
      hblock.image (fun _ _ hpq => (Prod.mk.inj hpq).2) fun _ => rfl
    have hlater : Lists (findAmong (block :: rest))
      (fun q => ∃ p, HeadsAmong rest p ∧ (p.1 + 1, p.2) = q)
        (rest.flatMap fun block => (ofSequence true block.2).log) :=
      (ih hrest).image (fun p q hpq => by simp_all [Prod.ext_iff]) fun _ => rfl
    rw [flatMap_cons]
    refine (hhead.append hlater ?_).congr ?_
    · rintro q ⟨p, -, rfl⟩ ⟨p', -, hp'⟩
      simp at hp'
    · rintro ⟨b, p⟩
      cases b with
      | zero => simp [HeadsAmong]
      | succ b => simp [HeadsAmong]

/-- A loop that never runs writes down the first statement of its body. -/
theorem lists_of_skips {s : Stmt} {e : Exits} (hs : s.Skips) (h : (ofStmt true s).result = .ok e) :
    Lists s.at? (Heads s) (ofStmt true s).log := by
  obtain ⟨o, c, body, rfl, hc⟩ := hs.eq_loop
  unfold ofStmt at h ⊢
  rw [constantCondition?_eq_some.2 hc] at h ⊢
  simp only [bind_result_eq_ok] at h
  obtain ⟨_, hbody, -⟩ := h
  obtain ⟨hlog, hspan⟩ := unreached_log hbody
  simp only [bind_of_ok hbody, hlog, log_pure, append_nil]
  cases body with
  | nil =>
    refine .nil fun q hq => ?_
    obtain ⟨rfl, hsome⟩ := (heads_of_skips hs q).1 hq
    simp [Stmt.at?, Stmt.blocks] at hsome
  | cons a body =>
    refine .single (p := [(0, 0)]) (fun q => ?_) ⟨rfl, hspan a mem_cons_self⟩
    rw [heads_of_skips hs]
    exact ⟨fun hq => hq.1, fun hq => ⟨hq, by rw [hq]; rfl⟩⟩

/-- Any other statement: the unreached parts begin where those of its blocks do. -/
theorem heads_iff_blocks {s : Stmt} (hs : ¬ s.Skips) (q : Route) :
    (∃ p, HeadsAmong s.blocks p ∧ (p.1, p.2.1) :: p.2.2 = q) ↔ Heads s q := by
  constructor
  · rintro ⟨⟨b, i, rest⟩, ⟨block, hb, a, ha, h⟩, rfl⟩
    exact (heads_cons hs hb ha).2 h
  · intro h
    cases q with
    | nil => exact absurd h (heads_nil s)
    | cons x rest =>
      obtain ⟨b, i⟩ := x
      obtain ⟨block, a, hb, ha, -⟩ := Stmt.exists_of_at?_isSome h.1
      exact ⟨(b, i, rest), ⟨block, hb, a, ha, (heads_cons hs hb ha).1 h⟩, rfl⟩

/-- The statements written down stand where the unreached parts begin, each place once. -/
theorem ofStmt_lists (s : Stmt) : ∀ e, (ofStmt true s).result = .ok e →
    Lists s.at? (Heads s) (ofStmt true s).log := by
  induction s using Stmt.induction with
  | step s ih =>
    intro e h
    by_cases hs : s.Skips
    · exact lists_of_skips hs h
    · obtain ⟨hblocks, hlog⟩ := ofStmt_log hs h
      have hlists : Lists (findAmong s.blocks) (HeadsAmong s.blocks) (ofStmt true s).log := by
        rw [hlog]
        refine blocks_lists fun block hblock => ?_
        obtain ⟨e, he⟩ := hblocks block hblock
        exact ofSequence_lists (ih block hblock) he
      refine (hlists.image (f := fun p => (p.1, p.2.1) :: p.2.2) ?_ fun _ => rfl).congr
        (heads_iff_blocks hs)
      rintro ⟨b, i, rest⟩ ⟨b', i', rest'⟩ hpq
      simp_all

/-- What no run starts is where an unreached part begins, behind it in its block, or inside. -/
theorem covered_of_not_starts {s : Stmt} {q : Route} (hsome : (s.at? q).isSome)
    (hq : ¬ Starts s q) :
    ∃ up b i j rest, Heads s (up ++ [(b, i)]) ∧ i ≤ j ∧ q = up ++ (b, j) :: rest := by
  induction q generalizing s with
  | nil => exact absurd (.self s) hq
  | cons x rest ih =>
    obtain ⟨b, i⟩ := x
    obtain ⟨block, a, hb, ha, hinner⟩ := Stmt.exists_of_at?_isSome hsome
    by_cases hs : s.Skips
    · obtain ⟨o, c, body, rfl, hc⟩ := hs.eq_loop
      obtain ⟨rfl, rfl⟩ : b = 0 ∧ block = (true, body) := by
        rw [Stmt.blocks, getElem?_singleton] at hb
        split at hb <;> simp_all
      have hlt : 0 < body.length := Nat.zero_lt_of_lt (List.getElem?_eq_some_iff.1 ha).1
      have hfirst : (Stmt.loop o c body).at? [(0, 0)] = some body[0] :=
        Stmt.at?_cons hb (getElem?_eq_getElem hlt)
      exact ⟨[], 0, 0, i, rest, (heads_of_skips hs _).2 ⟨rfl, by simp [hfirst]⟩, Nat.zero_le i, rfl⟩
    · by_cases hi : Reached block.2 i
      · have hnot : ¬ Starts a rest := fun h => hq ((starts_cons hs hb ha).2 ⟨hi, h⟩)
        obtain ⟨up, b', i', j, rest', hhead, hle, rfl⟩ := ih hinner hnot
        exact ⟨(b, i) :: up, b', i', j, rest', (heads_cons hs hb ha).2 (.inr ⟨hi, hhead⟩), hle, rfl⟩
      · obtain ⟨j, hj, hlast, hnext⟩ := exists_last_reached hi
        have hlt : j + 1 < block.2.length := by
          have := (List.getElem?_eq_some_iff.1 ha).1
          omega
        have hhead := (heads_cons hs hb (getElem?_eq_getElem hlt)).2
          (.inl ⟨rfl, ⟨j, rfl, hlast⟩, hnext⟩)
        exact ⟨[], b, j + 1, i, rest, hhead, hj, rfl⟩

/-! ### Warnings -/

/-- There is one warning for each place at which an unreached part of a statement begins. -/
def Mark (s : Stmt) (warnings : List Diagnostic) : Prop :=
  ∃ heads : List Route, heads.Nodup ∧ (∀ q, q ∈ heads ↔ Heads s q) ∧
    List.Forall₂ (fun q d => ∃ a span, s.at? q = some a ∧ a.span? = some span ∧
      d = ⟨.unreachable, span⟩) heads warnings

theorem mark_of_lists {α : Type} {s : Stmt} {x : Reach α} (h : Lists s.at? (Heads s) x.log) :
    Mark s x.warnings := by
  obtain ⟨heads, hnodup, hmem, hlog⟩ := h
  refine ⟨heads, hnodup, hmem, ?_⟩
  rw [warnings]
  generalize x.log = log at hlog ⊢
  clear hnodup hmem
  induction hlog with
  | nil => exact .nil
  | cons hfound _ ih =>
    obtain ⟨hat, span, hspan⟩ := hfound
    rw [filterMap_cons, hspan]
    exact .cons ⟨_, span, hat, hspan, rfl⟩ ih

/--
**Warnings mark exactly the starts of what no run gets to.**  Whenever the analysis of a statement,
or of the body of a function, answers, its warnings stand for the places that begin an unreached
part, one for each.  Every place that no run starts is one of them, stands behind one in its block,
or is inside such a statement.  The analysis answers for everything made of statements proper.
-/
theorem warnings_mark_unreached :
    (∀ (s : Stmt) (e : Exits), (ofStmt true s).result = .ok e → Mark s (ofStmt true s).warnings) ∧
    (∀ (f : FunctionDef) (signature : Signature) (flow : Flow), (f.bodyFlow true signature).flow =
      .ok flow → Mark (.block f.origin f.body) (f.bodyFlow true signature).warnings) ∧
    (∀ (s : Stmt) (q : Route), (s.at? q).isSome → ¬ Starts s q →
      ∃ up b i j rest, Heads s (up ++ [(b, i)]) ∧ i ≤ j ∧ q = up ++ (b, j) :: rest) ∧
    (∀ s : Stmt, s.Proper → ∃ e, (ofStmt true s).result = .ok e) := by
  refine ⟨fun s e h => mark_of_lists (ofStmt_lists s e h), fun f signature flow h => ?_,
    fun s q => covered_of_not_starts, fun s => ofStmt_answers⟩
  obtain ⟨e, he, -⟩ : ∃ e, (ofSequence true f.body).result = .ok e ∧ Flow.ofExits e = flow := by
    cases hresult : (ofSequence true f.body).result with
    | error fault => simp [FunctionDef.bodyFlow, hresult, Except.map] at h
    | ok e => exact ⟨e, rfl, by simpa [FunctionDef.bodyFlow, hresult, Except.map] using h⟩
  exact mark_of_lists (ofStmt_lists (.block f.origin f.body) e he)

/-- A function with a loop that never runs, a loop without end, and statements behind both. -/
def deadEnds : FunctionDef :=
  let line (n : Int) : Origin := ⟨.root 0, .point n 0 .null⟩
  let flag : Expr := .identifier (line 0) "flag"
  let constant (b : Bool) : Expr := .literal (line 0) (.bool b) (some .bool)
  let body : List Stmt :=
    [.loop (line 1) (constant false) [.pass (line 2), .pass (line 3)],
     .loop (line 4) (constant true)
       [.cond (line 5) flag [.ret (line 6) none] [] (some [.cont (line 7)]), .pass (line 8)],
     .pass (line 9),
     .loop (line 10) (constant false) [.pass (line 11)]]
  ⟨line 0, "deadEnds", [], none, body, none⟩

/-- Lines 2, 8 and 9 are warned about, and line 11 is inside a statement behind line 9. -/
theorem deadEnds_warnings :
    let s := Stmt.block deadEnds.origin deadEnds.body
    let found := deadEnds.bodyFlow true ⟨"deadEnds", [], none, none, .nowhere⟩
    s.Proper ∧ (∃ e, (ofStmt true s).result = .ok e) ∧ Mark s (ofStmt true s).warnings ∧
    found.flow = .ok .returns ∧ Mark s found.warnings ∧
    (found.warnings.map fun d => d.span) = [.point 2 0 .null, .point 8 0 .null, .point 9 0 .null] ∧
    (s.at? [(0, 3), (0, 0)]).isSome ∧ ¬ Starts s [(0, 3), (0, 0)] ∧
    (∃ up b i j rest, Heads s (up ++ [(b, i)]) ∧ i ≤ j ∧
      [(0, 3), (0, 0)] = up ++ (b, j) :: rest) := by
  intro s found
  obtain ⟨hmark, hbody, hcovered, hanswers⟩ := warnings_mark_unreached
  have hproper : s.Proper := by
    simp [s, deadEnds, Stmt.proper_iff, Stmt.allProper_cons, Stmt.allProper_nil,
      Stmt.isProper, Stmt.blocks]
  have hresult : (ofStmt true s).result = .ok { returns := true } := rfl
  have hnot : ¬ Starts s [(0, 3), (0, 0)] := by
    rw [starts_cons (s := s) (b := 0) (i := 3) id rfl rfl]
    rintro ⟨hreached, -⟩
    -- The loop without end is never gone on behind.
    have hends := hreached _ (mem_cons_of_mem _ mem_cons_self)
    rw [← @ofStmt_exact true _ _ rfl] at hends
    exact absurd hends (by decide)
  exact ⟨hproper, hanswers s hproper, hmark s _ hresult, rfl, hbody deadEnds _ _ rfl, rfl, rfl,
    hnot, hcovered s _ rfl hnot⟩

end Reach

end TreeTyping
