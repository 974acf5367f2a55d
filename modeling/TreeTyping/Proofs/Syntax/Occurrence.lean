/-
What occurs in what.

An expression holds other expressions, and a statement holds expressions and blocks of further
statements.  `Expr.Occurs` and `Stmt.Occurs` say what is reached from an expression or statement in
any number of such steps, itself included.  Nothing is said about whether control ever gets there,
so a statement behind a return occurs in its block like any other.

For statements it matters whether a loop was entered on the way: a break belongs to the innermost
loop around it, and in a body that is checked on its own there may be none.
-/
import TreeTyping.Syntax.Basic

namespace TreeTyping

open List

/-! ### Expressions -/

/-- The expressions an expression holds, in the order in which they are written. -/
def Expr.children : Expr → List Expr
  | .literal _ _ _ | .identifier _ _ | .foreign _ | .unreadable => []
  | .binary _ left _ right => [left, right]
  | .unary _ _ operand => [operand]
  | .call _ callee args => callee :: args
  | .methodCall _ object _ args => object :: args
  | .member _ object _ => [object]
  | .index _ object i => [object, i]
  | .cast _ _ operand => [operand]
  | .list _ elements => elements
  | .map _ entries => entries.flatMap fun e => [e.1, e.2]
  | .set _ elements => elements
  | .record _ _ fields => fields.map Prod.snd

/-- `a.Occurs e`: the expression `a` is `e` or is held by it at some depth. -/
inductive Expr.Occurs (a : Expr) : Expr → Prop
  | self : Occurs a a
  | inside {e c : Expr} (hc : c ∈ e.children) (h : Occurs a c) : Occurs a e

theorem Expr.sizeOf_lt_of_mem_children {e c : Expr} (h : c ∈ e.children) : sizeOf c < sizeOf e := by
  have hlist := sizeOf_lt_of_mem h
  cases e with
  | literal | identifier | foreign | unreadable => cases h
  | binary | unary | member | index | cast =>
    simp only [children, mem_cons, not_mem_nil, or_false, binary.sizeOf_spec,
      unary.sizeOf_spec, member.sizeOf_spec, index.sizeOf_spec, cast.sizeOf_spec] at h ⊢
    grind
  | call | methodCall | list | set =>
    simp only [children, List.cons.sizeOf_spec, call.sizeOf_spec, methodCall.sizeOf_spec,
      list.sizeOf_spec, set.sizeOf_spec] at hlist ⊢
    omega
  | map o entries =>
    obtain ⟨⟨key, value⟩, hentry, hc⟩ := mem_flatMap.1 h
    have hentries := sizeOf_lt_of_mem hentry
    simp only [mem_cons, not_mem_nil, or_false] at hc
    simp only [Prod.mk.sizeOf_spec, map.sizeOf_spec] at hentries ⊢
    rcases hc with rfl | rfl <;> omega
  | record o typeName fields =>
    obtain ⟨⟨name, value⟩, hfield, rfl⟩ := mem_map.1 h
    have hfields := sizeOf_lt_of_mem hfield
    simp only [Prod.mk.sizeOf_spec, record.sizeOf_spec] at hfields ⊢
    omega

/-- To prove something of every expression, prove it of one whose parts it holds of. -/
theorem Expr.induction {P : Expr → Prop} (step : ∀ e, (∀ c ∈ e.children, P c) → P e) (e : Expr) :
    P e :=
  step e fun c _ => induction step c
termination_by sizeOf e
decreasing_by exact Expr.sizeOf_lt_of_mem_children ‹_›

/-- The same, with one case for each form of expressions. -/
theorem Expr.byForm {P : Expr → Prop} (literal : ∀ o v kind, P (.literal o v kind))
    (identifier : ∀ o name, P (.identifier o name))
    (binary : ∀ o left op right, P left → P right → P (.binary o left op right))
    (unary : ∀ o op operand, P operand → P (.unary o op operand))
    (call : ∀ o callee args, P callee → (∀ e ∈ args, P e) → P (.call o callee args))
    (methodCall : ∀ o object method args, P object → (∀ e ∈ args, P e) →
      P (.methodCall o object method args))
    (member : ∀ o object name, P object → P (.member o object name))
    (index : ∀ o object i, P object → P i → P (.index o object i))
    (cast : ∀ o target operand, P operand → P (.cast o target operand))
    (list : ∀ o elements, (∀ e ∈ elements, P e) → P (.list o elements))
    (map : ∀ o entries, (∀ e ∈ entries, P e.1 ∧ P e.2) → P (.map o entries))
    (set : ∀ o elements, (∀ e ∈ elements, P e) → P (.set o elements))
    (record : ∀ o typeName fields, (∀ g ∈ fields, P g.2) → P (.record o typeName fields))
    (foreign : ∀ f, P (.foreign f)) (unreadable : P .unreadable) (e : Expr) : P e := by
  induction e using Expr.induction with
  | step e ih =>
    cases e with
    | literal o v kind => exact literal o v kind
    | identifier o name => exact identifier o name
    | binary o left op right =>
      exact binary o left op right (ih _ (by simp [children])) (ih _ (by simp [children]))
    | unary o op operand => exact unary o op operand (ih _ mem_cons_self)
    | call o callee args =>
      exact call o callee args (ih _ mem_cons_self) fun e he => ih e (mem_cons_of_mem _ he)
    | methodCall o object method args =>
      exact methodCall o object method args (ih _ mem_cons_self) fun e he =>
        ih e (mem_cons_of_mem _ he)
    | member o object name => exact member o object name (ih _ mem_cons_self)
    | index o object i =>
      exact index o object i (ih _ (by simp [children])) (ih _ (by simp [children]))
    | cast o target operand => exact cast o target operand (ih _ mem_cons_self)
    | list o elements => exact list o elements ih
    | map o entries =>
      refine map o entries fun e he => ⟨ih _ ?_, ih _ ?_⟩ <;> exact mem_flatMap.2 ⟨e, he, by simp⟩
    | set o elements => exact set o elements ih
    | record o typeName fields =>
      exact record o typeName fields fun g hg => ih _ (mem_map_of_mem hg)
    | foreign f => exact foreign f
    | unreadable => exact unreadable

/-! ### Statements -/

def Branch.condition : Branch → Expr
  | .mk c _ => c

def Branch.body : Branch → List Stmt
  | .mk _ body => body

def Case.values : Case → List Expr
  | .mk values _ => values

def Case.body : Case → List Stmt
  | .mk _ body => body

namespace Stmt

variable {body rest : List Stmt} {l : Bool} {otherwise : Option (List Stmt)} {P : Stmt → Prop}
  {s : Stmt} {o : Origin}

/-- The expressions a statement holds itself, not counting those in its blocks. -/
def exprs : Stmt → List Expr
  | .declare d => d.initializer.toList
  | .assign _ target value => [target, value]
  | .expr _ e => [e]
  | .ret _ value => value.toList
  | .panic _ message => message.toList
  | .cond _ c _ more _ => c :: more.map Branch.condition
  | .select _ subject arms _ => subject :: arms.flatMap Case.values
  | .loop _ c _ => [c]
  | .iterate _ _ iterable _ => [iterable]
  | .brk _ | .cont _ | .pass _ | .block _ _ | .foreign _ | .unreadable => []

/-- The blocks a statement holds, each with whether it is the body of a loop. -/
def blocks : Stmt → List (Bool × List Stmt)
  | .cond _ _ body more otherwise =>
    (false, body) :: (more.map fun b => (false, b.body)) ++ otherwise.toList.map fun b => (false, b)
  | .select _ _ arms otherwise =>
    (arms.map fun a => (false, a.body)) ++ otherwise.toList.map fun b => (false, b)
  | .loop _ _ body => [(true, body)]
  | .iterate _ _ _ body => [(true, body)]
  | .block _ body => [(false, body)]
  | _ => []

theorem mem_blocks_cond {c : Expr} {b : List Stmt} {more : List Branch} :
    (l, b) ∈ (Stmt.cond o c body more otherwise).blocks ↔
      l = false ∧ (b = body ∨ (∃ r ∈ more, b = r.body) ∨ otherwise = some b) := by
  cases l <;> simp [blocks, eq_comm]

theorem mem_blocks_select {e : Expr} {arms : List Case} {b : List Stmt} :
    (l, b) ∈ (Stmt.select o e arms otherwise).blocks ↔
      l = false ∧ ((∃ a ∈ arms, b = a.body) ∨ otherwise = some b) := by
  cases l <;> simp [blocks, eq_comm]

theorem forall_blocks_cond {c : Expr} {more : List Branch}
    : (∀ b ∈ (Stmt.cond o c body more otherwise).blocks, ∀ s ∈ b.2, P s) ↔
      (∀ s ∈ body, P s) ∧ (∀ b ∈ more, ∀ s ∈ b.body, P s) ∧ ∀ last, otherwise = some last →
      ∀ s ∈ last, P s := by
  cases otherwise <;> simp [blocks, or_imp, forall_and]

theorem forall_blocks_select {e : Expr} {arms : List Case}
    : (∀ b ∈ (Stmt.select o e arms otherwise).blocks, ∀ s ∈ b.2, P s) ↔
      (∀ a ∈ arms, ∀ s ∈ a.body, P s) ∧ ∀ last, otherwise = some last → ∀ s ∈ last, P s := by
  cases otherwise <;> simp [blocks, or_imp, forall_and]

theorem sizeOf_lt_of_mem_blocks {s a : Stmt} (hb : (l, body) ∈ s.blocks) (ha : a ∈ body) :
    sizeOf a < sizeOf s := by
  have hbody := sizeOf_lt_of_mem ha
  cases s with
  | cond o c first more otherwise =>
    rcases (mem_blocks_cond.1 hb).2 with rfl | ⟨⟨c', body'⟩, hmem, rfl⟩ | rfl
    · simp only [cond.sizeOf_spec]
      omega
    · have hmore := sizeOf_lt_of_mem hmem
      simp only [Branch.mk.sizeOf_spec, cond.sizeOf_spec] at hmore ⊢
      omega
    · simp only [Option.some.sizeOf_spec, cond.sizeOf_spec]
      omega
  | select o e arms otherwise =>
    rcases (mem_blocks_select.1 hb).2 with ⟨⟨values, body'⟩, hmem, rfl⟩ | rfl
    · have harms := sizeOf_lt_of_mem hmem
      simp only [Case.mk.sizeOf_spec, select.sizeOf_spec] at harms ⊢
      omega
    · simp only [Option.some.sizeOf_spec, select.sizeOf_spec]
      omega
  | loop | iterate | block =>
    obtain ⟨-, rfl⟩ := Prod.mk.inj (mem_singleton.1 hb)
    simp only [loop.sizeOf_spec, iterate.sizeOf_spec, block.sizeOf_spec]
    omega
  | _ => cases hb

/-- To prove something of every statement, prove it of one whose blocks it holds throughout of. -/
theorem induction (step : ∀ s, (∀ b ∈ s.blocks, ∀ a ∈ b.2, P a) → P s) (s : Stmt) : P s :=
  step s fun _ _ a _ => induction step a
termination_by sizeOf s
decreasing_by exact sizeOf_lt_of_mem_blocks ‹_› ‹_›

/-- The same, with one case for each form of statements. -/
theorem byForm (declare : ∀ d, P (.declare d))
    (assign : ∀ o target value, P (.assign o target value)) (expr : ∀ o e, P (.expr o e))
    (ret : ∀ o value, P (.ret o value)) (panic : ∀ o message, P (.panic o message))
    (brk : ∀ o, P (.brk o))
    (cont : ∀ o, P (.cont o)) (pass : ∀ o, P (.pass o))
    (cond : ∀ o c body more otherwise, (∀ s ∈ body, P s) → (∀ b ∈ more, ∀ s ∈ b.body, P s) →
      (∀ last, otherwise = some last → ∀ s ∈ last, P s) → P (.cond o c body more otherwise))
    (select : ∀ o subject arms otherwise, (∀ a ∈ arms, ∀ s ∈ a.body, P s) →
      (∀ last, otherwise = some last → ∀ s ∈ last, P s) → P (.select o subject arms otherwise))
    (loop : ∀ o c body, (∀ s ∈ body, P s) → P (.loop o c body))
    (iterate : ∀ o name iterable body, (∀ s ∈ body, P s) → P (.iterate o name iterable body))
    (block : ∀ o body, (∀ s ∈ body, P s) → P (.block o body)) (foreign : ∀ f, P (.foreign f))
    (unreadable : P .unreadable) (s : Stmt) : P s := by
  induction s using Stmt.induction with
  | step s ih =>
    cases s with
    | declare d => exact declare d
    | assign o target value => exact assign o target value
    | expr o e => exact expr o e
    | ret o value => exact ret o value
    | panic o message => exact panic o message
    | brk o => exact brk o
    | cont o => exact cont o
    | pass o => exact pass o
    | cond o c body more otherwise =>
      obtain ⟨hbody, hmore, hlast⟩ := forall_blocks_cond.1 ih
      exact cond o c body more otherwise hbody hmore hlast
    | select o subject arms otherwise =>
      obtain ⟨harms, hlast⟩ := forall_blocks_select.1 ih
      exact select o subject arms otherwise harms hlast
    | loop o c body => exact loop o c body (ih _ mem_cons_self)
    | iterate o name iterable body => exact iterate o name iterable body (ih _ mem_cons_self)
    | block o body => exact block o body (ih _ mem_cons_self)
    | foreign f => exact foreign f
    | unreadable => exact unreadable

/--
`Occurs l a s`: the statement `a` is `s` or stands in one of its blocks at some depth, and `l` says
whether one of the blocks on the way is the body of a loop.
-/
inductive Occurs : Bool → Stmt → Stmt → Prop
  | self (s : Stmt) : Occurs false s s
  | inside {l l' : Bool} {a s b : Stmt} {body : List Stmt} (hb : (l, body) ∈ b.blocks)
      (hs : s ∈ body) (h : Occurs l' a s) : Occurs (l || l') a b

/-- The statement `a` occurs in one of several statements. -/
def OccursIn (l : Bool) (a : Stmt) (body : List Stmt) : Prop := ∃ s ∈ body, Occurs l a s

theorem Occurs.of_block {l' : Bool} {a b : Stmt} (hb : (l, body) ∈ b.blocks)
    (h : OccursIn l' a body) : Occurs (l || l') a b := by
  obtain ⟨s, hs, h⟩ := h
  exact .inside hb hs h

theorem OccursIn.head {a s : Stmt} (h : Occurs l a s) : OccursIn l a (s :: rest) :=
  ⟨s, mem_cons_self, h⟩

theorem OccursIn.tail {a s : Stmt} (h : OccursIn l a rest) : OccursIn l a (s :: rest) := by
  obtain ⟨b, hb, h⟩ := h
  exact ⟨b, mem_cons_of_mem s hb, h⟩

/-- A statement proper: not a value that stands where a statement is asked for. -/
def isProper : Stmt → Bool
  | .foreign _ | .unreadable => false
  | _ => true

/-- Nothing but statements proper occurs in a statement. -/
def Proper (s : Stmt) : Prop := ∀ l a, Occurs l a s → a.isProper = true

/-- Nothing but statements proper occurs in several statements. -/
def AllProper (body : List Stmt) : Prop := ∀ l a, OccursIn l a body → a.isProper = true

theorem Proper.block (h : s.Proper) (hb : (l, body) ∈ s.blocks) : AllProper body := by
  intro l' a ha
  exact h _ a (Occurs.of_block hb ha)

theorem AllProper.head (h : AllProper (s :: rest)) : s.Proper := by
  intro l a ha
  exact h l a (OccursIn.head ha)

theorem AllProper.tail (h : AllProper (s :: rest)) : AllProper rest := by
  intro l a ha
  exact h l a (OccursIn.tail ha)

/-- A statement is proper when it is one itself and its blocks hold nothing else. -/
theorem proper_iff : s.Proper ↔ s.isProper = true ∧ ∀ b ∈ s.blocks, AllProper b.2 := by
  constructor
  · intro h
    exact ⟨h false s (.self s), fun b hb => h.block hb⟩
  · rintro ⟨hs, hblocks⟩ l a ha
    cases ha with
    | self => exact hs
    | inside hb hmem hin => exact hblocks _ hb _ a ⟨_, hmem, hin⟩

theorem allProper_nil : AllProper [] := by
  rintro l a ⟨s, hs, _⟩
  cases hs

theorem allProper_cons : AllProper (s :: rest) ↔ s.Proper ∧ AllProper rest := by
  refine ⟨fun h => ⟨h.head, h.tail⟩, ?_⟩
  rintro ⟨hs, hrest⟩ l a ⟨b, hb, ha⟩
  rcases mem_cons.1 hb with rfl | hb
  · exact hs l a ha
  · exact hrest l a ⟨b, hb, ha⟩

end Stmt

end TreeTyping
