/-
The scopes around a point, and what a name stands for there.

A block, the body of a loop and the header of an iteration each open a scope, and a function opens
one that its receiver, its parameters and the statements of its body share.  Around all of them is
the scope of the module's variables.  At a point of the text each scope around it has declared some
names so far.  A name stands for what the innermost scope that has declared it declares.

All of this is read off the text.  `Stmt.Stands` follows the statements of a block one after the
other, since a declaration is there from behind its statement on, and goes into their blocks.
-/
import TreeTyping.Proofs.Syntax.Lexical

namespace TreeTyping

/-- The scopes around a point, innermost first, each with the names declared so far. -/
abbrev Nesting := List Visible

namespace Nesting

/-- The place that declares what a name stands for, in the innermost scope that declares it. -/
def resolve (n : Nesting) (name : String) :
    Option Place := n.findSome? fun scope => scope.lookup name

/-- A name declared in the innermost scope. -/
def declare (n : Nesting) (name : String) (q : Place) :
    Nesting := ((name, q) :: n.headD []) :: n.tail

/-- A new scope, which has declared nothing. -/
def enter (n : Nesting) : Nesting := [] :: n

/-- Parameters declared one after the other. -/
def withParams (n : Nesting) (params : List Param) : Nesting :=
  params.foldl (fun n p => n.declare p.name p.origin.place) n

/-- The innermost scope goes before all others. -/
theorem resolve_cons (scope : Visible) (outer : Nesting) (name : String) :
    resolve (scope :: outer) name = (scope.lookup name).or (outer.resolve name) := by
  rw [resolve, List.findSome?_cons]
  cases scope.lookup name <;> rfl

theorem resolve_declare (n : Nesting) (name : String) (q : Place) (other : String) :
    (n.declare name q).resolve other = if other = name then some q else n.resolve other := by
  rw [declare, resolve_cons, List.lookup_cons]
  by_cases h : other = name
  · rw [if_pos h, beq_iff_eq.2 h]
    rfl
  · rw [if_neg h, beq_eq_false_iff_ne.2 h]
    cases n with
    | nil => rfl
    | cons scope outer => exact (resolve_cons scope outer other).symm

end Nesting

namespace Stmt

/-- The scopes around the blocks of a statement; the variable of an iteration has its own. -/
def within (n : Nesting) : Stmt → Nesting
  | .iterate o name _ _ => (n.enter.declare name o.place).enter
  | _ => n.enter

/-- The scopes around what stands behind a statement in its block. -/
def behind (n : Nesting) : Stmt → Nesting
  | .declare d => n.declare d.name d.origin.place
  | _ => n

/-- `Stands n body inner e`: in statements in the scopes `n`, `e` stands in the scopes `inner`. -/
inductive Stands : Nesting → List Stmt → Nesting → Expr → Prop
  | here {n : Nesting} {s : Stmt} {rest : List Stmt} {e : Expr} (he : e ∈ s.exprs) :
      Stands n (s :: rest) n e
  | inside {n inner : Nesting} {s : Stmt} {rest body : List Stmt} {l : Bool} {e : Expr}
      (hb : (l, body) ∈ s.blocks) (h : Stands (s.within n) body inner e) :
      Stands n (s :: rest) inner e
  | later {n inner : Nesting} {s : Stmt} {rest : List Stmt} {e : Expr}
      (h : Stands (s.behind n) rest inner e) : Stands n (s :: rest) inner e

theorem Stands.of_mem {s : Stmt} {body : List Stmt} (hs : s ∈ body) (n : Nesting) :
    ∃ n', ∀ inner e, Stands n' [s] inner e → Stands n body inner e := by
  induction body generalizing n with
  | nil => cases hs
  | cons first rest ih =>
    rcases List.mem_cons.1 hs with rfl | hs
    · refine ⟨n, fun inner e h => ?_⟩
      cases h with
      | here he => exact .here he
      | inside hb h => exact .inside hb h
      | later h => cases h
    · obtain ⟨n', h⟩ := ih hs (first.behind n)
      exact ⟨n', fun inner e hstands => .later (h inner e hstands)⟩

/-- **Every expression of a body stands somewhere in it.** -/
theorem OccursIn.stands {l : Bool} {a : Stmt} {body : List Stmt} {e : Expr} (h : OccursIn l a body)
    (he : e ∈ a.exprs) (n : Nesting) : ∃ inner, Stands n body inner e := by
  obtain ⟨s, hs, ha⟩ := h
  induction ha generalizing body n with
  | self s =>
    obtain ⟨n', hbody⟩ := Stands.of_mem hs n
    exact ⟨n', hbody n' e (.here he)⟩
  | @inside _ _ a s b block hb hinner ha ih =>
    obtain ⟨n', hbody⟩ := Stands.of_mem hs n
    obtain ⟨inner, h⟩ := ih he (b.within n') hinner
    exact ⟨inner, hbody inner e (.inside hb h)⟩

/-- The name a statement declares in the scope it stands in. -/
def declaredName? : Stmt → Option String
  | .declare d => some d.name
  | _ => none

/-- The names that the statements of a block declare in its scope. -/
def declaredNames (body : List Stmt) : List String := body.filterMap declaredName?

end Stmt

/-- The scopes around the body of a function, with its receiver and parameters in its own. -/
def FunctionDef.nesting (n : Nesting) (f : FunctionDef) : Nesting :=
  (n.enter.withParams f.receiver.toList).withParams f.params

/-- The names that are declared in the scope of a function. -/
def FunctionDef.declaredNames (f : FunctionDef) : List String :=
  f.receiver.toList.map Param.name ++ (f.params.map Param.name ++ Stmt.declaredNames f.body)

/-- An entry of a module's variables, declared if it is one. -/
def Nesting.withVariable (n : Nesting) : Entry VarDecl → Nesting
  | .proper d => n.declare d.name d.origin.place
  | .foreign _ => n

/-- The scope of a module's variables. -/
def Module.nesting (m : Module) : Nesting := m.vars.foldl Nesting.withVariable [[]]

end TreeTyping
