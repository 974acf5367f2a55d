/-
Syntax without gaps.

A piece of syntax is intact when nothing in it is foreign or unreadable, and no operator and no kind
of a literal is missing.  Syntax that is read from a well-formed tree is intact, whatever the tree
says.  This is all that checking needs to know about well-formed trees: what a hand-made tree may
lack, and a checker would stumble over, is there.  For annotations and declarations of types this is
shown here, for expressions and statements together with what is read from a tree at all.
-/
import TreeTyping.Proofs.Syntax.Occurrence
import TreeTyping.Proofs.Tree.WellFormed
import TreeTyping.Syntax.OfTree

namespace TreeTyping

open TreeTyping.Tree

/-! ### Annotations and declarations -/

namespace TypeExpr

mutual

/-- Whether nothing in an annotation is foreign. -/
def isIntact : TypeExpr → Bool
  | .simple _ _ => true
  | .generic _ _ args _ => allIntact args
  | .foreign _ => false

def allIntact : List TypeExpr → Bool
  | [] => true
  | e :: rest => e.isIntact && allIntact rest

end

mutual

theorem isIntact_ofTree : ∀ t : Tree, Meets (.category .typeNode) t → (ofTree t).isIntact = true
  | .node cls s fields, hs => by
      obtain ⟨_, _, _, heq, hfields, hcls⟩ := hs.category
      cases heq
      cases cls with
      | simpleType =>
        obtain ⟨name, rfl, hname⟩ := fields_one hfields
        obtain ⟨name, rfl⟩ := hname.text
        rfl
      | genericType =>
        obtain ⟨name, args, length, rfl, hname, hargs, -⟩ := fields_three hfields
        obtain ⟨name, rfl⟩ := hname.text
        obtain ⟨args, rfl, heach⟩ := hargs.list
        exact allIntact_ofTrees args heach
      | _ => cases hcls
  | .null, hs | .bool _, hs | .int _, hs | .float _, hs | .text _, hs | .operator _, hs
  | .literalKind _, hs
  | .location _, hs | .list _, hs | .object _, hs => by
      obtain ⟨_, _, _, heq, -⟩ := hs.category
      cases heq

theorem allIntact_ofTrees : ∀ ts : List Tree, (∀ t ∈ ts, Meets (.category .typeNode) t) →
    allIntact (ofTrees ts) = true
  | [], _ => rfl
  | t :: rest, hs => by
      obtain ⟨ht, hrest⟩ := List.forall_mem_cons.1 hs
      rw [ofTrees, allIntact, isIntact_ofTree t ht, allIntact_ofTrees rest hrest]
      rfl

end

theorem isIntact_ofTree? {t : Tree} (h : Meets (.optional (.category .typeNode)) t) :
    ∀ e ∈ ofTree? t, e.isIntact = true := by
  rcases h.either with ht | hnull
  · have hintact := isIntact_ofTree t ht
    obtain ⟨cls, s, fields, rfl, -⟩ := ht.category
    intro e he
    cases he
    exact hintact
  · obtain rfl := hnull.null
    intro e he
    cases he

end TypeExpr

/-- Whether nothing in a parameter, receiver or field is foreign. -/
def Param.isIntact (p : Param) : Bool := p.typeExpr.isIntact

theorem Param.isIntact_ofTree {t : Tree} {cls : NodeClass}
    (hcls : cls = .parameter ∨ cls = .fieldDecl)
    (h : Meets (.node cls) t) (p : Place) : (ofTree p t).isIntact = true := by
  obtain ⟨s, fields, rfl, hfields⟩ := h.node
  rcases hcls with rfl | rfl
  · obtain ⟨name, type, rfl, hname, htype⟩ := fields_two hfields
    obtain ⟨name, rfl⟩ := hname.text
    exact TypeExpr.isIntact_ofTree type htype
  · obtain ⟨name, type, rfl, hname, htype⟩ := fields_two hfields
    obtain ⟨name, rfl⟩ := hname.text
    exact TypeExpr.isIntact_ofTree type htype

theorem Param.isIntact_ofItems {items : List Tree} {cls : NodeClass}
    (hcls : cls = .parameter ∨ cls = .fieldDecl)
    (hs : ∀ t ∈ items, Meets (.node cls) t) (p : Place) :
    ∀ param ∈ ofItems p items, param.isIntact = true := by
  intro param hparam
  obtain ⟨i, hi, rfl⟩ := List.mem_mapIdx.1 hparam
  exact isIntact_ofTree hcls (hs _ (List.getElem_mem hi)) _

/-- Nothing in a requirement of an interface is foreign. -/
def MemberDecl.Intact : MemberDecl → Prop
  | .field _ _ e => e.isIntact = true
  | .method _ _ params returns => (∀ p ∈ params, p.isIntact = true) ∧
      ∀ e ∈ returns, e.isIntact = true
  | .foreign _ _ => False

theorem MemberDecl.intact_ofTree {t : Tree}
    (h : Meets (.either (.node .fieldDecl) (.node .methodSig)) t) (p : Place) :
    (ofTree p t).Intact := by
  rcases h.either with h | h
  · obtain ⟨s, fields, rfl, hfields⟩ := h.node
    obtain ⟨name, type, rfl, hname, htype⟩ := fields_two hfields
    obtain ⟨name, rfl⟩ := hname.text
    exact TypeExpr.isIntact_ofTree type htype
  · obtain ⟨s, fields, rfl, hfields⟩ := h.node
    obtain ⟨name, params, returns, rfl, hname, hparams, hreturns⟩ := fields_three hfields
    obtain ⟨name, rfl⟩ := hname.text
    obtain ⟨params, rfl, heach⟩ := hparams.list
    exact ⟨Param.isIntact_ofItems (.inl rfl) heach _, TypeExpr.isIntact_ofTree? hreturns⟩

/-- Nothing in a type declaration is foreign. -/
def TypeDecl.Intact : TypeDecl → Prop
  | .alias _ _ e => e.isIntact = true
  | .struct _ _ fields => ∀ p ∈ fields, p.isIntact = true
  | .interface _ _ members => ∀ m ∈ members, m.Intact

/-- A type declaration that is read from a well-formed tree is one, and intact. -/
theorem TypeDecl.intact_ofTree {t : Tree} (p : Place)
    (h : Meets (.either (.node .typeAliasDecl) (.either (.node .structDecl) (.node .interfaceDecl)))
      t) :
    ∃ decl, ofTree p t = .proper decl ∧ decl.Intact := by
  rcases h.either with h | h
  · obtain ⟨s, fields, rfl, hfields⟩ := h.node
    obtain ⟨name, type, rfl, hname, htype⟩ := fields_two hfields
    obtain ⟨name, rfl⟩ := hname.text
    exact ⟨_, rfl, TypeExpr.isIntact_ofTree type htype⟩
  · rcases h.either with h | h
    · obtain ⟨s, fields, rfl, hfields⟩ := h.node
      obtain ⟨name, members, rfl, hname, hmembers⟩ := fields_two hfields
      obtain ⟨name, rfl⟩ := hname.text
      obtain ⟨members, rfl, heach⟩ := hmembers.list
      exact ⟨_, rfl, Param.isIntact_ofItems (.inr rfl) heach _⟩
    · obtain ⟨s, fields, rfl, hfields⟩ := h.node
      obtain ⟨name, members, rfl, hname, hmembers⟩ := fields_two hfields
      obtain ⟨name, rfl⟩ := hname.text
      obtain ⟨members, rfl, heach⟩ := hmembers.list
      refine ⟨_, rfl, fun m hm => ?_⟩
      obtain ⟨i, hi, rfl⟩ := List.mem_mapIdx.1 hm
      exact MemberDecl.intact_ofTree (heach _ (List.getElem_mem hi)) _

/-! ### Expressions -/

namespace Expr

/-- Whether an expression is one and lacks nothing, apart from what it holds. -/
def isIntact : Expr → Bool
  | .literal _ _ kind => kind.isSome
  | .binary _ _ op _ => op.isSome
  | .unary _ op _ => op.isSome
  | .cast _ target _ => target.isIntact
  | .foreign _ | .unreadable => false
  | _ => true

/-- Nothing is missing in an expression. -/
def Intact (e : Expr) : Prop := ∀ a : Expr, a.Occurs e → a.isIntact = true

theorem intact_iff {e : Expr} : e.Intact ↔ e.isIntact = true ∧ ∀ c ∈ e.children, c.Intact := by
  constructor
  · intro h
    exact ⟨h e .self, fun c hc a ha => h a (.inside hc ha)⟩
  · rintro ⟨he, hparts⟩ a ha
    cases ha with
    | self => exact he
    | inside hc ha => exact hparts _ hc a ha

theorem Intact.child {e c : Expr} (h : e.Intact) (hc : c ∈ e.children) : c.Intact :=
  (intact_iff.1 h).2 c hc

theorem Intact.span {e : Expr} (h : e.Intact) : ∃ span, e.span? = some span := by
  have he := h e .self
  cases e with
  | foreign | unreadable => cases he
  | _ => exact ⟨_, rfl⟩

end Expr

/-! ### Statements -/

/-- Nothing is missing in a variable declaration. -/
structure VarDecl.Intact (d : VarDecl) : Prop where
  typeExpr : ∀ e ∈ d.typeExpr, e.isIntact = true
  initializer : ∀ e ∈ d.initializer, e.Intact

namespace Stmt

/-- The declaration a statement is. -/
def declared? : Stmt → Option VarDecl
  | .declare d => some d
  | _ => none

/-- A statement is one, and lacks nothing apart from what its blocks hold. -/
structure OwnIntact (s : Stmt) : Prop where
  proper : s.isProper = true
  exprs : ∀ e ∈ s.exprs, e.Intact
  declared : ∀ d ∈ s.declared?, d.Intact

/-- Nothing is missing in a statement. -/
def Intact (s : Stmt) : Prop := ∀ l a, Occurs l a s → a.OwnIntact

/-- Nothing is missing in several statements. -/
abbrev AllIntact (body : List Stmt) : Prop := ∀ s ∈ body, s.Intact

theorem intact_iff {s : Stmt} : s.Intact ↔ s.OwnIntact ∧ ∀ b ∈ s.blocks, AllIntact b.2 := by
  constructor
  · intro h
    exact ⟨h false s (.self s), fun b hb a ha l c hc => h _ c (.inside hb ha hc)⟩
  · rintro ⟨hs, hblocks⟩ l a ha
    cases ha with
    | self => exact hs
    | inside hb hmem hin => exact hblocks _ hb _ hmem _ a hin

theorem Intact.own {s : Stmt} (h : s.Intact) : s.OwnIntact := (intact_iff.1 h).1

theorem Intact.expr {s : Stmt} {e : Expr} (h : s.Intact) (he : e ∈ s.exprs) :
    e.Intact := h.own.exprs e he

theorem Intact.block {s : Stmt} {l : Bool} {body : List Stmt} (h : s.Intact)
    (hb : (l, body) ∈ s.blocks) : AllIntact body :=
  (intact_iff.1 h).2 _ hb

/-- Intact statements are statements proper, at every depth. -/
theorem AllIntact.allProper {body : List Stmt} (h : AllIntact body) : AllProper body := by
  rintro l a ⟨s, hs, ha⟩
  exact (h s hs l a ha).proper

end Stmt

/-! ### Modules -/

/-- Nothing is missing in a function. -/
structure FunctionDef.Intact (f : FunctionDef) : Prop where
  params : ∀ p ∈ f.params, p.isIntact = true
  returnType : ∀ e ∈ f.returnType, e.isIntact = true
  body : Stmt.AllIntact f.body
  receiver : ∀ p ∈ f.receiver, p.isIntact = true

/-- Nothing is missing in a module. -/
structure Module.Intact (m : Module) : Prop where
  types : ∀ entry ∈ m.types, ∃ decl, entry = .proper decl ∧ decl.Intact
  vars : ∀ entry ∈ m.vars, ∃ d, entry = .proper d ∧ d.Intact
  functions : ∀ entry ∈ m.functions, ∃ f, entry = .proper f ∧ f.Intact

end TreeTyping
