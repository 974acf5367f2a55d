/-
Of a well-formed tree nothing is lost.

Reading a tree never fails, and what does not fit its place is read as foreign.  A well-formed tree
has nothing of the kind: what is read from it is intact, and every node of an expression in it is
the place of an expression that was read, at the same depth of the same statement.  The proofs go
through the classes: each field of a node either holds expressions or statements that are read, or
asks for declarations and plain values, below which no expression is found.
-/
import TreeTyping.Proofs.Syntax.Intact

namespace TreeTyping

open List TreeTyping.Tree

/-! ### What holds an expression -/

/-- The expression at the place `q` occurs in `e`. -/
def Expr.Holds (e : Expr) (q : Place) : Prop :=
  ∃ (a : Expr) (o : Origin), a.Occurs e ∧ a.origin? = some o ∧ o.place = q

theorem Expr.Holds.child {e c : Expr} {q : Place} (hc : c ∈ e.children) (h : c.Holds q) :
    e.Holds q := by
  obtain ⟨a, o, ha, ho, hq⟩ := h
  exact ⟨a, o, .inside hc ha, ho, hq⟩

/-- The expression at the place `q` occurs in the statement `s`. -/
def Stmt.Holds (s : Stmt) (q : Place) : Prop := ∃ l a, Occurs l a s ∧ ∃ e ∈ a.exprs, e.Holds q

theorem Stmt.Holds.inside {s b : Stmt} {l : Bool} {body : List Stmt} {q : Place}
    (hb : (l, body) ∈ s.blocks) (hmem : b ∈ body) (h : b.Holds q) : s.Holds q := by
  obtain ⟨l', a, ha, e, he, hq⟩ := h
  exact ⟨l || l', a, .inside hb hmem ha, e, he, hq⟩

/-- The expression at the place `q` occurs in one of several expressions or statements. -/
def HeldBy (es : List Expr) (body : List Stmt) (q : Place) : Prop :=
  (∃ e ∈ es, e.Holds q) ∨ ∃ s ∈ body, s.Holds q

theorem HeldBy.mono {es es' : List Expr} {body body' : List Stmt} {q : Place} (h : HeldBy es body q)
    (hes : es ⊆ es') (hbody : body ⊆ body') : HeldBy es' body' q := by
  rcases h with ⟨e, he, hq⟩ | ⟨s, hs, hq⟩
  · exact .inl ⟨e, hes he, hq⟩
  · exact .inr ⟨s, hbody hs, hq⟩

/-! ### Reading in whole -/

/-- Every node of an expression is at a place with the property. -/
def Found (P : Place → Prop) (nodes : List (Place × NodeClass)) : Prop :=
  ∀ n ∈ nodes, n.2.category? = some .expression → P n.1

namespace Found

variable {P Q : Place → Prop} {m n : List (Place × NodeClass)} {p : Place}

theorem mono (h : Found P n) (hPQ : ∀ q, P q → Q q) : Found Q n := fun a ha he => hPQ _ (h a ha he)

theorem append (h : Found P m) (h' : Found P n) : Found P (m ++ n) := forall_mem_append.2 ⟨h, h'⟩

/-- Where declarations or plain values are asked for, there is nothing to be found. -/
theorem quiet {t : Tree} {shape : Shape} (h : Meets shape t) (hd : shape.isDeclarative = true) :
    Found P (t.nodes p) :=
  fun _ hn he => absurd he (no_expression h.wellFormed hd h.hasShape hn)

theorem below {cls : NodeClass} {s : Span} {fields : List Tree}
    (h : Found P (nodesOfFields p cls.fields fields))
    (hcls : cls.category? ≠ some .expression) : Found P ((Tree.node cls s fields).nodes p) := by
  rw [nodes]
  exact forall_mem_cons.2 ⟨fun he => absurd he hcls, h⟩

theorem items {items : List Tree} (k : Nat)
    (h : ∀ (i : Nat) (t : Tree), items[i]? = some t → Found P (t.nodes (p.item (k + i)))) :
    Found P (nodesOfItems p k items) := by
  induction items generalizing k with
  | nil => exact forall_mem_nil _
  | cons t rest ih =>
    refine append (h 0 t rfl) (ih (k + 1) fun i c hc => ?_)
    rw [Nat.succ_add_eq_add_succ]
    exact h (i + 1) c hc

end Found

/--
Expressions and statements are read in whole from a piece of a tree with the given nodes: nothing is
missing in them, and they hold every node of an expression.
-/
structure Whole (es : List Expr) (body : List Stmt) (nodes : List (Place × NodeClass)) : Prop where
  exprs : ∀ e ∈ es, e.Intact
  stmts : Stmt.AllIntact body
  found : Found (HeldBy es body) nodes

namespace Whole

variable {es es' : List Expr} {body body' : List Stmt} {m n : List (Place × NodeClass)} {p : Place}
  {s : Span} {cls : NodeClass} {fields : List Tree}

theorem nil : Whole [] [] [] := ⟨forall_mem_nil _, forall_mem_nil _, forall_mem_nil _⟩

theorem append (h : Whole es body m) (h' : Whole es' body' n) :
    Whole (es ++ es') (body ++ body') (m ++ n) := by
  refine ⟨forall_mem_append.2 ⟨h.exprs, h'.exprs⟩, forall_mem_append.2 ⟨h.stmts, h'.stmts⟩,
    .append ?_ ?_⟩
  · exact h.found.mono fun q hq => hq.mono (subset_append_left _ _) (subset_append_left _ _)
  · exact h'.found.mono fun q hq => hq.mono (subset_append_right _ _) (subset_append_right _ _)

/-- The last field of a node from which something is read. -/
theorem before (h : Whole es body m) (hn : Found (HeldBy es body) n) : Whole es body (m ++ n) :=
  ⟨h.exprs, h.stmts, h.found.append hn⟩

/-- The last field of a node. -/
theorem last (h : Whole es body m) : Whole es body (m ++ []) := h.before (forall_mem_nil _)

/-- Nothing is read where declarations or plain values are asked for. -/
theorem quiet {t : Tree} {shape : Shape} (h : Meets shape t) (hd : shape.isDeclarative = true) :
    Whole [] [] (t.nodes p) :=
  ⟨forall_mem_nil _, forall_mem_nil _, .quiet h hd⟩

theorem below (hcls : cls.category? ≠ some .expression)
    (h : Whole es body (nodesOfFields p cls.fields fields)) :
    Whole es body ((Tree.node cls s fields).nodes p) :=
  ⟨h.exprs, h.stmts, h.found.below hcls⟩

theorem expr {e : Expr} (h : Whole es [] (nodesOfFields p cls.fields fields))
    (hparts : es = e.children)
    (he : e.isIntact = true) (ho : e.origin? = some ⟨p, s⟩) :
    Whole [e] [] ((Tree.node cls s fields).nodes p) := by
  subst hparts
  refine ⟨forall_mem_singleton.2 (Expr.intact_iff.2 ⟨he, h.exprs⟩), forall_mem_nil _, ?_⟩
  rw [nodes]
  refine forall_mem_cons.2 ⟨fun _ => .inl ⟨e, mem_cons_self, e, _, .self, ho, rfl⟩, ?_⟩
  refine h.found.mono fun q hq => ?_
  rcases hq with ⟨c, hc, hq⟩ | ⟨b, hb, -⟩
  · exact .inl ⟨e, mem_cons_self, hq.child hc⟩
  · cases hb

/-- The node of a statement, with its expressions and with the statements in its blocks. -/
theorem stmt {a : Stmt} (hcls : cls.category? ≠ some .expression)
    (h : Whole es body (nodesOfFields p cls.fields fields)) (hes : es = a.exprs)
    (hbody : body = a.blocks.flatMap Prod.snd) (hproper : a.isProper = true)
    (hdeclared : ∀ d ∈ a.declared?, d.Intact) :
    Whole [] [a] ((Tree.node cls s fields).nodes p) := by
  subst hes hbody
  refine below hcls ⟨forall_mem_nil _, forall_mem_singleton.2 (Stmt.intact_iff.2 ⟨?_, ?_⟩), ?_⟩
  · exact ⟨hproper, h.exprs, hdeclared⟩
  · exact fun b hb c hc => h.stmts c (mem_flatMap.2 ⟨b, hb, hc⟩)
  · refine h.found.mono fun q hq => .inr ⟨a, mem_cons_self, ?_⟩
    rcases hq with ⟨e, he, hq⟩ | ⟨c, hc, hq⟩
    · exact ⟨false, a, .self a, e, he, hq⟩
    · obtain ⟨b, hb, hc⟩ := mem_flatMap.1 hc
      exact hq.inside hb hc

theorem stmt_of_parts {a : Stmt} (hcls : cls.category? ≠ some .expression)
    (h : Whole es body (nodesOfFields p cls.fields fields)) (hes : es = a.exprs)
    (hbody : body = a.blocks.flatMap Prod.snd) (hproper : a.isProper = true)
    (hdeclared : a.declared? = none) :
    Whole [] [a] ((Tree.node cls s fields).nodes p) := by
  refine stmt hcls h hes hbody hproper fun d hd => ?_
  rw [hdeclared] at hd
  cases hd

end Whole

/-! ### Expressions -/

namespace Expr

/-- The expression is read from the tree in whole, wherever it stands. -/
def ReadIn (t : Tree) : Prop := ∀ p, Whole [ofTree p t] [] (t.nodes p)

theorem items_read {items : List Tree} (h : ∀ t ∈ items, ReadIn t) (p : Place) (i : Nat) :
    Whole (ofItems p i items) [] (nodesOfItems p i items) := by
  induction items generalizing i with
  | nil => exact .nil
  | cons t rest ih =>
    obtain ⟨ht, hrest⟩ := forall_mem_cons.1 h
    exact (ht _).append (ih hrest _)

theorem entries_read {entries : List (String × Tree)} (h : ∀ e ∈ entries, ReadIn e.2) (p : Place) :
    Whole ((ofEntries p entries).map Prod.snd) [] (nodesOfEntries p entries) := by
  induction entries with
  | nil => exact .nil
  | cons entry rest ih =>
    obtain ⟨ht, hrest⟩ := forall_mem_cons.1 h
    exact (ht _).append (ih hrest)

theorem mapEntries_read {items : List Tree} (hs : ∀ t ∈ items, Meets (.node .mapEntry) t)
    (h : ∀ c, sizeOf c < sizeOf (Tree.list items) → Meets (.category .expression) c → ReadIn c)
    (p : Place)
    (i : Nat) : Whole ((ofMapEntries p i items).flatMap fun e => [e.1, e.2]) []
      (nodesOfItems p i items) := by
  induction items generalizing i with
  | nil => exact .nil
  | cons t rest ih =>
    obtain ⟨ht, hrest⟩ := forall_mem_cons.1 hs
    obtain ⟨s, fields, rfl, hfields⟩ := ht.node
    obtain ⟨key, value, rfl, hkey, hvalue⟩ := fields_two hfields
    have hpart {c} (hc : c ∈ [key, value]) :=
      h c (Nat.lt_trans (sizeOf_field hc) (sizeOf_item mem_cons_self))
    have hentry : Whole _ [] ((Tree.node .mapEntry s [key, value]).nodes (p.item i)) :=
      .below (by decide) ((hpart (by simp) hkey _).append (hpart (by simp) hvalue _).last)
    exact hentry.append (ih hrest (fun c hc => h c (Nat.lt_trans hc (by simp +arith))) _)

/-- **An expression is read in whole from a well-formed tree of one.** -/
theorem read (t : Tree) (he : Meets (.category .expression) t) : ReadIn t := by
  induction t using Tree.induction with
  | step t ih =>
    obtain ⟨cls, s, fields, rfl, hfields, hcls⟩ := he.category
    have part {c} (hc : c ∈ fields) (h : Meets (.category .expression) c) : ReadIn c :=
      ih c (sizeOf_field hc) h
    -- the items of a list are smaller than the list, which is smaller than the node
    have several {items} (hc : Tree.list items ∈ fields)
      (h : ∀ c ∈ items, Meets (.category .expression) c) :
        ∀ c ∈ items, ReadIn c :=
      fun c hci => ih c (sizeOf_listed hci hc) (h c hci)
    intro p
    cases cls with
    | literal =>
      obtain ⟨value, kind, rfl, hvalue, hkind⟩ := fields_two hfields
      obtain ⟨kind, rfl⟩ := hasShape_literalKind.1 hkind.hasShape
      exact .expr ((Whole.quiet hvalue rfl).append (Whole.quiet hkind rfl).last) rfl rfl rfl
    | identifier =>
      obtain ⟨name, rfl, hname⟩ := fields_one hfields
      obtain ⟨name, rfl⟩ := hname.text
      exact .expr .nil rfl rfl rfl
    | binaryOp =>
      obtain ⟨left, op, right, rfl, hleft, hop, hright⟩ := fields_three hfields
      obtain ⟨op, rfl⟩ := hasShape_operator.1 hop.hasShape
      exact .expr ((part (by simp) hleft _).append
        ((Whole.quiet hop rfl).append (part (by simp) hright _).last)) rfl rfl rfl
    | unaryOp =>
      obtain ⟨op, operand, rfl, hop, hoperand⟩ := fields_two hfields
      obtain ⟨op, rfl⟩ := hasShape_operator.1 hop.hasShape
      exact .expr ((Whole.quiet hop rfl).append (part (by simp) hoperand _).last) rfl rfl rfl
    | functionCall =>
      obtain ⟨callee, args, rfl, hcallee, hargs⟩ := fields_two hfields
      obtain ⟨args, rfl, heach⟩ := hargs.list
      exact .expr ((part (by simp) hcallee _).append
        (items_read (several (by simp) heach) _ 0).last) rfl rfl rfl
    | methodCall =>
      obtain ⟨object, method, args, rfl, hobject, hmethod, hargs⟩ := fields_three hfields
      obtain ⟨method, rfl⟩ := hmethod.text
      obtain ⟨args, rfl, heach⟩ := hargs.list
      exact .expr ((part (by simp) hobject _).append
        (Whole.nil.append (items_read (several (by simp) heach) _ 0).last)) rfl rfl rfl
    | memberAccess =>
      obtain ⟨object, name, rfl, hobject, hname⟩ := fields_two hfields
      obtain ⟨name, rfl⟩ := hname.text
      exact .expr ((part (by simp) hobject _).append .nil) rfl rfl rfl
    | indexAccess =>
      obtain ⟨object, i, rfl, hobject, hi⟩ := fields_two hfields
      exact .expr ((part (by simp) hobject _).append (part (by simp) hi _).last) rfl rfl rfl
    | castExpr =>
      obtain ⟨target, operand, rfl, htarget, hoperand⟩ := fields_two hfields
      exact .expr ((Whole.quiet htarget rfl).append (part (by simp) hoperand _).last) rfl
        (TypeExpr.isIntact_ofTree target htarget) rfl
    | listLiteral | setLiteral =>
      obtain ⟨elements, rfl, helements⟩ := fields_one hfields
      obtain ⟨elements, rfl, heach⟩ := helements.list
      exact .expr (items_read (several (by simp) heach) _ 0).last rfl rfl rfl
    | mapLiteral =>
      obtain ⟨entries, rfl, hentries⟩ := fields_one hfields
      obtain ⟨entries, rfl, heach⟩ := hentries.list
      have hlist := mem_singleton_self (Tree.list entries)
      exact .expr (mapEntries_read heach (fun c hc => ih c (Nat.lt_trans hc (sizeOf_field hlist))) _
        0).last rfl rfl rfl
    | structLiteral =>
      obtain ⟨name, values, rfl, hname, hvalues⟩ := fields_two hfields
      obtain ⟨name, rfl⟩ := hname.text
      obtain ⟨values, rfl, heach⟩ := hvalues.object
      have hobject : Tree.object values ∈ [Tree.text name, Tree.object values] := by simp
      have hparts : ∀ e ∈ values, ReadIn e.2 := fun e he =>
        ih e.2 (Nat.lt_trans (sizeOf_entry he) (sizeOf_field hobject)) (heach e he)
      exact .expr (Whole.nil.append (entries_read hparts _).last) rfl rfl rfl
    | _ => cases hcls

theorem optional_read {t : Tree} (h : Meets (.optional (.category .expression)) t) (p : Place) :
    Whole (ofTree? p t).toList [] (t.nodes p) := by
  rcases h.either with he | hnull
  · have hwhole := read t he p
    obtain ⟨cls, s, fields, rfl, -⟩ := he.category
    exact hwhole
  · obtain rfl := hnull.null
    exact .nil

end Expr

/-! ### Statements -/

/-- A variable declaration is read in whole from a well-formed tree of one. -/
theorem VarDecl.read {t : Tree} (h : Meets (.node .varDecl) t) (p : Place) :
    ∃ s fields d, t = .node .varDecl s fields ∧ ofFields? p s fields = some d ∧ d.Intact ∧
      Whole d.initializer.toList [] (nodesOfFields p NodeClass.varDecl.fields fields) := by
  obtain ⟨s, fields, rfl, hfields⟩ := h.node
  obtain ⟨name, type, init, rfl, hname, htype, hinit⟩ := fields_three hfields
  obtain ⟨name, rfl⟩ := hname.text
  have hread := Expr.optional_read hinit (p.field "initializer")
  refine ⟨s, _, _, rfl, rfl, ⟨TypeExpr.isIntact_ofTree? htype, fun e he => ?_⟩, ?_⟩
  · exact hread.exprs e (Option.mem_toList.2 he)
  · exact Whole.nil.append ((Whole.quiet htype rfl).append hread.last)

namespace Stmt

/-- The statement is read from the tree in whole, wherever it stands. -/
def ReadIn (t : Tree) : Prop := ∀ p, Whole [] [ofTree p t] (t.nodes p)

/-- What is asked for where a statement stands. -/
abbrev asked : Shape := .either (.category .statement) (.node .block)

theorem items_read {items : List Tree} (h : ∀ t ∈ items, ReadIn t) (p : Place) (i : Nat) :
    Whole [] (ofItems p i items) (nodesOfItems p i items) := by
  induction items generalizing i with
  | nil => exact .nil
  | cons t rest ih =>
    obtain ⟨ht, hrest⟩ := forall_mem_cons.1 h
    exact (ht _).append (ih hrest _)

section Blocks

-- The statements below a tree of size `n` are taken care of.
variable {n : Nat} (h : ∀ c, sizeOf c < n → Meets asked c → ReadIn c)

include h

theorem block_fields {t : Tree} (hn : sizeOf t ≤ n) (hs : Meets (.node .block) t) :
    ∃ s items, t = .node .block s [.list items] ∧
      ∀ p, Whole [] (ofItems (p.field "statements") 0 items)
        (nodesOfFields p NodeClass.block.fields [.list items]) := by
  obtain ⟨s, fields, rfl, hfields⟩ := hs.node
  obtain ⟨body, rfl, hbody⟩ := fields_one hfields
  obtain ⟨items, rfl, heach⟩ := hbody.list
  have hlist := mem_singleton_self (Tree.list items)
  have hitems : ∀ c ∈ items, ReadIn c := by
    intro c hc
    refine h c ?_ (heach c hc)
    exact Nat.lt_of_lt_of_le (sizeOf_listed hc hlist) hn
  exact ⟨s, items, rfl, fun p => (items_read hitems _ 0).last⟩

theorem block_read {t : Tree} (hn : sizeOf t ≤ n) (hs : Meets (.node .block) t) (p : Place) :
    Whole [] (ofBlock p t) (t.nodes p) := by
  obtain ⟨s, items, rfl, hitems⟩ := block_fields h hn hs
  exact .below (by decide) (hitems p)

theorem optionalBlock_read {t : Tree} (hn : sizeOf t ≤ n) (hs : Meets (.optional (.node .block)) t)
    (p : Place) : Whole [] (ofBlock? p t).toList.flatten (t.nodes p) := by
  rcases hs.either with hb | hnull
  · obtain ⟨s, items, rfl, hitems⟩ := block_fields h hn hb
    rw [ofBlock?, Option.toList_some, flatten_singleton]
    exact .below (by decide) (hitems p)
  · obtain rfl := hnull.null
    exact .nil

theorem branches_read {items : List Tree} (hn : ∀ t ∈ items, sizeOf t ≤ n)
    (hs : ∀ t ∈ items, Meets (.node .elifBranch) t) (p : Place) (i : Nat) :
    Whole ((ofBranches p i items).map Branch.condition) ((ofBranches p i items).flatMap Branch.body)
      (nodesOfItems p i items) := by
  induction items generalizing i with
  | nil => exact .nil
  | cons t rest ih =>
    obtain ⟨ht, hrest⟩ := forall_mem_cons.1 hs
    obtain ⟨hnt, hnrest⟩ := forall_mem_cons.1 hn
    obtain ⟨s, fields, rfl, hfields⟩ := ht.node
    obtain ⟨c, body, rfl, hc, hbody⟩ := fields_two hfields
    have hblock := block_read h (Nat.le_trans (Nat.le_of_lt (sizeOf_field (by simp))) hnt) hbody
    have hbranch : Whole _ _ ((Tree.node .elifBranch s [c, body]).nodes (p.item i)) :=
      .below (by decide) ((Expr.read c hc _).append (hblock _).last)
    exact hbranch.append (ih hnrest hrest _)

theorem cases_read {items : List Tree} (hn : ∀ t ∈ items, sizeOf t ≤ n)
    (hs : ∀ t ∈ items, Meets (.node .matchCase) t) (p : Place) (i : Nat) :
    Whole ((ofCases p i items).flatMap Case.values) ((ofCases p i items).flatMap Case.body)
      (nodesOfItems p i items) := by
  induction items generalizing i with
  | nil => exact .nil
  | cons t rest ih =>
    obtain ⟨ht, hrest⟩ := forall_mem_cons.1 hs
    obtain ⟨hnt, hnrest⟩ := forall_mem_cons.1 hn
    obtain ⟨s, fields, rfl, hfields⟩ := ht.node
    obtain ⟨values, body, rfl, hvalues, hbody⟩ := fields_two hfields
    obtain ⟨values, rfl, heach⟩ := hvalues.list
    have hexprs := Expr.items_read fun c hc => Expr.read c (heach c hc)
    have hblock := block_read h (Nat.le_trans (Nat.le_of_lt (sizeOf_field (by simp))) hnt) hbody
    have hcase : Whole _ _ ((Tree.node .matchCase s [.list values, body]).nodes (p.item i)) :=
      .below (by decide) ((hexprs _ 0).append (hblock _).last)
    rw [append_nil] at hcase
    exact hcase.append (ih hnrest hrest _)

end Blocks

theorem inner_one {l : Bool} {body : List Stmt} : body = [(l, body)].flatMap Prod.snd := by simp

theorem inner_cond {o : Origin} {c : Expr} {body : List Stmt} {more : List Branch}
    {otherwise : Option (List Stmt)} :
    body ++ (more.flatMap Branch.body ++ otherwise.toList.flatten) =
      (Stmt.cond o c body more otherwise).blocks.flatMap Prod.snd := by
  cases otherwise <;> simp [blocks, flatMap_map]

theorem inner_select {o : Origin} {e : Expr} {arms : List Case} {otherwise : Option (List Stmt)} :
    arms.flatMap Case.body ++ otherwise.toList.flatten =
      (Stmt.select o e arms otherwise).blocks.flatMap Prod.snd := by
  cases otherwise <;> simp [blocks, flatMap_map]

/-- **A statement is read in whole from a well-formed tree of one.** -/
theorem read (t : Tree) (hs : Meets asked t) : ReadIn t := by
  induction t using Tree.induction with
  | step t ih =>
    intro p
    rcases hs.either with hstmt | hblock
    case inr =>
        obtain ⟨s, items, rfl, hitems⟩ := block_fields ih (Nat.le_refl _) hblock
        exact .stmt_of_parts (by decide) (hitems p) rfl inner_one rfl rfl
    have hw := hstmt.wellFormed
    obtain ⟨cls, s, fields, rfl, hfields, hcls⟩ := hstmt.category
    have smaller {c} (hc : c ∈ fields) : sizeOf c ≤ sizeOf (Tree.node cls s fields) :=
      Nat.le_of_lt (sizeOf_field hc)
    have smallerItem {items} (hc : Tree.list items ∈ fields) :
        ∀ c ∈ items, sizeOf c ≤ sizeOf (Tree.node cls s fields) :=
      fun c hci => Nat.le_trans (Nat.le_of_lt (sizeOf_item hci)) (smaller hc)
    cases cls with
    | varDecl =>
      obtain ⟨_, _, d, heq, hd, hintact, hread⟩ := VarDecl.read ⟨hw, rfl⟩ p
      cases heq
      rw [ofTree, hd]
      refine .stmt (by decide) hread rfl rfl rfl fun d' hd' => ?_
      cases hd'
      exact hintact
    | assignmentStatement =>
      obtain ⟨target, value, rfl, htarget, hvalue⟩ := fields_two hfields
      exact .stmt_of_parts (by decide) ((Expr.read _ htarget _).append (Expr.read _ hvalue _).last)
        rfl rfl rfl rfl
    | expressionStatement =>
      obtain ⟨e, rfl, he⟩ := fields_one hfields
      exact .stmt_of_parts (by decide) (Expr.read _ he _).last rfl rfl rfl rfl
    | returnStatement | panicStatement =>
      obtain ⟨value, rfl, hvalue⟩ := fields_one hfields
      exact .stmt_of_parts (by decide) (Expr.optional_read hvalue _).last rfl rfl rfl rfl
    | breakStatement | continueStatement | passStatement =>
      obtain rfl := fields_none hfields
      exact .stmt_of_parts (by decide) .nil rfl rfl rfl rfl
    | ifStatement =>
      obtain ⟨c, body, more, otherwise, rfl, hc, hbody, hmore, hotherwise⟩ := fields_four hfields
      obtain ⟨more, rfl, heach⟩ := hmore.list
      exact .stmt_of_parts (by decide) ((Expr.read _ hc _).append
        ((block_read ih (smaller (by simp)) hbody _).append
          ((branches_read ih (smallerItem (by simp)) heach _ 0).append
            (optionalBlock_read ih (smaller (by simp)) hotherwise _).last)))
        (by rw [append_nil]; rfl) inner_cond rfl rfl
    | matchStatement =>
      obtain ⟨subject, arms, otherwise, rfl, hsubject, harms, hotherwise⟩ := fields_three hfields
      obtain ⟨arms, rfl, heach⟩ := harms.list
      exact .stmt_of_parts (by decide) ((Expr.read _ hsubject _).append
        ((cases_read ih (smallerItem (by simp)) heach _ 0).append
          (optionalBlock_read ih (smaller (by simp)) hotherwise _).last))
        (by rw [append_nil]; rfl) inner_select rfl rfl
    | whileStatement =>
      obtain ⟨c, body, rfl, hc, hbody⟩ := fields_two hfields
      exact .stmt_of_parts (by decide)
        ((Expr.read _ hc _).append (block_read ih (smaller (by simp)) hbody _).last)
        rfl inner_one rfl rfl
    | forStatement =>
      obtain ⟨name, iterable, body, rfl, hname, hiterable, hbody⟩ := fields_three hfields
      obtain ⟨name, rfl⟩ := hname.text
      exact .stmt_of_parts (by decide) (Whole.nil.append
        ((Expr.read _ hiterable _).append (block_read ih (smaller (by simp)) hbody _).last))
        rfl inner_one rfl rfl
    | _ => cases hcls

end Stmt

/-! ### Modules -/

theorem FunctionDef.read {t : Tree} (h : Meets (.node .functionDef) t) (p : Place) :
    ∃ f, FunctionDef.ofTree p t = .proper f ∧ f.Intact ∧ Whole [] f.body (t.nodes p) := by
  obtain ⟨s, fields, rfl, hfields⟩ := h.node
  obtain ⟨name, rest, rfl, hname, hrest⟩ := fields_cons hfields
  obtain ⟨name, rfl⟩ := hname.text
  obtain ⟨params, returns, body, receiver, rfl, hparams, hreturns, hbody, hreceiver⟩ :=
    fields_four hrest
  obtain ⟨params, rfl, heach⟩ := hparams.list
  have hblock := Stmt.block_read (fun c _ => Stmt.read c) (Nat.le_refl _) hbody (p.field "body")
  refine ⟨_, rfl, ⟨Param.isIntact_ofItems (.inl rfl) heach _, TypeExpr.isIntact_ofTree? hreturns,
    hblock.stmts, ?_⟩, .below (by decide) ?_⟩
  · rcases hreceiver.either with hparam | hnull
    · have hparam' := Param.isIntact_ofTree (.inl rfl) hparam (p.field "receiver")
      obtain ⟨s', fields', rfl, -⟩ := hparam.node
      intro q hq
      cases hq
      exact hparam'
    · obtain rfl := hnull.null
      intro q hq
      cases hq
  · exact Whole.nil.append ((Whole.quiet hparams rfl).append ((Whole.quiet hreturns rfl).append
      (hblock.before ((Found.quiet hreceiver rfl).append (forall_mem_nil _)))))

/-- The expression occurs in an initializer or a function body of the module. -/
inductive Module.Mentions (m : Module) (a : Expr) : Prop
  | initializer {d : VarDecl} {e : Expr} (hd : .proper d ∈ m.vars) (he : d.initializer = some e)
      (ha : a.Occurs e)
  | body {f : FunctionDef} {l : Bool} {s : Stmt} {e : Expr} (hf : .proper f ∈ m.functions)
      (hs : Stmt.OccursIn l s f.body) (he : e ∈ s.exprs) (ha : a.Occurs e)

/-- The expression at the place `q` occurs in an initializer or a function body of the module. -/
def Module.Holds (m : Module) (q : Place) : Prop :=
  ∃ (a : Expr) (o : Origin), m.Mentions a ∧ a.origin? = some o ∧ o.place = q

theorem Module.Holds.initializer {m : Module} {d : VarDecl} {q : Place} (hd : .proper d ∈ m.vars)
    (h : HeldBy d.initializer.toList [] q) : m.Holds q := by
  rcases h with ⟨e, he, a, o, ha, ho, hq⟩ | ⟨s, hs, -⟩
  · exact ⟨a, o, .initializer hd (Option.mem_toList.1 he) ha, ho, hq⟩
  · cases hs

theorem Module.Holds.body {m : Module} {f : FunctionDef} {q : Place} (hf : .proper f ∈ m.functions)
    (h : HeldBy [] f.body q) : m.Holds q := by
  rcases h with ⟨e, he, -⟩ | ⟨b, hb, l, s, hs, e, he, a, o, ha, ho, hq⟩
  · cases he
  · exact ⟨a, o, .body hf ⟨b, hb, hs⟩ he ha, ho, hq⟩

/-- **A module is read in whole from a well-formed tree of one.** -/
theorem Module.read {t : Tree} (h : Meets (.node .compilationUnit) t) (p : Place) :
    ∃ m, Module.ofTree? p t = some m ∧ m.Intact ∧ Found m.Holds (t.nodes p) := by
  obtain ⟨s, fields, rfl, hfields⟩ := h.node
  obtain ⟨name, types, vars, functions, rfl, hname, htypes, hvars, hfunctions⟩ :=
    fields_four hfields
  obtain ⟨types, rfl, htype⟩ := htypes.list
  obtain ⟨vars, rfl, hvar⟩ := hvars.list
  obtain ⟨functions, rfl, hfunction⟩ := hfunctions.list
  have hdecl {c} (hc : c ∈ vars) (q : Place) : ∃ d, VarDecl.ofTree q c = .proper d ∧ d.Intact ∧
      Whole d.initializer.toList [] (c.nodes q) := by
    obtain ⟨s', fields, d, rfl, hd, hintact, hread⟩ := VarDecl.read (hvar c hc) q
    exact ⟨d, by rw [VarDecl.ofTree, hd], hintact, .below (by decide) hread⟩
  refine ⟨_, rfl, ⟨fun entry hentry => ?_, fun entry hentry => ?_, fun entry hentry => ?_⟩, ?_⟩
  · obtain ⟨i, hi, rfl⟩ := mem_mapIdx.1 hentry
    exact TypeDecl.intact_ofTree _ (htype _ (getElem_mem hi))
  · obtain ⟨i, hi, rfl⟩ := mem_mapIdx.1 hentry
    obtain ⟨d, hd, hintact, -⟩ := hdecl (getElem_mem hi) ((p.field "variables").item i)
    exact ⟨d, hd, hintact⟩
  · obtain ⟨i, hi, rfl⟩ := mem_mapIdx.1 hentry
    obtain ⟨f, hf, hintact, -⟩ :=
      FunctionDef.read (hfunction _ (getElem_mem hi)) ((p.field "functions").item i)
    exact ⟨f, hf, hintact⟩
  · refine Found.below (.append (.quiet hname rfl)
      (.append (.quiet htypes rfl) (.append (.items 0 fun i c hc => ?_)
      (.append (.items 0 fun i c hc => ?_) (forall_mem_nil _))))) (by decide)
    · obtain ⟨d, hd, -, hread⟩ := hdecl (mem_of_getElem? hc) ((p.field "variables").item (0 + i))
      refine hread.found.mono fun q => .initializer (mem_iff_getElem?.2 ⟨i, ?_⟩)
      rw [getElem?_mapIdx, hc, Option.map_some, ← hd, Nat.zero_add]
    · obtain ⟨f, hf, -, hread⟩ := FunctionDef.read (hfunction c (mem_of_getElem? hc))
        ((p.field "functions").item (0 + i))
      refine hread.found.mono fun q => .body (mem_iff_getElem?.2 ⟨i, ?_⟩)
      rw [getElem?_mapIdx, hc, Option.map_some, ← hf, Nat.zero_add]

/-- **A well-formed tree of a module is read as one, and nothing is missing in it.** -/
theorem Module.intact_ofTree? {t : Tree} (hw : t.wellFormed = true)
    (hs : hasShape (.node .compilationUnit) t = true) (p : Place) :
    ∃ m, Module.ofTree? p t = some m ∧ m.Intact := by
  obtain ⟨m, hm, hintact, -⟩ := Module.read ⟨hw, hs⟩ p
  exact ⟨m, hm, hintact⟩

/-- **Every node of an expression in a well-formed module is read**, in an initializer or a body. -/
theorem Module.complete {p : Place} {t : Tree} {m : Module} (hw : t.wellFormed = true)
    (h : Module.ofTree? p t = some m) : Found m.Holds (t.nodes p) := by
  have hs : hasShape (.node .compilationUnit) t = true := by
    unfold Module.ofTree? at h
    split at h
    · rfl
    · cases h
  obtain ⟨m', hm, -, hfound⟩ := Module.read ⟨hw, hs⟩ p
  obtain rfl := Option.some.inj (h.symm.trans hm)
  exact hfound

end TreeTyping
