/-
Trees made by constructors.

A constructor checks little of what it is given: names, statements and members are put into a node
as they are.  What makes the nodes fit their classes is that every parameter takes values of one
kind: `asked` says for each constructor what the kinds are.  A tree is built when it is what a
constructor makes of values of these kinds, where the nodes among them have been built before.

Built trees are composed: every node has what its class asks for, except that a block may stand
where a statement is asked for.  The proof goes along the constructors.  There is one lemma for each
way in which plain values are turned into nodes, one for nodes of several such parts, and a last one
about the table, which names the part for each field.
-/
import TreeTyping.Proofs.Tree.Loaded
import TreeTyping.Tree.Constructor

namespace TreeTyping

open List

/-- What holds of two tables of the same names, entry by entry, holds of what is found in them. -/
theorem Keyed.find?_forall₂ {α β : Type} {R : α → β → Prop} {xs : Keyed α} {ys : Keyed β}
    (h : List.Forall₂ (fun x y => x.1 = y.1 ∧ R x.2 y.2) xs ys) {name : String} {a : α} {b : β}
    (ha : xs.find? name = some a) (hb : ys.find? name = some b) : R a b := by
  induction h with
  | nil => cases ha
  | cons hxy _ ih =>
    obtain ⟨hname, hR⟩ := hxy
    rw [find?] at ha hb
    split at ha
    · next hfound =>
        rw [if_pos (hname ▸ hfound)] at hb
        cases ha
        cases hb
        exact hR
    · next hother =>
        rw [if_neg (hname ▸ hother)] at hb
        exact ih ha hb

/-- Whether a shape asks for a node. -/
def Shape.asksNode : Shape → Bool
  | .category _ | .node _ => true
  | .either first second => first.asksNode && second.asksNode
  | _ => false

namespace Tree

/-! ### Composed trees -/

/-- Whether a value is a node. -/
def isNode : Tree → Bool
  | .node _ _ _ => true
  | _ => false

/--
Every node of a tree fits its class, blocks counting as statements, and every literal its kind.  In
lists and objects there are nodes alone.
-/
inductive Composed : Tree → Prop
  | node {cls : NodeClass} {s : Span} {fields : List Tree}
      (hfits : List.Forall₂ (fun spec v => hasShape spec.shape.withBlocks v = true)
        cls.fields fields)
      (hliteral : checkLiteral cls fields = .ok ()) (hfields : ∀ v ∈ fields, Composed v) :
      Composed (.node cls s fields)
  | list {items : List Tree} (hnodes : ∀ t ∈ items, t.isNode = true)
      (hitems : ∀ t ∈ items, Composed t) : Composed (.list items)
  | object {entries : List (String × Tree)} (hnodes : ∀ e ∈ entries, e.2.isNode = true)
      (hentries : ∀ e ∈ entries, Composed e.2) : Composed (.object entries)
  | null : Composed .null
  | bool (b : Bool) : Composed (.bool b)
  | int (n : Int) : Composed (.int n)
  | float (x : Binary64) : Composed (.float x)
  | text (s : String) : Composed (.text s)
  | operator (op : Operator) : Composed (.operator op)
  | literalKind (kind : LiteralKind) : Composed (.literalKind kind)

theorem isNode_of_shape {shape : Shape} (hshape : shape.asksNode = true) {t : Tree}
    (h : hasShape shape.withBlocks t = true) : t.isNode = true := by
  induction shape with
  | category c =>
    cases c with
    | statement =>
      rcases hasShape_either.1 h with h | h
      · obtain ⟨_, _, _, rfl, -⟩ := hasShape_category.1 h
        rfl
      · obtain ⟨_, _, rfl⟩ := hasShape_node.1 h
        rfl
    | _ =>
      obtain ⟨_, _, _, rfl, -⟩ := hasShape_category.1 h
      rfl
  | node cls =>
    obtain ⟨_, _, rfl⟩ := hasShape_node.1 h
    rfl
  | either first second ihfirst ihsecond =>
    obtain ⟨hfirst, hsecond⟩ := Bool.and_eq_true_iff.1 hshape
    exact (hasShape_either.1 h).elim (ihfirst hfirst) (ihsecond hsecond)
  | _ => cases hshape

/-- A value can stand in a field of the given shape. -/
def Fills (shape : Shape) (v : Tree) : Prop := hasShape shape.withBlocks v = true ∧ Composed v

theorem Composed.of_fills {cls : NodeClass} {s : Span} {fields : List Tree}
    (h : List.Forall₂ (fun spec v => Fills spec.shape v) cls.fields fields)
    (hliteral : checkLiteral cls fields = .ok ()) : Composed (.node cls s fields) := by
  refine .node (h.imp fun _ _ hv => hv.1) hliteral ?_
  clear hliteral
  generalize cls.fields = specs at h
  induction h with
  | nil => exact forall_mem_nil _
  | cons hv _ ih => exact forall_mem_cons.2 ⟨hv.2, ih⟩

namespace Fills

variable {shape : Shape} {v : Tree}

theorem of_shape (hshape : hasShape shape v = true) (hv : Composed v) : Fills shape v :=
  ⟨hasShape_withBlocks hshape, hv⟩

theorem text (s : String) : Fills .text (.text s) := ⟨rfl, .text s⟩

theorem list (hshape : shape.asksNode = true) {items : List Tree} (h : ∀ t ∈ items, Fills shape t) :
    Fills (.list shape) (.list items) :=
  ⟨hasShape_list.2 ⟨items, rfl, fun t ht => (h t ht).1⟩,
    .list (fun t ht => isNode_of_shape hshape (h t ht).1) fun t ht => (h t ht).2⟩

theorem object (hshape : shape.asksNode = true) {entries : List (String × Tree)}
    (h : ∀ e ∈ entries, Fills shape e.2) : Fills (.object shape) (.object entries) :=
  ⟨hasShape_object.2 ⟨entries, rfl, fun e he => (h e he).1⟩,
    .object (fun e he => isNode_of_shape hshape (h e he).1) fun e he => (h e he).2⟩

theorem given (h : Fills shape v) : Fills shape.optional v := ⟨hasShape_either.2 (.inl h.1), h.2⟩

theorem absent : Fills shape.optional .null := ⟨hasShape_either.2 (.inr rfl), .null⟩

end Fills

/-! ### Kinds of arguments -/

/-- What a parameter of a constructor takes. -/
inductive Kind where
  | null
  | text
  /-- A text, number or truth value. -/
  | plain
  | operator
  /-- A span, a line number or nothing. -/
  | span
  /-- A node of the given shape that has been made before. -/
  | node (shape : Shape)
  | list (item : Kind)
  | pair (first second : Kind)
  /-- Values under names. -/
  | keyed (value : Kind)
  | either (first second : Kind)

namespace Kind

/-- An expression, the name of a variable or the value of a literal. -/
def expr : Kind := .either (.node (.category .expression)) .plain

/-- An annotation or a type string. -/
def type : Kind := .either (.node (.category .typeNode)) .text

/-- A statement or block. -/
def statement : Kind := .node (.either (.category .statement) (.node .block))

/-- A block or a list of statements. -/
def body : Kind := .either (.node (.node .block)) (.list statement)

/-- Names with their types. -/
def named : Kind := .either (.keyed type) (.list (.pair .text type))

def optional (kind : Kind) : Kind := .either kind .null

/-- A value is of a kind, where the nodes that are given have a property. -/
def Admits (P : Tree → Prop) : Kind → Tree → Prop
  | .null, t => t = .null
  | .text, t => ∃ s, t = .text s
  | .plain, t => (∃ s, t = .text s) ∨ (∃ n, t = .int n) ∨ (∃ x, t = .float x) ∨ ∃ b, t = .bool b
  | .operator, t => ∃ op, t = .operator op
  | .span, t => t = .null ∨ (∃ n, t = .int n) ∨ (∃ b, t = .bool b) ∨ ∃ s, t = .location s
  | .node shape, t => hasShape shape t = true ∧ P t
  | .list item, t => ∃ items, t = .list items ∧ ∀ i ∈ items, item.Admits P i
  | .pair first second, t => ∃ a b, t = .list [a, b] ∧ first.Admits P a ∧ second.Admits P b
  | .keyed value, t => ∃ entries, t = .object entries ∧ ∀ e ∈ entries, value.Admits P e.2
  | .either first second, t => first.Admits P t ∨ second.Admits P t

end Kind

theorem Fills.of_text {t : Tree} (h : Kind.text.Admits Composed t) : Fills .text t := by
  obtain ⟨s, rfl⟩ := h
  exact .text s

theorem Fills.of_node {shape : Shape} {t : Tree} (h : (Kind.node shape).Admits Composed t) :
    Fills shape t :=
  .of_shape h.1 h.2

theorem Fills.of_optional_text {t : Tree} (h : (Kind.optional .text).Admits Composed t) :
    Fills (Shape.optional .text) t := by
  rcases h with h | rfl
  · exact (Fills.of_text h).given
  · exact .absent

/-! ### Plain values as nodes -/

end Tree

mutual

theorem TypeText.toTree_fills (s : Span) :
    ∀ written : TypeText, Tree.Fills (.category .typeNode) (written.toTree s)
  | .named name => .of_shape rfl (.of_fills (.cons (.text name) .nil) rfl)
  | .applied head args length => by
      have hargs : Tree.Fills (.list (.category .typeNode)) (.list (toTrees s args)) :=
        .list rfl (toTrees_fills s args)
      cases length with
      | none =>
        exact .of_shape rfl (.of_fills (.cons (.text head) (.cons hargs (.cons .absent .nil))) rfl)
      | some n =>
        exact .of_shape rfl (.of_fills
          (.cons (.text head) (.cons hargs (.cons (.given ⟨rfl, .int n⟩) .nil))) rfl)

theorem TypeText.toTrees_fills (s : Span) :
    ∀ args : List TypeText, ∀ t ∈ toTrees s args, Tree.Fills (.category .typeNode) t
  | [] => forall_mem_nil _
  | written :: rest => forall_mem_cons.2 ⟨toTree_fills s written, toTrees_fills s rest⟩

end

namespace Tree.Make

/-! ### Nodes of several parts -/

/-- Parts are made one after the other, and then something of all of them. -/
def inTurn : List Made → (List Tree → Made) → Made
  | [], make => make []
  | part :: rest, make => part >>= fun v => inTurn rest fun vs => make (v :: vs)

theorem inTurn_yields {specs : List FieldSpec} {parts : List Made} {make : List Tree → Made}
    {P : Tree → Prop}
    (h : List.Forall₂ (fun spec part => Except.Yields part (Fills spec.shape)) specs parts)
    (hmake : ∀ fields, List.Forall₂ (fun spec v => Fills spec.shape v) specs fields →
      Except.Yields (make fields) P) :
    Except.Yields (inTurn parts make) P := by
  induction h generalizing make with
  | nil => exact hmake [] .nil
  | cons hpart _ ih => exact hpart.bind fun v hv => ih fun vs hvs => hmake (v :: vs) (.cons hv hvs)

variable {span t : Tree}

/-- A node can stand where its class is asked for, if its parts can stand in its fields. -/
theorem fills_yields (cls : NodeClass) (hcls : (cls == .literal) = false) {shape : Shape}
    {parts : List Made} (hshape : ∀ s fields, hasShape shape (.node cls s fields) = true)
    (h : List.Forall₂ (fun spec part => Except.Yields part (Fills spec.shape)) cls.fields parts) :
    Except.Yields (spanOf span >>= fun s => inTurn parts fun fields => .ok (.node cls s fields))
      (Fills shape) := by
  refine .skip fun s => inTurn_yields h fun fields hfields =>
    .ok (.of_shape (hshape s fields) (.of_fills hfields ?_))
  cases cls with
  | literal => cases hcls
  | _ => rfl

theorem node_yields (cls : NodeClass) (hcls : (cls == .literal) = false) {parts : List Made}
    (h : List.Forall₂ (fun spec part => Except.Yields part (Fills spec.shape)) cls.fields parts) :
    Except.Yields (spanOf span >>= fun s => inTurn parts fun fields => .ok (.node cls s fields))
      Composed :=
  fun v hv => (fills_yields cls hcls (fun s fields => hasShape_node.2 ⟨s, fields, rfl⟩) h v hv).2

/-! ### Types and expressions -/

theorem typeRef_yields (h : Kind.type.Admits Composed t) :
    Except.Yields (typeRef t span) (Fills (.category .typeNode)) := by
  rcases h with ⟨hshape, ht⟩ | ⟨s, rfl⟩
  · obtain ⟨cls, s, fields, rfl, hcls⟩ := hasShape_category.1 hshape
    cases cls with
    | simpleType | genericType => exact .ok (.of_shape hshape ht)
    | _ => cases hcls
  · refine .skip fun s' => ?_
    split
    · exact .ok (TypeText.toTree_fills s' _)
    · exact .error _

theorem typeOrNull_yields (h : Kind.type.optional.Admits Composed t) :
    Except.Yields (typeOrNull t span) (Fills (Shape.optional (.category .typeNode))) := by
  rcases h with h | rfl
  · rw [typeOrNull]
    · exact fun v hv => (typeRef_yields h v hv).given
    · rintro rfl
      rcases h with ⟨hshape, -⟩ | ⟨s, hs⟩
      · cases hshape
      · cases hs
  · exact .ok .absent

theorem literal_yields (value : Tree) :
    Except.Yields (literal value span) (Fills (.category .expression)) := by
  have hmade {kind : LiteralKind}
    (hshape : Fills (.either .int (.either .float (.either .text .bool))) value)
      (h : literalMatches kind value = true) :
      Except.Yields (do return .node .literal (← spanOf span) [value, .literalKind kind] : Made)
        (Fills (.category .expression)) := by
    refine .skip fun s => .ok
      (.of_shape rfl (.of_fills (.cons hshape (.cons ⟨rfl, .literalKind kind⟩ .nil)) ?_))
    rw [checkLiteral, if_pos h]
  cases value with
  | bool b => exact hmade ⟨rfl, .bool b⟩ rfl
  | int n => exact hmade ⟨rfl, .int n⟩ rfl
  | float x => exact hmade ⟨rfl, .float x⟩ rfl
  | text s => exact hmade ⟨rfl, .text s⟩ rfl
  | _ => exact .error _

theorem identifier_yields (h : Kind.text.Admits Composed t) :
    Except.Yields (identifier t span) (Fills (.category .expression)) :=
  fills_yields .identifier rfl (fun _ _ => rfl) (.cons (.ok (.of_text h)) .nil)

theorem expr_yields (h : Kind.expr.Admits Composed t) :
    Except.Yields (expr t span) (Fills (.category .expression)) := by
  rcases h with ⟨hshape, ht⟩ | ⟨s, rfl⟩ | ⟨n, rfl⟩ | ⟨x, rfl⟩ | ⟨b, rfl⟩
  · obtain ⟨cls, s, fields, rfl, hcls⟩ := hasShape_category.1 hshape
    rw [expr, hcls]
    exact .ok (.of_shape hshape ht)
  · exact identifier_yields ⟨s, rfl⟩
  · exact literal_yields (.int n)
  · exact literal_yields (.float x)
  · exact literal_yields (.bool b)

theorem exprOrNull_yields (h : Kind.expr.optional.Admits Composed t) :
    Except.Yields (exprOrNull t span) (Fills (Shape.optional (.category .expression))) := by
  rcases h with h | rfl
  · rw [exprOrNull]
    · exact fun v hv => (expr_yields h v hv).given
    · rintro rfl
      rcases h with ⟨hshape, -⟩ | ⟨_, h⟩ | ⟨_, h⟩ | ⟨_, h⟩ | ⟨_, h⟩
      · cases hshape
      all_goals cases h
  · exact .ok .absent

theorem exprs_yields {values : List Tree} (h : ∀ v ∈ values, Kind.expr.Admits Composed v) :
    Except.Yields (exprs values span) (Fills (.list (.category .expression))) :=
  (Except.Yields.mapM fun v hv => expr_yields (h v hv)).bind fun _ hvs => .ok (.list rfl hvs)

theorem operatorOf_yields (t : Tree) : Except.Yields (operatorOf t) (Fills .operator) := by
  unfold operatorOf
  split
  · next op => exact .ok ⟨rfl, .operator op⟩
  · split
    · next op _ => exact .ok ⟨rfl, .operator op⟩
    · exact .error _
  · exact .error _

/-- What is made of names and types has a property that it has of every name with its type. -/
theorem mapNamed_yields {make : Tree → Tree → Made} {P : Tree → Prop}
    (h : Kind.named.Admits Composed t)
    (hmake : ∀ name type, Kind.text.Admits Composed name → Kind.type.Admits Composed type →
      Except.Yields (make name type) P) :
    Except.Yields (mapNamed make t) fun ts => ∀ t ∈ ts, P t := by
  rcases h with ⟨entries, rfl, hentries⟩ | ⟨items, rfl, hitems⟩
  · exact .mapM fun e he => hmake (.text e.1) e.2 ⟨e.1, rfl⟩ (hentries e he)
  · refine .mapM fun item hitem => ?_
    obtain ⟨name, type, rfl, hname, htype⟩ := hitems item hitem
    exact hmake name type hname htype

/-! ### Blocks and parameters -/

theorem block_yields {statements : List Tree}
    (h : ∀ s ∈ statements, Kind.statement.Admits Composed s) :
    Except.Yields (block statements span) (Fills (.node .block)) :=
  fills_yields .block rfl (fun _ _ => rfl) (.cons (.ok (.list rfl h)) .nil)

theorem blockOf_yields (h : Kind.body.Admits Composed t) :
    Except.Yields (blockOf t span) (Fills (.node .block)) := by
  rcases h with ⟨hshape, ht⟩ | ⟨statements, rfl, hstatements⟩
  · obtain ⟨s, fields, rfl⟩ := hasShape_node.1 hshape
    exact .ok (.of_shape hshape ht)
  · exact block_yields hstatements

theorem blockOrNull_yields (h : Kind.body.optional.Admits Composed t) :
    Except.Yields (blockOrNull t span) (Fills (Shape.optional (.node .block))) := by
  rcases h with h | rfl
  · rw [blockOrNull]
    · exact fun v hv => (blockOf_yields h v hv).given
    · rintro rfl
      rcases h with ⟨hshape, -⟩ | ⟨_, h, -⟩
      · cases hshape
      · cases h
  · exact .ok .absent

theorem parameter_yields {name : Tree} (hname : Kind.text.Admits Composed name)
    (h : Kind.type.Admits Composed t) :
    Except.Yields (parameter name t span) (Fills (.node .parameter)) :=
  fills_yields .parameter rfl (fun _ _ => rfl)
    (.cons (.ok (.of_text hname)) (.cons (typeRef_yields h) .nil))

theorem parameters_yields (h : Kind.named.Admits Composed t) :
    Except.Yields (parameters t span) (Fills (.list (.node .parameter))) :=
  (mapNamed_yields h fun _ _ => parameter_yields).bind fun _ hparams => .ok (.list rfl hparams)

theorem field_yields {name : Tree} (hname : Kind.text.Admits Composed name)
    (h : Kind.type.Admits Composed t) :
    Except.Yields (field name t span) (Fills (.node .fieldDecl)) :=
  fills_yields .fieldDecl rfl (fun _ _ => rfl)
    (.cons (.ok (.of_text hname)) (.cons (typeRef_yields h) .nil))

theorem functionWith_yields {name params returns body receiver : Tree}
    (hname : Kind.text.Admits Composed name)
    (hparams : Kind.named.Admits Composed params)
    (hreturns : Kind.type.optional.Admits Composed returns)
    (hbody : (Kind.list .statement).Admits Composed body)
    (hreceiver : Fills (Shape.optional (.node .parameter)) receiver) :
    Except.Yields (functionWith name params returns body span receiver) Composed := by
  obtain ⟨statements, rfl, hstatements⟩ := hbody
  exact node_yields .functionDef rfl
    (.cons (.ok (.of_text hname)) (.cons (parameters_yields hparams)
    (.cons (typeOrNull_yields hreturns)
      (.cons (block_yields hstatements) (.cons (.ok hreceiver) .nil)))))

/-! ### Constructors with arguments to be taken apart -/

theorem method_yields {name params returns receiver body : Tree}
    (hreceiver : (Kind.pair .text .text).Admits Composed receiver)
    (hname : Kind.text.Admits Composed name)
    (hparams : Kind.named.Admits Composed params)
    (hreturns : Kind.type.optional.Admits Composed returns)
    (hbody : (Kind.list .statement).Admits Composed body) :
    Except.Yields (method receiver name params returns body span) Composed := by
  obtain ⟨label, type, rfl, hlabel, htype⟩ := hreceiver
  exact .skip fun _ => (parameter_yields hlabel (.inr htype)).bind fun _ hreceiver =>
    functionWith_yields hname hparams hreturns hbody hreceiver.given

theorem mapLiteral_yields (h : (Kind.list (.pair .expr .expr)).Admits Composed t) :
    Except.Yields (mapLiteral t span) Composed := by
  obtain ⟨items, rfl, hitems⟩ := h
  refine .skip fun s => Except.Yields.bind
    (.mapM (Q := Fills (.node .mapEntry)) fun item hitem => ?_) fun _ hentries =>
    .ok (.of_fills (.cons (.list rfl hentries) .nil) rfl)
  obtain ⟨key, value, rfl, hkey, hvalue⟩ := hitems item hitem
  exact (expr_yields hkey).bind fun _ hkey => (expr_yields hvalue).bind fun _ hvalue =>
    .ok (.of_shape rfl (.of_fills (.cons hkey (.cons hvalue .nil)) rfl))

theorem structLiteral_yields {name : Tree} {fields : List (String × Tree)}
    (hname : Kind.text.Admits Composed name)
    (hfields : ∀ f ∈ fields, Kind.expr.Admits Composed f.2) :
    Except.Yields (structLiteral name span fields) Composed :=
  .skip fun _ => Except.Yields.bind
    (.mapM (Q := fun f => Fills (.category .expression) f.2) fun f hf =>
    (expr_yields (hfields f hf)).bind fun _ hv => .ok hv) fun _ hfields =>
      .ok (.of_fills (.cons (.of_text hname) (.cons (.object rfl hfields) .nil)) rfl)

theorem ifStatement_yields {condition first elifs otherwise : Tree}
    (hcondition : Kind.expr.Admits Composed condition)
    (hfirst : Kind.body.Admits Composed first)
    (helifs : (Kind.list (.node (.node .elifBranch))).Admits Composed elifs)
    (hotherwise : Kind.body.optional.Admits Composed otherwise) :
    Except.Yields (ifStatement condition first elifs otherwise span) Composed := by
  obtain ⟨branches, rfl, hbranches⟩ := helifs
  exact node_yields .ifStatement rfl (.cons (expr_yields hcondition) (.cons (blockOf_yields hfirst)
    (.cons (.ok (.list rfl fun b hb => .of_node (hbranches b hb)))
      (.cons (blockOrNull_yields hotherwise) .nil))))

theorem matchCase_yields {values : Tree} {body : List Tree}
    (hvalues : (Kind.list .expr).Admits Composed values)
    (hbody : ∀ s ∈ body, Kind.statement.Admits Composed s) :
    Except.Yields (matchCase values body span) Composed := by
  obtain ⟨items, rfl, hitems⟩ := hvalues
  exact node_yields .matchCase rfl (.cons (exprs_yields hitems) (.cons (block_yields hbody) .nil))

theorem matchStatement_yields {value cases default : Tree}
    (hvalue : Kind.expr.Admits Composed value)
    (hcases : (Kind.list (.node (.node .matchCase))).Admits Composed cases)
    (hdefault : Kind.body.optional.Admits Composed default) :
    Except.Yields (matchStatement value cases default span) Composed := by
  obtain ⟨arms, rfl, harms⟩ := hcases
  exact node_yields .matchStatement rfl (.cons (expr_yields hvalue)
    (.cons (.ok (.list rfl fun c hc => .of_node (harms c hc)))
      (.cons (blockOrNull_yields hdefault) .nil)))

theorem struct_yields {name fields : Tree} (hname : Kind.text.Admits Composed name)
    (hfields : Kind.named.Admits Composed fields) :
    Except.Yields (struct name fields span) Composed :=
  .skip fun _ => (mapNamed_yields hfields fun _ _ => field_yields).bind fun _ hfields =>
    .ok (.of_fills (.cons (.of_text hname) (.cons (.list rfl hfields) .nil)) rfl)

/-! ### Modules -/

/-- The declarations that have been sorted can stand in the fields of a module. -/
structure Sorted.Fills (sorted : Sorted) : Prop where
  types : ∀ d ∈ sorted.types,
    Tree.Fills (.either (.node .typeAliasDecl) (.either (.node .structDecl) (.node .interfaceDecl)))
      d
  vars : ∀ d ∈ sorted.vars, Tree.Fills (.node .varDecl) d
  functions : ∀ d ∈ sorted.functions, Tree.Fills (.node .functionDef) d

theorem Sorted.push_fills {sorted : Sorted} (h : sorted.Fills) {decl : Tree}
    (hdecl : Composed decl) : Except.Yields (sorted.push decl) Sorted.Fills := by
  have hpushed {decls : List Tree} {shape : Shape} (hdecls : ∀ d ∈ decls, Tree.Fills shape d)
      (hshape : hasShape shape decl = true) : ∀ d ∈ decls ++ [decl], Tree.Fills shape d :=
    forall_mem_append.2 ⟨hdecls, forall_mem_singleton.2 (.of_shape hshape hdecl)⟩
  unfold push
  split
  · exact .ok ⟨hpushed h.types rfl, h.vars, h.functions⟩
  · exact .ok ⟨hpushed h.types rfl, h.vars, h.functions⟩
  · exact .ok ⟨hpushed h.types rfl, h.vars, h.functions⟩
  · exact .ok ⟨h.types, hpushed h.vars rfl, h.functions⟩
  · exact .ok ⟨h.types, h.vars, hpushed h.functions rfl⟩
  · exact .error _

theorem compilationUnit_yields {decls : List Tree} {name : Tree} (hdecls : ∀ d ∈ decls, Composed d)
    (hname : Fills (Shape.optional .text) name) : Except.Yields (compilationUnit decls name span)
      Composed := by
  refine .skip fun s => Except.Yields.bind (P := Sorted.Fills) (fun sorted hsorted => ?_)
    fun sorted h => .ok ?_
  · refine Except.foldlM_invariant (P := fun _ sorted => Sorted.Fills sorted)
      (fun _ d _ _ _ hsplit h hstep => ?_)
      ⟨forall_mem_nil _, forall_mem_nil _, forall_mem_nil _⟩ hsorted
    have hd : d ∈ decls := hsplit ▸ mem_append_right _ mem_cons_self
    exact Sorted.push_fills h (hdecls d hd) _ hstep
  · exact .of_fills (.cons hname (.cons (.list rfl h.types) (.cons (.list rfl h.vars)
      (.cons (.list rfl h.functions) .nil)))) rfl

end Tree.Make

/-! ### The table of constructors -/

namespace Tree

/-- The kinds of a constructor's parameters, of further arguments and of those of other names. -/
structure Asked where
  values : Keyed Kind
  rest : Kind := .null
  extra : Kind := .null

/-- Arguments are of the kinds asked for, where the nodes that are given have a property. -/
structure Asked.Takes (P : Tree → Prop) (asked : Asked) (a : Arguments) : Prop where
  values : ∀ p ∈ asked.values, p.2.Admits P (a.get p.1)
  rest : ∀ t ∈ a.rest, asked.rest.Admits P t
  extra : ∀ e ∈ a.extra, asked.extra.Admits P e.2

/-- A constructor with a fixed number of parameters, the span among them. -/
def Asked.fixed (values : Keyed Kind) : Asked := { values := values ++ [("span", .span)] }

/-- A constructor that takes any number of further arguments. -/
def Asked.variadic (values : Keyed Kind) (rest : Kind) :
    Asked := { values := values ++ [("span", .span)], rest }

/-- What can be declared in a module. -/
def Kind.declaration : Kind :=
  .node (.either (.either (.node .typeAliasDecl) (.either (.node .structDecl)
  (.node .interfaceDecl))) (.either (.node .varDecl) (.node .functionDef)))

/-- What every constructor asks for. -/
def asked : Keyed Asked :=
  [("type_ref", .fixed [("t", .type)]),
   ("lit", .fixed [("value", .plain)]),
   ("ident", .fixed [("name", .text)]),
   ("binop", .fixed [("left", .expr), ("op", .either .operator .text), ("right", .expr)]),
   ("unary", .fixed [("op", .either .operator .text), ("operand", .expr)]),
   ("call", .variadic [("name", .text)] .expr),
   ("method_call", .variadic [("obj", .expr), ("name", .text)] .expr),
   ("member", .fixed [("obj", .expr), ("name", .text)]),
   ("index", .fixed [("obj", .expr), ("i", .expr)]),
   ("cast", .fixed [("target", .type), ("operand", .expr)]),
   ("list_lit", .variadic [] .expr),
   ("map_lit", .fixed [("entries", .list (.pair .expr .expr))]),
   ("set_lit", .variadic [] .expr),
   ("struct_lit", { values := [("type_name", .text), ("span", .span)], extra := .expr }),
   ("var", .fixed [("name", .text), ("type_", .optional .type), ("init", .optional .expr)]),
   ("assign", .fixed [("target", .expr), ("value", .expr)]),
   ("expr_stmt", .fixed [("expression", .expr)]),
   ("ret", .fixed [("value", .optional .expr)]),
   ("panic", .fixed [("message", .optional .expr)]),
   ("brk", .fixed []),
   ("cont", .fixed []),
   ("pass_", .fixed []),
   ("block", .variadic [] .statement),
   ("if_", .fixed [("condition", .expr), ("then", .body),
     ("elifs", .list (.node (.node .elifBranch))), ("else_", .optional .body)]),
   ("elif_", .variadic [("condition", .expr)] .statement),
   ("match", .fixed [("subject", .expr), ("cases", .list (.node (.node .matchCase))),
     ("default", .optional .body)]),
   ("case", .variadic [("values", .list .expr)] .statement),
   ("while_", .variadic [("condition", .expr)] .statement),
   ("for_", .variadic [("variable", .text), ("iterable", .expr)] .statement),
   ("param", .fixed [("name", .text), ("type_", .type)]),
   ("func", .fixed [("name", .text), ("params", .named), ("returns", .optional .type),
     ("body", .list .statement)]),
   ("method", .fixed [("receiver", .pair .text .text), ("name", .text), ("params", .named),
     ("returns", .optional .type), ("body", .list .statement)]),
   ("alias", .fixed [("name", .text), ("underlying", .type)]),
   ("struct", .fixed [("name", .text), ("fields", .named)]),
   ("interface", .variadic [("name", .text)]
     (.node (.either (.node .fieldDecl) (.node .methodSig)))),
   ("field_req", .fixed [("name", .text), ("type_", .type)]),
   ("method_req", .fixed [("name", .text), ("params", .named), ("returns", .optional .type)]),
   ("module", { values := [("name", .optional .text), ("span", .span)], rest := .declaration })]

-- Every constructor is in the table, with all of its parameters.
example : asked.map (fun a => (a.1, a.2.values.map Prod.fst)) =
    constructors.map fun c => (c.1, c.2.1.all.map Prod.fst) := by decide

theorem Asked.Takes.get {P : Tree → Prop} {kinds : Asked} {a : Arguments} (h : kinds.Takes P a)
    (name : String)
    {kind : Kind} (hkind : kinds.values.find? name = some kind) : kind.Admits P (a.get name) :=
  h.values (name, kind) (Keyed.mem_of_find? hkind)

/-- Whatever a constructor makes of composed trees, of the kinds asked for, is composed. -/
def Asked.Keeps (kinds : Asked) (make : Arguments → Make.Made) : Prop :=
  ∀ a, kinds.Takes Composed a → Except.Yields (make a) Composed

open Make in
/-- **Every constructor makes composed trees of composed trees.** -/
theorem constructors_keep :
    List.Forall₂ (fun c k => c.1 = k.1 ∧ Asked.Keeps k.2 c.2.2) constructors asked :=
  .cons ⟨rfl, fun _ h v hv => (typeRef_yields (h.get "t" rfl) v hv).2⟩ <|
  .cons ⟨rfl, fun _ _ v hv => (literal_yields _ v hv).2⟩ <|
  .cons ⟨rfl, fun _ h v hv => (identifier_yields (h.get "name" rfl) v hv).2⟩ <|
  .cons ⟨rfl, fun _ h => node_yields .binaryOp rfl (.cons (expr_yields (h.get "left" rfl))
    (.cons (operatorOf_yields _) (.cons (expr_yields (h.get "right" rfl)) .nil)))⟩ <|
  .cons ⟨rfl, fun _ h => node_yields .unaryOp rfl (.cons (operatorOf_yields _)
    (.cons (expr_yields (h.get "operand" rfl)) .nil))⟩ <|
  .cons ⟨rfl, fun _ h => node_yields .functionCall rfl (.cons (identifier_yields (h.get "name" rfl))
    (.cons (exprs_yields h.rest) .nil))⟩ <|
  .cons ⟨rfl, fun _ h => node_yields .methodCall rfl (.cons (expr_yields (h.get "obj" rfl))
    (.cons (.ok (.of_text (h.get "name" rfl))) (.cons (exprs_yields h.rest) .nil)))⟩ <|
  .cons ⟨rfl, fun _ h => node_yields .memberAccess rfl (.cons (expr_yields (h.get "obj" rfl))
    (.cons (.ok (.of_text (h.get "name" rfl))) .nil))⟩ <|
  .cons ⟨rfl, fun _ h => node_yields .indexAccess rfl (.cons (expr_yields (h.get "obj" rfl))
    (.cons (expr_yields (h.get "i" rfl)) .nil))⟩ <|
  .cons ⟨rfl, fun _ h => node_yields .castExpr rfl (.cons (typeRef_yields (h.get "target" rfl))
    (.cons (expr_yields (h.get "operand" rfl)) .nil))⟩ <|
  .cons ⟨rfl, fun _ h => node_yields .listLiteral rfl (.cons (exprs_yields h.rest) .nil)⟩ <|
  .cons ⟨rfl, fun _ h => mapLiteral_yields (h.get "entries" rfl)⟩ <|
  .cons ⟨rfl, fun _ h => node_yields .setLiteral rfl (.cons (exprs_yields h.rest) .nil)⟩ <|
  .cons ⟨rfl, fun _ h => structLiteral_yields (h.get "type_name" rfl) h.extra⟩ <|
  .cons ⟨rfl, fun _ h => node_yields .varDecl rfl (.cons (.ok (.of_text (h.get "name" rfl)))
    (.cons (typeOrNull_yields (h.get "type_" rfl))
      (.cons (exprOrNull_yields (h.get "init" rfl)) .nil)))⟩ <|
  .cons ⟨rfl, fun _ h => node_yields .assignmentStatement rfl
    (.cons (expr_yields (h.get "target" rfl)) (.cons (expr_yields (h.get "value" rfl)) .nil))⟩ <|
  .cons ⟨rfl, fun _ h => node_yields .expressionStatement rfl
    (.cons (expr_yields (h.get "expression" rfl)) .nil)⟩ <|
  .cons ⟨rfl, fun _ h => node_yields .returnStatement rfl
    (.cons (exprOrNull_yields (h.get "value" rfl)) .nil)⟩ <|
  .cons ⟨rfl, fun _ h => node_yields .panicStatement rfl
    (.cons (exprOrNull_yields (h.get "message" rfl)) .nil)⟩ <|
  .cons ⟨rfl, fun _ _ => node_yields .breakStatement rfl .nil⟩ <|
  .cons ⟨rfl, fun _ _ => node_yields .continueStatement rfl .nil⟩ <|
  .cons ⟨rfl, fun _ _ => node_yields .passStatement rfl .nil⟩ <|
  .cons ⟨rfl, fun _ h v hv => (block_yields h.rest v hv).2⟩ <|
  .cons ⟨rfl, fun _ h =>
    ifStatement_yields (h.get "condition" rfl) (h.get "then" rfl) (h.get "elifs" rfl)
      (h.get "else_" rfl)⟩ <|
  .cons ⟨rfl, fun _ h => node_yields .elifBranch rfl (.cons (expr_yields (h.get "condition" rfl))
    (.cons (block_yields h.rest) .nil))⟩ <|
  .cons ⟨rfl, fun _ h => matchStatement_yields (h.get "subject" rfl) (h.get "cases" rfl)
    (h.get "default" rfl)⟩ <|
  .cons ⟨rfl, fun _ h => matchCase_yields (h.get "values" rfl) h.rest⟩ <|
  .cons ⟨rfl, fun _ h => node_yields .whileStatement rfl
    (.cons (expr_yields (h.get "condition" rfl)) (.cons (block_yields h.rest) .nil))⟩ <|
  .cons ⟨rfl, fun _ h => node_yields .forStatement rfl
    (.cons (.ok (.of_text (h.get "variable" rfl)))
    (.cons (expr_yields (h.get "iterable" rfl)) (.cons (block_yields h.rest) .nil)))⟩ <|
  .cons ⟨rfl, fun _ h v hv => (parameter_yields (h.get "name" rfl) (h.get "type_" rfl) v hv).2⟩ <|
  .cons ⟨rfl, fun _ h =>
    functionWith_yields (h.get "name" rfl) (h.get "params" rfl) (h.get "returns" rfl)
      (h.get "body" rfl) .absent⟩ <|
  .cons ⟨rfl, fun _ h =>
    method_yields (h.get "receiver" rfl) (h.get "name" rfl) (h.get "params" rfl)
      (h.get "returns" rfl) (h.get "body" rfl)⟩ <|
  .cons ⟨rfl, fun _ h => node_yields .typeAliasDecl rfl (.cons (.ok (.of_text (h.get "name" rfl)))
    (.cons (typeRef_yields (h.get "underlying" rfl)) .nil))⟩ <|
  .cons ⟨rfl, fun _ h => struct_yields (h.get "name" rfl) (h.get "fields" rfl)⟩ <|
  .cons ⟨rfl, fun _ h => node_yields .interfaceDecl rfl (.cons (.ok (.of_text (h.get "name" rfl)))
    (.cons (.ok (.list rfl fun t ht => .of_node (h.rest t ht))) .nil))⟩ <|
  .cons ⟨rfl, fun _ h v hv => (field_yields (h.get "name" rfl) (h.get "type_" rfl) v hv).2⟩ <|
  .cons ⟨rfl, fun _ h => node_yields .methodSig rfl (.cons (.ok (.of_text (h.get "name" rfl)))
    (.cons (parameters_yields (h.get "params" rfl))
      (.cons (typeOrNull_yields (h.get "returns" rfl)) .nil)))⟩ <|
  .cons ⟨rfl, fun _ h =>
    compilationUnit_yields (fun d hd => (h.rest d hd).2) (.of_optional_text (h.get "name" rfl))⟩ <|
  .nil

/--
The trees that constructors make, of arguments of the kinds they ask for.  The nodes among these
have a property that only trees made in this way have.
-/
inductive Built : Tree → Prop
  | made {P : Tree → Prop} (before : ∀ t, P t → Built t) {name : String} {params : Parameters}
      {make : Arguments → Make.Made} (hmake : constructors.find? name = some (params, make))
      {kinds : Asked}
      (hkinds : asked.find? name = some kinds) {args : List Tree} {named : Keyed Tree}
      {a : Arguments}
      (hbind : params.bind args named = .ok a) (hargs : kinds.Takes P a) {t : Tree}
      (h : make a = .ok t) : Built t

theorem Kind.Admits.mono {P Q : Tree → Prop} (hPQ : ∀ t, P t → Q t) {kind : Kind} {t : Tree}
    (h : kind.Admits P t) : kind.Admits Q t := by
  induction kind generalizing t with
  | node shape => exact ⟨h.1, hPQ t h.2⟩
  | list item ih =>
    obtain ⟨items, rfl, hitems⟩ := h
    exact ⟨items, rfl, fun i hi => ih (hitems i hi)⟩
  | pair first second ihfirst ihsecond =>
    obtain ⟨a, b, rfl, ha, hb⟩ := h
    exact ⟨a, b, rfl, ihfirst ha, ihsecond hb⟩
  | keyed value ih =>
    obtain ⟨entries, rfl, hentries⟩ := h
    exact ⟨entries, rfl, fun e he => ih (hentries e he)⟩
  | either first second ihfirst ihsecond => exact Or.imp ihfirst ihsecond h
  | null | text | plain | operator | span => exact h

theorem Asked.Takes.mono {P Q : Tree → Prop} (hPQ : ∀ t, P t → Q t) {kinds : Asked} {a : Arguments}
    (h : kinds.Takes P a) : kinds.Takes Q a :=
  ⟨fun p hp => (h.values p hp).mono hPQ, fun t ht => (h.rest t ht).mono hPQ,
    fun e he => (h.extra e he).mono hPQ⟩

/-- **Trees that constructors make are composed.** -/
theorem Built.composed {t : Tree} (h : Built t) : Composed t := by
  induction h with
  | made before hmake hkinds hbind hargs h ih =>
    exact Keyed.find?_forall₂ (R := fun c k => k.Keeps c.2) constructors_keep hmake hkinds _
      (hargs.mono ih) _ h

end Tree

end TreeTyping
