/-
Well-formed trees.

A tree is well formed when every node of it has the fields of its class, each with a value of the
shape the class asks for.  A block may stand where a statement is asked for: trees put together by
hand use this, and the checker knows blocks as statements.

The lemmas here take the shape of a field apart, so that a well-formed node of a class is opened
into its parts, each of which meets what is asked of it.  The last section is about the classes of
declarations.  No field of them asks for an expression, so an expression is never found below one.
-/
import TreeTyping.Tree.Place

namespace TreeTyping

open List

/-- The shape with blocks allowed where statements are asked for. -/
def Shape.withBlocks : Shape → Shape
  | .category .statement => .either (.category .statement) (.node .block)
  | .list item => .list item.withBlocks
  | .object item => .object item.withBlocks
  | .either first second => .either first.withBlocks second.withBlocks
  | s => s

/-- The field with blocks allowed where statements are asked for. -/
def FieldSpec.withBlocks (f : FieldSpec) : FieldSpec := { f with shape := f.shape.withBlocks }

namespace Tree

mutual

/-- Whether every node, at every depth, fits its class, blocks counting as statements. -/
def wellFormed : Tree → Bool
  | .node cls _ fields => fieldsFit (cls.fields.map FieldSpec.withBlocks) fields &&
      wellFormedAll fields
  | .list items => wellFormedAll items
  | .object entries => wellFormedEntries entries
  | _ => true

def wellFormedAll : List Tree → Bool
  | [] => true
  | t :: rest => t.wellFormed && wellFormedAll rest

def wellFormedEntries : List (String × Tree) → Bool
  | [] => true
  | (_, t) :: rest => t.wellFormed && wellFormedEntries rest

end

theorem wellFormedAll_iff {items : List Tree} :
    wellFormedAll items = true ↔ ∀ t ∈ items, t.wellFormed = true := by
  induction items with
  | nil => simp [wellFormedAll]
  | cons t rest ih => simp [wellFormedAll, ih]

theorem wellFormedEntries_iff {entries : List (String × Tree)} :
    wellFormedEntries entries = true ↔ ∀ e ∈ entries, e.2.wellFormed = true := by
  induction entries with
  | nil => simp [wellFormedEntries]
  | cons e rest ih => simp [wellFormedEntries, ih]

/-! ### Taking shapes apart -/

attribute [local simp] fieldsFit hasShape

theorem fieldsFit_nil {fields : List Tree} : fieldsFit [] fields = true ↔ fields = [] := by
  cases fields <;> simp

theorem fieldsFit_cons {spec : FieldSpec} {specs : List FieldSpec} {fields : List Tree} :
    fieldsFit (spec :: specs) fields = true ↔
      ∃ v rest, fields = v :: rest ∧ hasShape spec.shape v = true ∧
        fieldsFit specs rest = true := by
  cases fields with
  | nil => simp
  | cons v rest =>
    rw [fieldsFit, Bool.and_eq_true]
    constructor
    · rintro ⟨hv, hrest⟩
      exact ⟨v, rest, rfl, hv, hrest⟩
    · rintro ⟨_, _, heq, hv, hrest⟩
      cases heq
      exact ⟨hv, hrest⟩

theorem hasShape_category {c : Category} {t : Tree} :
    hasShape (.category c) t = true ↔ ∃ cls s fields, t = .node cls s fields ∧
      cls.category? = some c := by
  cases t <;> simp

theorem hasShape_node {c : NodeClass} {t : Tree} :
    hasShape (.node c) t = true ↔ ∃ s fields, t = .node c s fields := by
  cases t <;> simp

theorem hasShape_null {t : Tree} : hasShape .null t = true ↔ t = .null := by
  cases t <;> simp

theorem hasShape_text {t : Tree} : hasShape .text t = true ↔ ∃ s, t = .text s := by
  cases t <;> simp

theorem hasShape_operator {t : Tree} : hasShape .operator t = true ↔ ∃ op, t = .operator op := by
  cases t <;> simp

theorem hasShape_literalKind {t : Tree} :
    hasShape .literalKind t = true ↔ ∃ kind, t = .literalKind kind := by
  cases t <;> simp

theorem hasShape_list {item : Shape} {t : Tree} :
    hasShape (.list item) t = true ↔ ∃ items, t = .list items ∧
      ∀ i ∈ items, hasShape item i = true := by
  cases t <;> simp

theorem hasShape_object {item : Shape} {t : Tree} :
    hasShape (.object item) t = true ↔
      ∃ entries, t = .object entries ∧ ∀ e ∈ entries, hasShape item e.2 = true := by
  cases t <;> simp

theorem hasShape_either {first second : Shape} {t : Tree} :
    hasShape (.either first second) t = true ↔ hasShape first t = true ∨
      hasShape second t = true := by
  cases t <;> simp

/-! ### Opening a node -/

/-- The tree is well formed and has the shape that is asked for. -/
structure Meets (shape : Shape) (t : Tree) : Prop where
  wellFormed : t.wellFormed = true
  hasShape : hasShape shape t = true

/-- The fields are well formed and have the shapes that are asked for. -/
structure FieldsMeet (specs : List FieldSpec) (fields : List Tree) : Prop where
  fit : fieldsFit specs fields = true
  wellFormed : wellFormedAll fields = true

theorem fieldsMeet_of_wellFormed {cls : NodeClass} {s : Span} {fields : List Tree}
    (h : (node cls s fields).wellFormed = true) : FieldsMeet (cls.fields.map FieldSpec.withBlocks)
      fields := by
  obtain ⟨hfit, hall⟩ := Bool.and_eq_true_iff.1 h
  exact ⟨hfit, hall⟩

namespace Meets

variable {t : Tree} {item : Shape}

theorem either {first second : Shape} (h : Meets (.either first second) t) :
    Meets first t ∨ Meets second t :=
  (hasShape_either.1 h.hasShape).imp (.mk h.wellFormed) (.mk h.wellFormed)

theorem null (h : Meets .null t) : t = .null := hasShape_null.1 h.hasShape

theorem text (h : Meets .text t) : ∃ s, t = .text s := hasShape_text.1 h.hasShape

theorem list (h : Meets (.list item) t) : ∃ items, t = .list items ∧ ∀ i ∈ items, Meets item i := by
  obtain ⟨hw, hs⟩ := h
  obtain ⟨items, rfl, heach⟩ := hasShape_list.1 hs
  exact ⟨items, rfl, fun i hi => ⟨wellFormedAll_iff.1 hw i hi, heach i hi⟩⟩

theorem object (h : Meets (.object item) t) :
    ∃ entries, t = .object entries ∧ ∀ e ∈ entries, Meets item e.2 := by
  obtain ⟨hw, hs⟩ := h
  obtain ⟨entries, rfl, heach⟩ := hasShape_object.1 hs
  exact ⟨entries, rfl, fun e he => ⟨wellFormedEntries_iff.1 hw e he, heach e he⟩⟩

theorem node {cls : NodeClass} (h : Meets (.node cls) t) :
    ∃ s fields, t = .node cls s fields ∧ FieldsMeet (cls.fields.map FieldSpec.withBlocks)
      fields := by
  obtain ⟨hw, hs⟩ := h
  obtain ⟨s, fields, rfl⟩ := hasShape_node.1 hs
  exact ⟨s, fields, rfl, fieldsMeet_of_wellFormed hw⟩

theorem category {c : Category} (h : Meets (.category c) t) : ∃ cls s fields, t = .node cls s
    fields ∧ FieldsMeet (cls.fields.map FieldSpec.withBlocks) fields ∧ cls.category? = some c := by
  obtain ⟨hw, hs⟩ := h
  obtain ⟨cls, s, fields, rfl, hcls⟩ := hasShape_category.1 hs
  exact ⟨cls, s, fields, rfl, fieldsMeet_of_wellFormed hw, hcls⟩

end Meets

section Fields

variable {a b c d : FieldSpec} {fields : List Tree}

theorem fields_none (h : FieldsMeet [] fields) : fields = [] := fieldsFit_nil.1 h.fit

theorem fields_cons {specs : List FieldSpec} (h : FieldsMeet (a :: specs) fields) :
    ∃ x rest, fields = x :: rest ∧ Meets a.shape x ∧ FieldsMeet specs rest := by
  obtain ⟨hfit, hw⟩ := h
  obtain ⟨x, rest, rfl, hx, hrest⟩ := fieldsFit_cons.1 hfit
  obtain ⟨hwx, hwrest⟩ := Bool.and_eq_true_iff.1 hw
  exact ⟨x, rest, rfl, ⟨hwx, hx⟩, hrest, hwrest⟩

theorem fields_one (h : FieldsMeet [a] fields) : ∃ x, fields = [x] ∧ Meets a.shape x := by
  obtain ⟨x, rest, rfl, hx, hrest⟩ := fields_cons h
  exact ⟨x, by rw [fields_none hrest], hx⟩

theorem fields_two (h : FieldsMeet [a, b] fields) :
    ∃ x y, fields = [x, y] ∧ Meets a.shape x ∧ Meets b.shape y := by
  obtain ⟨x, rest, rfl, hx, hrest⟩ := fields_cons h
  obtain ⟨y, rfl, hy⟩ := fields_one hrest
  exact ⟨x, y, rfl, hx, hy⟩

theorem fields_three (h : FieldsMeet [a, b, c] fields) :
    ∃ x y z, fields = [x, y, z] ∧ Meets a.shape x ∧ Meets b.shape y ∧ Meets c.shape z := by
  obtain ⟨x, rest, rfl, hx, hrest⟩ := fields_cons h
  obtain ⟨y, z, rfl, hy, hz⟩ := fields_two hrest
  exact ⟨x, y, z, rfl, hx, hy, hz⟩

theorem fields_four (h : FieldsMeet [a, b, c, d] fields) :
    ∃ x y z u, fields = [x, y, z, u] ∧ Meets a.shape x ∧ Meets b.shape y ∧ Meets c.shape z ∧
      Meets d.shape u := by
  obtain ⟨x, rest, rfl, hx, hrest⟩ := fields_cons h
  obtain ⟨y, z, u, rfl, hy, hz, hu⟩ := fields_three hrest
  exact ⟨x, y, z, u, rfl, hx, hy, hz, hu⟩

end Fields

/-! ### Induction -/

theorem sizeOf_field {cls : NodeClass} {s : Span} {fields : List Tree} {t : Tree} (h : t ∈ fields) :
    sizeOf t < sizeOf (node cls s fields) := by
  have hlist := sizeOf_lt_of_mem h
  rw [node.sizeOf_spec]
  omega

theorem sizeOf_item {items : List Tree} {t : Tree} (h : t ∈ items) :
    sizeOf t < sizeOf (list items) := by
  have hlist := sizeOf_lt_of_mem h
  rw [list.sizeOf_spec]
  omega

theorem sizeOf_listed {cls : NodeClass} {s : Span} {fields items : List Tree} {t : Tree}
    (h : t ∈ items) (hlist : list items ∈ fields) : sizeOf t < sizeOf (node cls s fields) :=
  Nat.lt_trans (sizeOf_item h) (sizeOf_field hlist)

theorem sizeOf_entry {entries : List (String × Tree)} {e : String × Tree} (h : e ∈ entries) :
    sizeOf e.2 < sizeOf (object entries) := by
  have hlist := sizeOf_lt_of_mem h
  obtain ⟨key, t⟩ := e
  rw [Prod.mk.sizeOf_spec] at hlist
  show sizeOf t < _
  rw [object.sizeOf_spec]
  omega

/-- To prove something of every tree, prove it of one that it holds of every smaller tree of. -/
theorem induction {P : Tree → Prop} (step : ∀ t, (∀ c, sizeOf c < sizeOf t → P c) → P t)
    (t : Tree) : P t :=
  step t fun c _ => induction step c
termination_by sizeOf t

end Tree

/-! ### Declarations hold no expressions -/

/-- The classes of annotations, parameters and type declarations. -/
def NodeClass.isDeclarative : NodeClass → Bool
  | .simpleType | .genericType | .parameter | .fieldDecl | .methodSig | .typeAliasDecl | .structDecl
  | .interfaceDecl => true
  | _ => false

/-- The shapes that ask for declarations and annotations, or for no nodes at all. -/
def Shape.isDeclarative : Shape → Bool
  | .category c => c = .typeNode
  | .node cls => cls.isDeclarative
  | .list item | .object item => item.isDeclarative
  | .either first second => first.isDeclarative && second.isDeclarative
  | _ => true

theorem NodeClass.declarative_of_typeNode {cls : NodeClass} (h : cls.category? = some .typeNode) :
    cls.isDeclarative = true := by
  cases cls with
  | simpleType | genericType => rfl
  | _ => cases h

theorem NodeClass.not_expression {cls : NodeClass} (h : cls.isDeclarative = true) :
    cls.category? ≠ some .expression := by
  cases cls with
  | simpleType | genericType | parameter | fieldDecl | methodSig | typeAliasDecl | structDecl
  | interfaceDecl => nofun
  | _ => cases h

theorem NodeClass.declarative_fields {cls : NodeClass} (h : cls.isDeclarative = true) :
    ∀ spec ∈ cls.fields, spec.shape.withBlocks.isDeclarative = true := by
  rw [← all_eq_true (p := fun spec : FieldSpec => spec.shape.withBlocks.isDeclarative)]
  cases cls with
  | simpleType | genericType | parameter | fieldDecl | methodSig | typeAliasDecl | structDecl
  | interfaceDecl => rfl
  | _ => cases h

namespace Tree

theorem declarative_node {shape : Shape} {cls : NodeClass} {s : Span} {fields : List Tree}
    (hs : shape.isDeclarative = true) (h : hasShape shape (.node cls s fields) = true) :
    cls.isDeclarative = true := by
  induction shape with
  | category c =>
    obtain rfl : c = .typeNode := of_decide_eq_true hs
    obtain ⟨_, _, _, heq, hcls⟩ := hasShape_category.1 h
    cases heq
    exact NodeClass.declarative_of_typeNode hcls
  | node c =>
    obtain ⟨_, _, heq⟩ := hasShape_node.1 h
    cases heq
    exact hs
  | either first second ihf ihs =>
    obtain ⟨hf, hs⟩ := Bool.and_eq_true_iff.1 hs
    exact (hasShape_either.1 h).elim (ihf hf) (ihs hs)
  | _ => simp [hasShape] at h

theorem declarative_items {shape : Shape} {items : List Tree} (hs : shape.isDeclarative = true)
    (h : hasShape shape (.list items) = true) :
    ∀ t ∈ items, ∃ item : Shape, item.isDeclarative = true ∧ hasShape item t = true := by
  induction shape with
  | list item _ =>
    obtain ⟨_, heq, hall⟩ := hasShape_list.1 h
    cases heq
    exact fun t ht => ⟨item, hs, hall t ht⟩
  | either first second ihf ihs =>
    obtain ⟨hf, hs⟩ := Bool.and_eq_true_iff.1 hs
    exact (hasShape_either.1 h).elim (ihf hf) (ihs hs)
  | _ => simp [hasShape] at h

theorem declarative_entries {shape : Shape} {entries : List (String × Tree)}
    (hs : shape.isDeclarative = true) (h : hasShape shape (.object entries) = true) :
    ∀ e ∈ entries, ∃ item : Shape, item.isDeclarative = true ∧ hasShape item e.2 = true := by
  induction shape with
  | object item _ =>
    obtain ⟨_, heq, hall⟩ := hasShape_object.1 h
    cases heq
    exact fun e he => ⟨item, hs, hall e he⟩
  | either first second ihf ihs =>
    obtain ⟨hf, hs⟩ := Bool.and_eq_true_iff.1 hs
    exact (hasShape_either.1 h).elim (ihf hf) (ihs hs)
  | _ => simp [hasShape] at h

mutual

/-- **Below a declaration or annotation there is nothing else.** -/
theorem nodes_declarative : ∀ {t : Tree} {shape : Shape} {p : Place} {n : Place × NodeClass},
    t.wellFormed = true → shape.isDeclarative = true → hasShape shape t = true → n ∈ t.nodes p →
      n.2.isDeclarative = true
  | .node cls s fields, shape, p, n, hw, hd, hs, hn => by
      obtain ⟨hfit, hall⟩ := Bool.and_eq_true_iff.1 hw
      have hcls := declarative_node hd hs
      rw [nodes] at hn
      rcases mem_cons.1 hn with rfl | hn
      · exact hcls
      · exact nodesOfFields_declarative hfit hall (NodeClass.declarative_fields hcls) hn
  | .list items, shape, p, n, hw, hd, hs, hn =>
    nodesOfItems_declarative hw (declarative_items hd hs) hn
  | .object entries, shape, p, n, hw, hd, hs, hn =>
    nodesOfEntries_declarative hw (declarative_entries hd hs) hn
  | .null, _, _, _, _, _, _, h | .bool _, _, _, _, _, _, _, h | .int _, _, _, _, _, _, _, h
  | .float _, _, _, _, _, _, _, h | .text _, _, _, _, _, _, _, h | .operator _, _, _, _, _, _, _, h
  | .literalKind _, _, _, _, _, _, _, h | .location _, _, _, _, _, _, _, h => nomatch h

theorem nodesOfFields_declarative : ∀ {specs : List FieldSpec} {fields : List Tree} {p : Place}
    {n : Place × NodeClass}, fieldsFit (specs.map FieldSpec.withBlocks) fields = true →
      wellFormedAll fields = true → (∀ spec ∈ specs, spec.shape.withBlocks.isDeclarative = true) →
      n ∈ nodesOfFields p specs fields → n.2.isDeclarative = true
  | spec :: specs, t :: rest, p, n, hfit, hall, hd, hn => by
      obtain ⟨hs, hfit⟩ := Bool.and_eq_true_iff.1 hfit
      obtain ⟨ht, hall⟩ := Bool.and_eq_true_iff.1 hall
      obtain ⟨hspec, hspecs⟩ := forall_mem_cons.1 hd
      rw [nodesOfFields] at hn
      rcases mem_append.1 hn with hn | hn
      · exact nodes_declarative ht hspec hs hn
      · exact nodesOfFields_declarative hfit hall hspecs hn
  | [], [], _, _, _, _, _, h | [], _ :: _, _, _, _, _, _, h | _ :: _, [], _, _, _, _, _,
      h => nomatch h

theorem nodesOfItems_declarative :
    ∀ {items : List Tree} {i : Nat} {p : Place} {n : Place × NodeClass},
    wellFormedAll items = true →
      (∀ t ∈ items, ∃ item : Shape, item.isDeclarative = true ∧ hasShape item t = true) →
      n ∈ nodesOfItems p i items → n.2.isDeclarative = true
  | t :: rest, i, p, n, hall, hd, hn => by
      obtain ⟨ht, hall⟩ := Bool.and_eq_true_iff.1 hall
      obtain ⟨⟨item, hitem, hs⟩, hrest⟩ := forall_mem_cons.1 hd
      rw [nodesOfItems] at hn
      rcases mem_append.1 hn with hn | hn
      · exact nodes_declarative ht hitem hs hn
      · exact nodesOfItems_declarative hall hrest hn
  | [], _, _, _, _, _, h => nomatch h

theorem nodesOfEntries_declarative : ∀ {entries : List (String × Tree)} {p : Place}
    {n : Place × NodeClass}, wellFormedEntries entries = true →
      (∀ e ∈ entries, ∃ item : Shape, item.isDeclarative = true ∧ hasShape item e.2 = true) →
      n ∈ nodesOfEntries p entries → n.2.isDeclarative = true
  | (key, t) :: rest, p, n, hall, hd, hn => by
      obtain ⟨ht, hall⟩ := Bool.and_eq_true_iff.1 hall
      obtain ⟨⟨item, hitem, hs⟩, hrest⟩ := forall_mem_cons.1 hd
      rw [nodesOfEntries] at hn
      rcases mem_append.1 hn with hn | hn
      · exact nodes_declarative ht hitem hs hn
      · exact nodesOfEntries_declarative hall hrest hn
  | [], _, _, _, _, h => nomatch h

end

/-- No expression is found where a declaration or annotation is asked for. -/
theorem no_expression {t : Tree} {shape : Shape} {p q : Place} {cls : NodeClass}
    (hw : t.wellFormed = true)
    (hd : shape.isDeclarative = true) (hs : hasShape shape t = true) (hq : (q, cls) ∈ t.nodes p) :
    cls.category? ≠ some .expression :=
  NodeClass.not_expression (nodes_declarative hw hd hs hq)

end Tree

end TreeTyping
