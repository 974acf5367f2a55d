/-
What a loaded tree is like.

Values are read without knowing the field they are read for, and a field is looked at once, when all
that stands below it has been read.  That is enough: every node of a loaded tree, at whatever depth,
has in its fields what its class asks for, and was read from an object of the document that names
its class.

What a class asks for is said here by relations of their own, beside the tests that the loader
makes: `Fits` for the shape of a field, `OfKind` for the value of a literal and `Span.ReadFrom` for
the span of a node.
-/
import TreeTyping.Proofs.Tree.Loading

namespace TreeTyping

/-! ### What stands in a tree -/

/-- A tree is another one, or stands in it at some depth. -/
inductive Tree.Contains : Tree → Tree → Prop
  | self (t : Tree) : Contains t t
  | field {cls : NodeClass} {s : Span} {fields : List Tree} {part t : Tree} (hpart : part ∈ fields)
      (h : Contains part t) : Contains (.node cls s fields) t
  | item {items : List Tree} {part t : Tree} (hpart : part ∈ items) (h : Contains part t) :
      Contains (.list items) t
  | entry {entries : List (String × Tree)} {e : String × Tree} {t : Tree} (he : e ∈ entries)
      (h : Contains e.2 t) : Contains (.object entries) t

/-! ### What a class asks for -/

namespace Tree

/-- A value has a shape. -/
inductive Fits : Shape → Tree → Prop
  | category {c : Category} {cls : NodeClass} {s : Span} {fields : List Tree}
      (h : cls.category? = some c) : Fits (.category c) (.node cls s fields)
  | node {cls : NodeClass} {s : Span} {fields : List Tree} : Fits (.node cls) (.node cls s fields)
  | null : Fits .null .null
  | int (n : Int) : Fits .int (.int n)
  | float (x : Binary64) : Fits .float (.float x)
  | text (s : String) : Fits .text (.text s)
  | bool (b : Bool) : Fits .bool (.bool b)
  | operator (op : Operator) : Fits .operator (.operator op)
  | literalKind (kind : LiteralKind) : Fits .literalKind (.literalKind kind)
  | list {item : Shape} {items : List Tree} (h : ∀ v ∈ items, Fits item v) :
      Fits (.list item) (.list items)
  | object {item : Shape} {entries : List (String × Tree)} (h : ∀ e ∈ entries, Fits item e.2) :
      Fits (.object item) (.object entries)
  | first {one other : Shape} {t : Tree} (h : Fits one t) : Fits (.either one other) t
  | second {one other : Shape} {t : Tree} (h : Fits other t) : Fits (.either one other) t

/-- **A value passes the test for a shape if and only if it has the shape.** -/
theorem hasShape_iff_fits {shape : Shape} {t : Tree} : hasShape shape t = true ↔ Fits shape t := by
  constructor
  · intro h
    induction shape generalizing t with
    | category c =>
      obtain ⟨cls, s, fields, rfl, hcls⟩ := hasShape_category.1 h
      exact .category hcls
    | node c =>
      obtain ⟨s, fields, rfl⟩ := hasShape_node.1 h
      exact .node
    | list item ih =>
      obtain ⟨items, rfl, hitems⟩ := hasShape_list.1 h
      exact .list fun v hv => ih (hitems v hv)
    | object item ih =>
      obtain ⟨entries, rfl, hentries⟩ := hasShape_object.1 h
      exact .object fun e he => ih (hentries e he)
    | either one other ihone ihother =>
      exact (hasShape_either.1 h).elim (fun h => .first (ihone h)) (fun h => .second (ihother h))
    | null | int | float | text | bool | operator | literalKind =>
      cases t <;> cases h
      constructor
  · intro h
    induction h with
    | category hcls => exact hasShape_category.2 ⟨_, _, _, rfl, hcls⟩
    | node => exact hasShape_node.2 ⟨_, _, rfl⟩
    | list _ ih => exact hasShape_list.2 ⟨_, rfl, ih⟩
    | object _ ih => exact hasShape_object.2 ⟨_, rfl, ih⟩
    | first _ ih => exact hasShape_either.2 (.inl ih)
    | second _ ih => exact hasShape_either.2 (.inr ih)
    | null | int | float | text | bool | operator | literalKind => rfl

/-- A value goes with a kind of literals: a whole number may also be a floating-point one. -/
inductive OfKind : LiteralKind → Tree → Prop
  | bool (b : Bool) : OfKind .bool (.bool b)
  | int (n : Int) : OfKind .int (.int n)
  | whole (n : Int) : OfKind .float (.int n)
  | float (x : Binary64) : OfKind .float (.float x)
  | string (s : String) : OfKind .string (.text s)

theorem literalMatches_iff_ofKind {kind : LiteralKind} {t : Tree} :
    literalMatches kind t = true ↔ OfKind kind t := by
  constructor
  · intro h
    cases kind <;> cases t <;> cases h <;> constructor
  · intro h
    cases h <;> rfl

/--
A node that was loaded from a document: its fields are those of its class and have their shapes, the
value of a literal goes with its kind, and some object of the document names the class of the node
and has its span.
-/
structure WellMade (file doc : Json) (cls : NodeClass) (s : Span) (fields : List Tree) : Prop where
  shapes : List.Forall₂ (fun spec v => Fits spec.shape v) cls.fields fields
  literal : cls = .literal → ∃ value kind, fields = [value, .literalKind kind] ∧ OfKind kind value
  source : ReadIn file doc cls s

/-- The fields of a literal that fits its class are a value and the kind it goes with. -/
theorem literal_of_nodeFits {fields : List Tree} (h : nodeFits .literal fields = true) :
    ∃ value kind, fields = [value, .literalKind kind] ∧ OfKind kind value := by
  obtain ⟨hfit, hmatches⟩ := Bool.and_eq_true_iff.1 h
  obtain ⟨value, rest, rfl, -, hfit⟩ := fieldsFit_cons.1 hfit
  obtain ⟨kind, rest, rfl, hkind, hfit⟩ := fieldsFit_cons.1 hfit
  obtain ⟨kind, rfl⟩ := hasShape_literalKind.1 hkind
  obtain rfl := fieldsFit_nil.1 hfit
  exact ⟨value, kind, rfl, literalMatches_iff_ofKind.1 hmatches⟩

theorem Contains.loaded {file doc : Json} {t u : Tree} (h : t.Contains u) (ht : Loaded file doc t) :
    Loaded file doc u := by
  induction h with
  | self => exact ht
  | field hpart _ ih =>
    cases ht with
    | node _ _ _ hfields => exact ih (hfields _ hpart)
  | item hpart _ ih =>
    cases ht with
    | list hitems => exact ih (hitems _ hpart)
  | entry he _ ih =>
    cases ht with
    | object _ hentries => exact ih (hentries _ he)

/--
**Every node of a loaded tree is well made.**  Whatever the document and the file, if a node is
loaded then every node of its tree, at every depth, has the fields of its class with values of their
shapes.  The value of a literal goes with its kind.  A span is that of what has no source text, or
was read from two or four coordinates and is in the file.
-/
theorem loadNode_wellMade {file doc : Json} {t : Tree} (h : loadNode file doc = .ok t) :
    (∃ cls s fields, t = .node cls s fields) ∧
      ∀ cls s fields, t.Contains (.node cls s fields) → WellMade file doc cls s fields := by
  obtain ⟨hloaded, hnode⟩ := loadNode_loaded h
  refine ⟨hnode, fun cls s fields hc => ?_⟩
  cases hc.loaded hloaded with
  | node hsource hfits hliteral _ =>
    refine ⟨hfits.imp fun _ _ => hasShape_iff_fits.1, ?_, hsource⟩
    rintro rfl
    exact literal_of_nodeFits (checkLiteral_fits (fieldsFit_iff.2 hfits) hliteral)

/-- An array of fixed length, its type without a span, with a literal in its only element. -/
def arrayDocument : Json :=
  let literal : Json := .obj
    [("node", .str "Literal"), ("span", .arr [.bool true, .int 9, .int 1, .int 12]),
    ("value", .int 3), ("literal_kind", .str "float")]
  let point : Json := .obj [("node", .str "StructLiteral"), ("span", .arr [.int 1, .int 7]),
    ("type_name", .str "P"), ("fields", .obj [("x", literal)])]
  .obj [("node", .str "VarDecl"), ("span", .arr [.int 1, .int 1]), ("name", .str "ps"),
    ("type_annotation", .obj
      [("node", .str "GenericType"), ("name", .str "array"), ("length", .int 1),
      ("type_args", .arr [.obj [("node", .str "SimpleType"), ("name", .str "P")]])]),
    ("initializer", .obj [("node", .str "ListLiteral"), ("elements", .arr [point])])]

/-- The tree of the array in a file, the literal with the given span. -/
def arrayTree (file : Json) (s : Span) : Tree :=
  let point : Tree := .node .structLiteral (.point 1 7 file) [.text "P",
    .object [("x", .node .literal s [.int 3, .literalKind .float])]]
  .node .varDecl (.point 1 1 file) [.text "ps",
    .node .genericType .nowhere
      [.text "array", .list [.node .simpleType .nowhere [.text "P"]], .int 1],
    .node .listLiteral .nowhere [.list [point]]]

/-- The literal, five levels below the variable, is well made. -/
theorem loadNode_wellMade_array : ∃ t s fields, loadNode (.str "a.src") arrayDocument = .ok t ∧
    t.Contains (.node .literal s fields) ∧ WellMade (.str "a.src")
      arrayDocument .literal s fields := by
  let s : Span := ⟨⟨.flag true, .number 9⟩, .ofNumbers 1 12, .str "a.src"⟩
  have hload : loadNode (.str "a.src") arrayDocument = .ok (arrayTree (.str "a.src") s) := by
    with_unfolding_all rfl
  have hcontains : (arrayTree (.str "a.src") s).Contains
      (.node .literal s [.int 3, .literalKind .float]) :=
    .field (.tail _ (.tail _ (.head _))) (.field (.head _) (.item (.head _)
      (.field (.tail _ (.head _)) (.entry (.head _) (.self _)))))
  exact ⟨_, s, _, hload, hcontains, (loadNode_wellMade hload).2 _ _ _ hcontains⟩

end Tree

end TreeTyping
