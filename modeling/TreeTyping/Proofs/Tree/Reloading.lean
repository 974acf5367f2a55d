/-
Loading what was written.

A tree that constructors make, and whose nodes are all in one file or have no source text, is
written as a document in that file.  The document can be loaded, and gives the tree again, with two
exceptions.  A block that stands among the statements of a block is written like any other
statement, and is refused where it is read.  A struct literal with a field called `node` is written
as an object that is then taken for a node, and the class of that cannot be looked up.

The induction is on how the tree is composed.  What it carries is that a value is read again where
nothing of this kind stands in it, and that otherwise it is refused for something that does.  A tree
that was loaded is composed too, and nothing of this kind stands in it, so it is always loaded
again.
-/
import TreeTyping.Check.Module
import TreeTyping.Proofs.Tree.Built
import TreeTyping.Proofs.Tree.Refusal
import TreeTyping.Syntax.OfTree

namespace TreeTyping

open List

namespace Except

/-- A computation has the result and nothing is wrong, or it fails for something that is. -/
def Settles {ε α : Type} (x : Except ε α) (a : α) (wrong : ε → Prop) : Prop :=
  (x = .ok a ∧ ∀ e, ¬ wrong e) ∨ ∃ e, x = .error e ∧ wrong e

namespace Settles

variable {ε α β ι : Type} {x : Except ε α} {a : α} {wrong wrong' : ε → Prop}

theorem congr (h : Settles x a wrong) (hwrong : ∀ e, wrong e ↔ wrong' e) : Settles x a wrong' := by
  obtain rfl : wrong = wrong' := funext fun e => propext (hwrong e)
  exact h

/-- Nothing goes wrong in a step that succeeds with the result. -/
theorem bind_ok (h : Settles x a wrong) {f : α → Except ε β} {b : β} (hf : f a = .ok b) :
    Settles (x >>= f) b wrong := by
  rcases h with ⟨rfl, hno⟩ | ⟨e, rfl, he⟩
  · exact .inl ⟨hf, hno⟩
  · exact .inr ⟨e, rfl, he⟩

/-- Of two steps something is wrong with the first or with the second. -/
theorem bind (h : Settles x a wrong) {f : α → Except ε β} {b : β} (hf : Settles (f a) b wrong') :
    Settles (x >>= f) b fun e => wrong e ∨ wrong' e := by
  rcases h with ⟨rfl, hno⟩ | ⟨e, rfl, he⟩
  · rcases hf with ⟨hf, hno'⟩ | ⟨e, hf, he⟩
    · exact .inl ⟨hf, fun e => not_or.2 ⟨hno e, hno' e⟩⟩
    · exact .inr ⟨e, hf, .inr he⟩
  · exact .inr ⟨e, rfl, .inl he⟩

theorem map (h : Settles x a wrong) (f : α → β) : Settles (x.map f) (f a) wrong := by
  rcases h with ⟨rfl, hno⟩ | ⟨e, rfl, he⟩
  · exact .inl ⟨rfl, hno⟩
  · exact .inr ⟨e, rfl, he⟩

theorem mapM {f : ι → Except ε β} {g : α → β} {wrong : α → ε → Prop} {items : List ι}
    {results : List α} (h : List.Forall₂ (fun i a => Settles (f i) (g a) (wrong a)) items results) :
    Settles (items.mapM f) (results.map g) fun e => ∃ a ∈ results, wrong a e := by
  induction h with
  | nil =>
    refine .inl ⟨rfl, ?_⟩
    rintro e ⟨a, ha, -⟩
    exact absurd ha not_mem_nil
  | cons hfirst _ ih =>
    rw [mapM_cons, map_cons]
    rcases hfirst with ⟨hfirst, hno⟩ | ⟨e, hfirst, he⟩
    · rw [hfirst]
      rcases ih with ⟨hrest, hnone⟩ | ⟨e, hrest, a, ha, he⟩
      · rw [hrest]
        refine .inl ⟨rfl, ?_⟩
        rintro e ⟨a, ha, he⟩
        rcases mem_cons.1 ha with rfl | ha
        · exact hno e he
        · exact hnone e ⟨a, ha, he⟩
      · rw [hrest]
        exact .inr ⟨e, rfl, a, mem_cons_of_mem _ ha, he⟩
    · rw [hfirst]
      exact .inr ⟨e, rfl, _, mem_cons_self, he⟩

end Settles

end Except

namespace Tree

/-! ### What cannot be read again -/

/-- Something in a tree that cannot be read where it was written, with the error for it. -/
inductive Flaw : Tree → LoadError → Prop
  /-- A block among the statements of a block. -/
  | nested {s s' : Span} {statements fields : List Tree} (h : .node .block s' fields ∈ statements) :
      Flaw (.node .block s [.list statements])
        (.misfit .block (NodeClass.many "statements" (.category .statement)) "list")
  /-- An object with the key that nodes are told by. -/
  | keyed {entries : List (String × Tree)} (h : "node" ∈ entries.map Prod.fst) :
      Flaw (.object entries) .unusableClass

/-- There is a flaw at some depth of a tree. -/
def Flawed (t : Tree) (e : LoadError) : Prop := ∃ u, t.Contains u ∧ Flaw u e

theorem flawed_node {cls : NodeClass} {s : Span} {fields : List Tree} {e : LoadError} :
    Flawed (.node cls s fields) e ↔ ∃ v ∈ fields, v.Flawed e ∨ Flaw (.node cls s fields) e := by
  constructor
  · rintro ⟨u, hu, hflaw⟩
    cases hu with
    | self =>
      obtain ⟨h⟩ := hflaw
      exact ⟨_, mem_cons_self, .inr (.nested h)⟩
    | field hpart hu => exact ⟨_, hpart, .inl ⟨u, hu, hflaw⟩⟩
  · rintro ⟨v, hv, ⟨u, hu, hflaw⟩ | hflaw⟩
    · exact ⟨u, .field hv hu, hflaw⟩
    · exact ⟨_, .self _, hflaw⟩

theorem flawed_list {items : List Tree} {e : LoadError} :
    Flawed (.list items) e ↔ ∃ t ∈ items, t.Flawed e := by
  constructor
  · rintro ⟨u, hu, hflaw⟩
    cases hu with
    | self => cases hflaw
    | item hpart hu => exact ⟨_, hpart, u, hu, hflaw⟩
  · rintro ⟨t, ht, u, hu, hflaw⟩
    exact ⟨u, .item ht hu, hflaw⟩

theorem flawed_object {entries : List (String × Tree)} {e : LoadError} :
    Flawed (.object entries) e ↔ (∃ f ∈ entries, f.2.Flawed e) ∨ Flaw (.object entries) e := by
  constructor
  · rintro ⟨u, hu, hflaw⟩
    cases hu with
    | self => exact .inr hflaw
    | entry hf hu => exact .inl ⟨_, hf, u, hu, hflaw⟩
  · rintro (⟨f, hf, u, hu, hflaw⟩ | hflaw)
    · exact ⟨u, .entry hf hu, hflaw⟩
    · exact ⟨_, .self _, hflaw⟩

/-- Whether a value is neither a node nor made of other values. -/
def isPlain : Tree → Bool
  | .node _ _ _ | .list _ | .object _ => false
  | _ => true

theorem not_flawed_of_isPlain {t : Tree} (h : t.isPlain = true) (e : LoadError) : ¬ t.Flawed e := by
  rintro ⟨u, hu, hflaw⟩
  cases hu with
  | self => cases hflaw <;> cases h
  | _ => cases h

/-- All nodes of a tree have no source text or are in the file. -/
def InFile (file : Json) (t : Tree) : Prop :=
  ∀ cls s fields, t.Contains (.node cls s fields) → s.isNowhere = true ∨ s.file = file

theorem inFile_node {file : Json} {cls : NodeClass} {s : Span} {fields : List Tree} :
    InFile file (.node cls s fields) ↔ (s.isNowhere = true ∨ s.file = file) ∧
      ∀ v ∈ fields, v.InFile file := by
  constructor
  · intro h
    exact ⟨h cls s fields (.self _), fun v hv _ _ _ hc => h _ _ _ (.field hv hc)⟩
  · rintro ⟨hs, hfields⟩ _ _ _ hc
    cases hc with
    | self => exact hs
    | field hv hc => exact hfields _ hv _ _ _ hc

theorem inFile_list {file : Json} {items : List Tree} :
    InFile file (.list items) ↔ ∀ t ∈ items, t.InFile file := by
  constructor
  · intro h t ht _ _ _ hc
    exact h _ _ _ (.item ht hc)
  · intro h _ _ _ hc
    cases hc with
    | item ht hc => exact h _ ht _ _ _ hc

theorem inFile_object {file : Json} {entries : List (String × Tree)} :
    InFile file (.object entries) ↔ ∀ e ∈ entries, e.2.InFile file := by
  constructor
  · intro h e he _ _ _ hc
    exact h _ _ _ (.entry he hc)
  · intro h _ _ _ hc
    cases hc with
    | entry he hc => exact h _ he _ _ _ hc

theorem inFile_of_isPlain {file : Json} {t : Tree} (h : t.isPlain = true) : t.InFile file := by
  intro _ _ _ hc
  cases hc <;> cases h

/-! ### The shapes of the schema -/

section Shape

variable {shape : Shape}

theorem hasShape_any_operator {op : Operator} (h : hasShape shape (.operator op) = true)
    (op' : Operator) : hasShape shape (.operator op') = true := by
  induction shape with
  | either first second ihfirst ihsecond =>
    exact hasShape_either.2 ((hasShape_either.1 h).imp ihfirst ihsecond)
  | operator => rfl
  | _ => cases h

theorem hasShape_any_literalKind {kind : LiteralKind}
    (h : hasShape shape (.literalKind kind) = true)
    (kind' : LiteralKind) : hasShape shape (.literalKind kind') = true := by
  induction shape with
  | either first second ihfirst ihsecond =>
    exact hasShape_either.2 ((hasShape_either.1 h).imp ihfirst ihsecond)
  | literalKind => rfl
  | _ => cases h

/-- A shape that takes some object takes the empty one. -/
theorem hasShape_object_nil {entries : List (String × Tree)}
    (h : hasShape shape (.object entries) = true) : hasShape shape (.object []) = true := by
  induction shape with
  | either first second ihfirst ihsecond =>
    exact hasShape_either.2 ((hasShape_either.1 h).imp ihfirst ihsecond)
  | object => rfl
  | _ => cases h

end Shape

end Tree

namespace NodeClass

variable {cls : NodeClass} {spec : FieldSpec}

theorem mem_all (cls : NodeClass) : cls ∈ all := by
  cases cls <;> decide

theorem withBlocks_eq (hcls : cls ≠ .block) (hspec : spec ∈ cls.fields) :
    spec.shape.withBlocks = spec.shape := by
  have hall : ∀ cls ∈ all, cls ≠ .block →
      ∀ spec ∈ cls.fields, spec.shape.withBlocks = spec.shape := by
    decide +kernel
  exact hall cls cls.mem_all hcls spec hspec

/-- A field that takes operators takes nothing else. -/
theorem shape_of_operator {op : Operator} (hspec : spec ∈ cls.fields)
    (h : Tree.hasShape spec.shape.withBlocks (.operator op) = true) : spec.shape = .operator := by
  have hall : ∀ cls ∈ all, ∀ spec ∈ cls.fields,
      Tree.hasShape spec.shape.withBlocks (.operator .plus) = true → spec.shape = .operator := by
    decide +kernel
  exact hall cls cls.mem_all spec hspec (Tree.hasShape_any_operator h .plus)

/-- A field that takes literal kinds takes nothing else. -/
theorem shape_of_literalKind {kind : LiteralKind} (hspec : spec ∈ cls.fields)
    (h : Tree.hasShape spec.shape.withBlocks (.literalKind kind) = true) :
    spec.shape = .literalKind := by
  have hall : ∀ cls ∈ all, ∀ spec ∈ cls.fields,
      Tree.hasShape spec.shape.withBlocks (.literalKind .int) = true →
        spec.shape = .literalKind := by
    decide +kernel
  exact hall cls cls.mem_all spec hspec (Tree.hasShape_any_literalKind h .int)

theorem structLiteral_of_object {entries : List (String × Tree)} (hspec : spec ∈ cls.fields)
    (h : Tree.hasShape spec.shape.withBlocks (.object entries) = true) : cls = .structLiteral := by
  have hall : ∀ cls ∈ all, ∀ spec ∈ cls.fields,
      Tree.hasShape spec.shape.withBlocks (.object []) = true → cls = .structLiteral := by
    decide +kernel
  exact hall cls cls.mem_all spec hspec (Tree.hasShape_object_nil h)

end NodeClass

namespace Tree

/-! ### Fields -/

/-- Whether a value is an operator or a literal kind, which are written like texts. -/
def isSymbol : Tree → Bool
  | .operator _ | .literalKind _ => true
  | _ => false

theorem not_hasShape_of_block {items : List Tree} {s : Span} {fields : List Tree}
    (h : .node .block s fields ∈ items) : ¬ hasShape (.list (.category .statement))
      (.list items) = true := by
  intro hshape
  obtain ⟨_, heq, hitems⟩ := hasShape_list.1 hshape
  cases heq
  cases hitems _ h

section Node

variable {cls : NodeClass} {s : Span} {fields : List Tree} {file : Json}
  {parts : List (String × Part)} {spec : FieldSpec} {v : Tree}

/-- A value in a field has the field's shape, or the node is a block with a block in it. -/
theorem hasShape_or_nested
    (hfits : List.Forall₂ (fun spec v => hasShape spec.shape.withBlocks v = true) cls.fields fields)
    (hspec : spec ∈ cls.fields) (hv : v ∈ fields)
    (hshape : hasShape spec.shape.withBlocks v = true) :
    hasShape spec.shape v = true ∨ ∃ items s' fields', cls = .block ∧
      spec = NodeClass.many "statements" (.category .statement) ∧ v = .list items ∧
        fields = [.list items] ∧
      .node .block s' fields' ∈ items := by
  by_cases hcls : cls = .block
  · subst hcls
    obtain rfl := mem_singleton.1 hspec
    obtain ⟨w, rest, -, hrest, rfl⟩ := forall₂_cons_left_iff.1 hfits
    obtain rfl := forall₂_nil_left_iff.1 hrest
    obtain rfl := mem_singleton.1 hv
    obtain ⟨items, rfl, hitems⟩ := hasShape_list.1 hshape
    by_cases hblock : ∃ s' fields', .node .block s' fields' ∈ items
    · obtain ⟨s', fields', hblock⟩ := hblock
      exact .inr ⟨items, s', fields', rfl, rfl, rfl, rfl, hblock⟩
    · refine .inl (hasShape_list.2 ⟨items, rfl, fun item hitem => ?_⟩)
      rcases hasShape_either.1 (hitems item hitem) with hstatement | hnode
      · exact hstatement
      · obtain ⟨s', fields', rfl⟩ := hasShape_node.1 hnode
        exact absurd ⟨s', fields', hitem⟩ hblock
  -- No other class asks for statements, so that blocks make no difference.
  · exact .inl (NodeClass.withBlocks_eq hcls hspec ▸ hshape)

theorem readAs_settles (hspec : spec ∈ cls.fields)
    (hshape : hasShape spec.shape.withBlocks v = true)
    (hread : v.isSymbol = false → Except.Settles (load file v.toJson) v.settled v.Flawed) :
    Except.Settles (readAs spec.shape v.toJson (load file v.toJson)) v.settled v.Flawed := by
  cases v with
  | operator op =>
    rw [NodeClass.shape_of_operator hspec hshape, readAs, toJson, loadOperator, op.ofSymbol?_symbol]
    exact .inl ⟨rfl, not_flawed_of_isPlain rfl⟩
  | literalKind kind =>
    rw [NodeClass.shape_of_literalKind hspec hshape, readAs, toJson, loadLiteralKind,
      kind.ofSymbol?_symbol]
    exact .inl ⟨rfl, not_flawed_of_isPlain rfl⟩
  | _ =>
    rw [readAs_of_plain (by intro h; rw [h] at hshape; cases hshape)
      (by intro h; rw [h] at hshape; cases hshape)]
    exact hread rfl

theorem shape_settles
    (hfits : List.Forall₂ (fun spec v => hasShape spec.shape.withBlocks v = true) cls.fields fields)
    (hspec : spec ∈ cls.fields) (hv : v ∈ fields)
    (hshape : hasShape spec.shape.withBlocks v = true) :
    Except.Settles (if hasShape spec.shape v.settled then .ok v.settled
      else .error (.misfit cls spec v.settled.describeValue)) v.settled
        (Flaw (.node cls s fields)) := by
  rcases hasShape_or_nested hfits hspec hv hshape with hstrict |
    ⟨items, s', fields', rfl, rfl, rfl, rfl, hblock⟩
  · have hsettled : hasShape spec.shape v.settled = true := hasShape_mapSpans _ hstrict
    rw [if_pos hsettled]
    refine .inl ⟨rfl, fun e hflaw => ?_⟩
    cases hflaw with
    | nested hblock =>
      obtain rfl := mem_singleton.1 hspec
      obtain rfl := mem_singleton.1 hv
      exact not_hasShape_of_block hblock hstrict
  · have hblock' := mem_map_of_mem (f := mapSpans Span.settled) hblock
    rw [← mapSpansAll_eq_map] at hblock'
    have hloose : ¬ hasShape (NodeClass.many "statements" (.category .statement)).shape
        (list items).settled = true :=
      not_hasShape_of_block hblock'
    rw [if_neg hloose]
    exact .inr ⟨_, rfl, .nested hblock⟩

/-- A field is read where its value was written, or refused for a flaw in it or in the node. -/
theorem loadField_settles
    (hfits : List.Forall₂ (fun spec v => hasShape spec.shape.withBlocks v = true) cls.fields fields)
    (hspec : spec ∈ cls.fields) (hv : v ∈ fields) (hshape : hasShape spec.shape.withBlocks v = true)
    (hread : v.isSymbol = false → Except.Settles (load file v.toJson) v.settled v.Flawed)
    (hwritten : Keyed.find? spec.name parts = some (v.toJson, load file v.toJson)) :
    Except.Settles (loadField cls parts spec) v.settled fun e =>
      v.Flawed e ∨ Flaw (.node cls s fields) e := by
  rw [loadField_eq hwritten]
  exact (readAs_settles hspec hshape hread).bind (shape_settles hfits hspec hv hshape)

theorem forall₂_written {specs : List FieldSpec} {R : FieldSpec → Tree → Prop}
    (h : List.Forall₂ R specs fields) :
    List.Forall₂ (fun spec v => R spec v ∧ spec ∈ specs ∧ v ∈ fields ∧
      (spec.name, v.toJson) ∈ toJsonFields specs fields) specs fields := by
  induction h with
  | nil => exact .nil
  | cons hfirst _ ih =>
    refine .cons ⟨hfirst, mem_cons_self, mem_cons_self, mem_cons_self⟩ (ih.imp ?_)
    rintro spec v ⟨hR, hspec, hv, hentry⟩
    exact ⟨hR, mem_cons_of_mem _ hspec, mem_cons_of_mem _ hv, mem_cons_of_mem _ hentry⟩

/-- The fields of a node are read where they were written, or one is refused for a flaw. -/
theorem loadFields_settles
    (hfits : List.Forall₂ (fun spec v => hasShape spec.shape.withBlocks v = true) cls.fields fields)
    (hread : ∀ v ∈ fields, v.isSymbol = false → Except.Settles (load file v.toJson)
      v.settled v.Flawed) :
    Except.Settles (loadFields cls (loadParts file (nodeEntries cls s fields)) cls.fields)
      (mapSpansAll Span.settled fields) (Flawed (.node cls s fields)) := by
  have hwritten : ∀ e ∈ toJsonFields cls.fields fields,
      Keyed.find? e.1 (loadParts file (nodeEntries cls s fields)) = some (e.2, load file e.2) :=
    fun e he => find?_nodeEntries s fields (mem_append_right _ he)
  have hfields : List.Forall₂ (fun spec v =>
      Except.Settles (loadField cls (loadParts file (nodeEntries cls s fields)) spec) v.settled
        fun e => v.Flawed e ∨ Flaw (.node cls s fields) e) cls.fields fields := by
    refine (forall₂_written hfits).imp ?_
    rintro spec v ⟨hshape, hspec, hv, hentry⟩
    exact loadField_settles hfits hspec hv hshape (hread v hv) (hwritten _ hentry)
  rw [loadFields_eq_mapM, mapSpansAll_eq_map]
  exact (Except.Settles.mapM hfields).congr fun e => flawed_node.symm

end Node

/-! ### Values -/

theorem toJsonItems_eq_map (items : List Tree) : toJsonItems items = items.map toJson := by
  induction items with
  | nil => rfl
  | cons t rest ih => rw [toJsonItems, ih, map_cons]

theorem toJsonEntries_eq_map (entries : List (String × Tree)) :
    toJsonEntries entries = entries.map fun e => (e.1, e.2.toJson) := by
  induction entries with
  | nil => rfl
  | cons e rest ih => rw [toJsonEntries, ih, map_cons]

theorem isSymbol_of_isNode {t : Tree} (h : t.isNode = true) : t.isSymbol = false := by
  cases t with
  | node => rfl
  | _ => cases h

theorem load_toJson_of_isNode {file : Json} {t : Tree} (h : t.isNode = true) :
    load file t.toJson = loadNode file t.toJson := by
  cases t with
  | node cls s fields => rw [toJson, load, if_pos (isNode_iff.2 mem_cons_self), loadNode]
  | _ => cases h

theorem loadNode_settles {file : Json} {cls : NodeClass} {s : Span} {fields : List Tree}
    (hliteral : checkLiteral cls fields = .ok ()) (hspan : s.isNowhere = true ∨ s.file = file)
    (h : Except.Settles (loadFields cls (loadParts file (nodeEntries cls s fields)) cls.fields)
      (mapSpansAll Span.settled fields) (Flawed (.node cls s fields))) :
    Except.Settles (loadNode file (toJson (.node cls s fields))) (settled (.node cls s fields))
      (Flawed (.node cls s fields)) := by
  have hclass : loadClass (((Keyed.find? "node"
      (loadParts file (nodeEntries cls s fields))).map Prod.fst).getD .null) = .ok cls := by
    rw [find?_loadParts_fst]
    show loadClass (.str cls.name) = .ok cls
    rw [loadClass, cls.ofName?_name]
  have hread : loadSpan file
    (((Keyed.find? "span" (loadParts file (nodeEntries cls s fields))).map Prod.fst).getD
      .null) = .ok s.settled := by
    rw [find?_span]
    exact loadSpan_toTreeJson? hspan
  show Except.Settles (assemble file (loadParts file (nodeEntries cls s fields))) _ _
  rw [assemble_eq hclass (unknownFields_nodeEntries s fields) hread]
  refine h.bind_ok ?_
  show (checkLiteral cls (mapSpansAll Span.settled fields) >>= _) = _
  rw [checkLiteral_mapSpans _ hliteral]
  rfl

/-- Where values are nodes, what is found under a name is an object. -/
theorem find?_toJsonEntries {entries : List (String × Tree)}
    (hnodes : ∀ e ∈ entries, e.2.isNode = true) {name : String} (h : name ∈ entries.map Prod.fst) :
    ∃ raw, Keyed.find? name (toJsonEntries entries) = some raw ∧ raw.Compound := by
  induction entries with
  | nil => cases h
  | cons e rest ih =>
    obtain ⟨key, t⟩ := e
    rw [toJsonEntries, Keyed.find?]
    by_cases hkey : key = name
    · rw [if_pos hkey]
      refine ⟨_, rfl, ?_⟩
      have hnode : t.isNode = true := hnodes _ mem_cons_self
      cases t with
      | node => exact .obj _
      | _ => cases hnode
    · rw [if_neg hkey]
      refine ih (fun e he => hnodes e (mem_cons_of_mem _ he)) ?_
      exact (mem_cons.1 h).resolve_left fun hname => hkey hname.symm

theorem load_list_settles {file : Json} {items : List Tree}
    (hread : ∀ t ∈ items, Except.Settles (load file t.toJson) t.settled t.Flawed) :
    Except.Settles (load file (toJson (.list items))) (settled (.list items))
      (Flawed (.list items)) := by
  have hitems : List.Forall₂ (fun raw t => Except.Settles (load file raw) t.settled t.Flawed)
      (items.map toJson) items :=
    forall₂_map_left_iff.2 (forall₂_same.2 hread)
  show Except.Settles ((loadItems file (toJsonItems items)).map Tree.list)
    (Tree.list (mapSpansAll Span.settled items)) _
  rw [toJsonItems_eq_map, loadItems_eq_mapM, mapSpansAll_eq_map]
  exact ((Except.Settles.mapM hitems).map Tree.list).congr fun e => flawed_list.symm

/-- An object of nodes is refused for its values, or since it has the key of nodes. -/
theorem load_object_settles {file : Json} {entries : List (String × Tree)}
    (hnodes : ∀ e ∈ entries, e.2.isNode = true)
    (hread : ∀ e ∈ entries, Except.Settles (load file e.2.toJson) e.2.settled e.2.Flawed) :
    Except.Settles (load file (toJson (.object entries))) (settled (.object entries))
      (Flawed (.object entries)) := by
  rw [toJson, load]
  by_cases hkey : "node" ∈ entries.map Prod.fst
  -- The object is taken for a node, and what names its class is a node that was written as an
  -- object.
  · rw [if_pos (isNode_iff.2 (by rwa [toJsonEntries_names])),
      assemble_unusable.2 (.inl (find?_toJsonEntries hnodes hkey))]
    exact .inr ⟨_, rfl, _, .self _, .keyed hkey⟩
  · have hentries : List.Forall₂
      (fun raw e => Except.Settles ((load file raw.2).map (Prod.mk raw.1))
        (e.1, e.2.settled) e.2.Flawed) (entries.map fun e => (e.1, e.2.toJson)) entries :=
      forall₂_map_left_iff.2 (forall₂_same.2 fun e he => (hread e he).map _)
    have hplain : ∀ e, ¬ Flaw (.object entries) e := by
      intro e hflaw
      cases hflaw with
      | keyed h => exact hkey h
    rw [if_neg (mt isNode_iff.1 (by rwa [toJsonEntries_names])), loadEntries_eq_mapM,
      toJsonEntries_eq_map]
    show Except.Settles _ (Tree.object (mapSpansEntries Span.settled entries)) _
    rw [mapSpansEntries_eq_map]
    exact ((Except.Settles.mapM hentries).map Tree.object).congr fun e =>
      (flawed_object.trans (or_iff_left (hplain e))).symm

/-- **A composed value is read where it was written, or is refused for a flaw in it.** -/
theorem load_settles {file : Json} {t : Tree} (h : Composed t) (hfile : t.InFile file)
    (hsymbol : t.isSymbol = false) : Except.Settles (load file t.toJson) t.settled t.Flawed := by
  induction h with
  | node hfits hliteral _ ih =>
    obtain ⟨hspan, hfields⟩ := inFile_node.1 hfile
    rw [load_toJson_of_isNode rfl]
    exact loadNode_settles hliteral hspan
      (loadFields_settles hfits fun v hv => ih v hv (hfields v hv))
  | list hnodes _ ih =>
    exact load_list_settles fun t ht =>
      ih t ht (inFile_list.1 hfile t ht) (isSymbol_of_isNode (hnodes t ht))
  | object hnodes _ ih =>
    exact load_object_settles hnodes fun e he =>
      ih e he (inFile_object.1 hfile e he) (isSymbol_of_isNode (hnodes e he))
  | null | bool | int | float | text => exact .inl ⟨rfl, not_flawed_of_isPlain rfl⟩
  | operator | literalKind => cases hsymbol

/-! ### Documents -/

/-- Something in a tree that its document cannot be loaded for, with the error. -/
inductive Obstacle (t : Tree) : LoadError → Prop
  /-- A block among the statements of a block. -/
  | nested {s s' : Span} {statements fields : List Tree}
      (h : t.Contains (.node .block s [.list statements]))
      (hblock : .node .block s' fields ∈ statements) :
      Obstacle t (.misfit .block (NodeClass.many "statements" (.category .statement)) "list")
  /-- A struct literal with a field that has the name by which nodes are told. -/
  | named {s : Span} {typeName : Tree} {entries : List (String × Tree)}
      (h : t.Contains (.node .structLiteral s [typeName, .object entries]))
      (hname : "node" ∈ entries.map Prod.fst) :
      Obstacle t .unusableClass

theorem Contains.trans {t u v : Tree} (htu : t.Contains u) (huv : u.Contains v) : t.Contains v := by
  induction htu with
  | self => exact huv
  | field hpart _ ih => exact .field hpart (ih huv)
  | item hpart _ ih => exact .item hpart (ih huv)
  | entry he _ ih => exact .entry he (ih huv)

theorem structLiteral_of_mem {cls : NodeClass} {fields : List Tree} {entries : List (String × Tree)}
    (hfits : List.Forall₂ (fun spec v => hasShape spec.shape.withBlocks v = true) cls.fields fields)
    (hmem : .object entries ∈ fields) : cls = .structLiteral ∧
      ∃ typeName, fields = [typeName, .object entries] := by
  obtain ⟨spec, hspec, hshape⟩ := Except.forall₂_exists hfits.flip hmem
  obtain rfl := NodeClass.structLiteral_of_object hspec hshape
  obtain ⟨typeName, _, htext, hrest, rfl⟩ := forall₂_cons_left_iff.1 hfits
  obtain ⟨_, _, -, hnone, rfl⟩ := forall₂_cons_left_iff.1 hrest
  obtain rfl := forall₂_nil_left_iff.1 hnone
  rcases mem_cons.1 hmem with rfl | hmem
  · cases htext
  · obtain rfl := mem_singleton.1 hmem
    exact ⟨rfl, typeName, rfl⟩

theorem Composed.contains_object {t : Tree} {entries : List (String × Tree)} (h : Composed t)
    (hentries : t.Contains (.object entries)) :
    t = .object entries ∨ ∃ s typeName, t.Contains
      (.node .structLiteral s [typeName, .object entries]) := by
  induction h with
  | node hfits _ _ ih =>
    cases hentries with
    | field hv hc =>
      rcases ih _ hv hc with rfl | ⟨s, typeName, hc⟩
      · obtain ⟨rfl, typeName, rfl⟩ := structLiteral_of_mem hfits hv
        exact .inr ⟨_, typeName, .self _⟩
      · exact .inr ⟨s, typeName, .field hv hc⟩
  | list hnodes _ ih =>
    cases hentries with
    | item ht hc =>
      rcases ih _ ht hc with rfl | ⟨s, typeName, hc⟩
      · cases hnodes _ ht
      · exact .inr ⟨s, typeName, .item ht hc⟩
  | object hnodes _ ih =>
    cases hentries with
    | self => exact .inl rfl
    | entry he hc =>
      rcases ih _ he hc with heq | ⟨s, typeName, hc⟩
      · have hnode := hnodes _ he
        rw [heq] at hnode
        cases hnode
      · exact .inr ⟨s, typeName, .entry he hc⟩
  | _ => cases hentries

theorem flawed_iff_obstacle {t : Tree} (h : Composed t) (hnode : t.isNode = true) {e : LoadError} :
    t.Flawed e ↔ t.Obstacle e := by
  constructor
  · rintro ⟨u, hu, hflaw⟩
    cases hflaw with
    | nested hblock => exact .nested hu hblock
    | keyed hkey =>
      rcases h.contains_object hu with rfl | ⟨s, typeName, hliteral⟩
      · cases hnode
      · exact .named hliteral hkey
  · intro hobstacle
    cases hobstacle with
    | nested hblock hmem => exact ⟨_, hblock, .nested hmem⟩
    | named hliteral hname =>
      have hfields := hliteral.trans (.field (mem_cons_of_mem _ mem_cons_self) (.self _))
      exact ⟨_, hfields, .keyed hname⟩

/--
**Loading gives again what constructors made.**  A module made by constructors, with all its nodes
in one file or without source text, is loaded from its document as a tree that is equal to it node
by node, where there is no obstacle in it.  Where there is one, the document is refused for one.
-/
theorem ofDocument_built {t : Tree} {file : Json} (hbuilt : Built t)
    (hroot : hasShape (.node .compilationUnit) t = true) (hfile : t.InFile file) :
    ((∀ e, ¬ t.Obstacle e) → ∃ t', ofDocument (t.toDocument file) = .ok t' ∧ t.Same t') ∧
      ((∃ e, t.Obstacle e) → ∃ e, ofDocument (t.toDocument file) = .error e ∧ t.Obstacle e) := by
  obtain ⟨s, fields, rfl⟩ := hasShape_node.1 hroot
  have hsettles := (load_settles hbuilt.composed hfile rfl).congr fun e =>
    flawed_iff_obstacle hbuilt.composed rfl
  rw [load_toJson_of_isNode rfl] at hsettles
  rcases hsettles with ⟨hload, hno⟩ | ⟨e, hload, hobstacle⟩
  · refine ⟨fun _ => ⟨_, ofDocument_written rfl hload rfl, (numbered_settled _).symm⟩, ?_⟩
    rintro ⟨e, hobstacle⟩
    exact absurd hobstacle (hno e)
  · obtain ⟨written, hdoc, hschema, hmodule, hname⟩ :=
      toDocument_entries (.node .compilationUnit s fields) file
    refine ⟨fun hno => absurd hobstacle (hno e), fun _ => ⟨e, ?_, hobstacle⟩⟩
    rw [hdoc]
    refine ofDocument_of_error ?_ hmodule (by rw [hname]; exact hload)
    intro found hfound
    exact Option.some.inj (hfound.symm.trans hschema)

/-! ### Trees that were loaded -/

end Tree

theorem Span.ReadFrom.inFile {file raw : Json} {s : Span} (h : s.ReadFrom file raw) :
    s.isNowhere = true ∨ s.file = file := by
  cases h with
  | nothing => exact .inl rfl
  | point | range => exact .inr rfl

/-- Whether the lists and objects that a shape takes have nodes in them alone. -/
def Shape.holdsNodes : Shape → Bool
  | .list item | .object item => item.asksNode
  | .either first second => first.holdsNodes && second.holdsNodes
  | _ => true

theorem NodeClass.holdsNodes (cls : NodeClass) :
    ∀ spec ∈ cls.fields, spec.shape.holdsNodes = true := by
  cases cls <;> decide

namespace Tree

section Shape

variable {shape : Shape} (hshape : shape.holdsNodes = true)

include hshape

theorem isNode_of_item {items : List Tree} (h : hasShape shape (.list items) = true) :
    ∀ t ∈ items, t.isNode = true := by
  induction shape with
  | list item =>
    obtain ⟨_, heq, hitems⟩ := hasShape_list.1 h
    cases heq
    exact fun t ht => isNode_of_shape hshape (hasShape_withBlocks (hitems t ht))
  | either first second ihfirst ihsecond =>
    obtain ⟨hfirst, hsecond⟩ := Bool.and_eq_true_iff.1 hshape
    exact (hasShape_either.1 h).elim (ihfirst hfirst) (ihsecond hsecond)
  | _ => cases h

theorem isNode_of_entry {entries : List (String × Tree)}
    (h : hasShape shape (.object entries) = true) : ∀ e ∈ entries, e.2.isNode = true := by
  induction shape with
  | object item =>
    obtain ⟨_, heq, hentries⟩ := hasShape_object.1 h
    cases heq
    exact fun e he => isNode_of_shape hshape (hasShape_withBlocks (hentries e he))
  | either first second ihfirst ihsecond =>
    obtain ⟨hfirst, hsecond⟩ := Bool.and_eq_true_iff.1 hshape
    exact (hasShape_either.1 h).elim (ihfirst hfirst) (ihsecond hsecond)
  | _ => cases h

end Shape

namespace Loaded

variable {file doc : Json} {t : Tree}

theorem composed (h : Loaded file doc t) {shape : Shape} (hshape : hasShape shape t = true)
    (hholds : shape.holdsNodes = true) : Composed t := by
  have hnode {u : Tree} (hu : u.isNode = true)
      (ih : ∀ {shape : Shape}, hasShape shape u = true → shape.holdsNodes = true → Composed u) :
        Composed u := by
    cases u with
    | node cls s fields => exact ih (hasShape_node.2 ⟨s, fields, rfl⟩) rfl
    | _ => cases hu
  induction h generalizing shape with
  | @node cls _ _ _ hfits hliteral _ ih =>
    refine .node (hfits.imp fun _ _ => hasShape_withBlocks) hliteral fun v hv => ?_
    obtain ⟨spec, hspec, hv'⟩ := Except.forall₂_exists hfits.flip hv
    exact ih v hv hv' (cls.holdsNodes spec hspec)
  | list _ ih =>
    have hnodes := isNode_of_item hholds hshape
    exact .list hnodes fun t ht => hnode (hnodes t ht) (ih t ht)
  | object _ _ ih =>
    have hnodes := isNode_of_entry hholds hshape
    exact .object hnodes fun e he => hnode (hnodes e he) (ih e he)
  | _ => constructor

theorem inFile (h : Loaded file doc t) : t.InFile file := by
  intro cls s fields hc
  cases hc.loaded h with
  | node hsource =>
    obtain ⟨_, -, -, hspan⟩ := hsource
    exact hspan.inFile

/-- Loading leaves no flaw: what was read fits the schema, and no object has the key of nodes. -/
theorem not_flawed (h : Loaded file doc t) (e : LoadError) : ¬ t.Flawed e := by
  rintro ⟨u, hu, hflaw⟩
  cases hflaw with
  | nested hblock =>
    cases hu.loaded h with
    | node _ hfits =>
      obtain ⟨_, _, hstatements, -, heq⟩ := forall₂_cons_left_iff.1 hfits
      cases heq
      exact not_hasShape_of_block hblock hstatements
  | keyed hkey =>
    cases hu.loaded h with
    | object hkeys => exact hkeys hkey

end Loaded

/--
**Writing undoes loading.**  The tree that a document is loaded as can be written, in the file that
the document names, and loaded again.  The second tree is equal to the first node by node, and is
written as the same document.
-/
theorem ofDocument_toDocument {doc : Json} {t : Tree} (h : ofDocument doc = .ok t) :
    ∃ t', ofDocument (t.toDocument (fileName doc)) = .ok t' ∧ t.Same t' ∧
      t'.toDocument (fileName doc) = t.toDocument (fileName doc) := by
  obtain ⟨⟨root, hloaded⟩, hroot⟩ := ofDocument_loaded h
  have hcomposed := hloaded.composed hroot rfl
  obtain ⟨s, fields, rfl⟩ := hasShape_node.1 hroot
  rcases load_settles hcomposed hloaded.inFile rfl with ⟨hload, -⟩ | ⟨e, -, hflaw⟩
  · rw [load_toJson_of_isNode rfl] at hload
    refine ⟨_, ofDocument_written rfl hload rfl, (numbered_settled _).symm, ?_⟩
    unfold toDocument
    rw [toJson_settled]
  · exact absurd hflaw (hloaded.not_flawed e)

/--
A document in a file.  The span of its module is null, that of a variable has a line that is a truth
value, a structure has none, and that of a literal ends where it starts.
-/
def flaggedDocument : Json :=
  let literal : Json := .obj
    [("node", .str "Literal"), ("span", .arr [.int 1, .int 9, .bool true, .int 9]),
    ("value", .int 3), ("literal_kind", .str "float")]
  let record : Json := .obj
    [("node", .str "StructLiteral"), ("type_name", .str "P"), ("fields", .obj [("x", literal)])]
  .obj [("schema", .str treeSchemaId), ("file", .str "a.src"),
    ("module", .obj [("node", .str "Module"), ("name", .null), ("span", .null), ("variables", .arr
      [.obj [("initializer", record), ("node", .str "VarDecl"),
        ("span", .arr [.bool true, .int 1, .int 1, .int 12]), ("name", .str "p")]])])]

/-- It is loaded, written in another form, and loaded again. -/
theorem ofDocument_toDocument_flagged : fileName flaggedDocument = .str "a.src" ∧
    ∃ t t', ofDocument flaggedDocument = .ok t ∧ ofDocument (t.toDocument (.str "a.src")) = .ok t' ∧
      t.Same t' ∧ t'.toDocument (.str "a.src") = t.toDocument (.str "a.src") := by
  have hload : (ofDocument flaggedDocument).toOption.isSome = true := by decide +kernel
  obtain ⟨t, ht⟩ := Option.isSome_iff_exists.1 hload
  have ht := Except.toOption_eq_some.1 ht
  obtain ⟨t', ht', hsame, hwritten⟩ := ofDocument_toDocument ht
  exact ⟨rfl, t, t', ht, ht', hsame, hwritten⟩

/-! ### Modules that are made and loaded -/

/-- A call with arguments of the kinds that are asked for, the nodes among them built before. -/
theorem Built.call (name : String) {params : Parameters} {make : Arguments → Make.Made}
    {kinds : Asked}
    (hmake : constructors.find? name = some (params, make)) (hkinds : asked.find? name = some kinds)
    (args : List Tree) (named : Keyed Tree) {a : Arguments} (hbind : params.bind args named = .ok a)
    (hargs : kinds.Takes Built a) {t : Tree} (h : make a = .ok t) : Built t :=
  .made (fun _ hbuilt => hbuilt) hmake hkinds hbind hargs h

/-- A structure with one field. -/
def recordDecl (field : String) : Tree :=
  .node .structDecl .nowhere
    [.text "P", .list [.node .fieldDecl .nowhere
      [.text field, .node .simpleType .nowhere [.text "int"]]]]

/-- A value of the structure. -/
def recordValue (field : String) (s : Span) : Tree :=
  .node .structLiteral s [.text "P",
    .object [(field, .node .literal s [.int 1, .literalKind .int])]]

/-- The structure, and a variable that holds the value. -/
def recordModule (field : String) (s : Span) : Tree :=
  .node .compilationUnit .nowhere [.null, .list [recordDecl field],
    .list [.node .varDecl .nowhere [.text "p", .null, recordValue field s]], .list []]

theorem built_recordModule {field : String} (hfield : field ∈ ["x", "node"]) (s : Span) :
    Built (recordModule field s) := by
  have hdecl : Built (recordDecl field) :=
    Built.call "struct" rfl rfl [.text "P", .object [(field, .text "int")]] [] rfl
      ⟨forall_mem_cons.2 ⟨⟨"P", rfl⟩, forall_mem_cons.2
        ⟨.inl ⟨_, rfl, forall_mem_singleton.2 (.inr ⟨"int", rfl⟩)⟩,
          forall_mem_singleton.2 (.inl rfl)⟩⟩,
        forall_mem_nil _, forall_mem_nil _⟩ rfl
  have hvalue : Built (recordValue field s) := by
    have hbind : Parameters.bind { positional := [req "type_name", spanParam], anyName := true }
        [.text "P", .location s] [(field, .int 1)] =
          .ok ⟨[("type_name", .text "P"), ("span", .location s)], [], [(field, .int 1)]⟩ := by
      rcases mem_pair.1 hfield with rfl | rfl <;> rfl
    exact Built.call "struct_lit" rfl rfl _ _ hbind
      ⟨forall_mem_cons.2 ⟨⟨"P", rfl⟩, forall_mem_singleton.2 (.inr (.inr (.inr ⟨s, rfl⟩)))⟩,
        forall_mem_nil _, forall_mem_singleton.2 (.inr (.inr (.inl ⟨1, rfl⟩)))⟩ rfl
  have hvar : Built (.node .varDecl .nowhere [.text "p", .null, recordValue field s]) :=
    Built.call "var" rfl rfl [.text "p", .null, recordValue field s] [] rfl
      ⟨forall_mem_cons.2 ⟨⟨"p", rfl⟩, forall_mem_cons.2 ⟨.inr rfl, forall_mem_cons.2
        ⟨.inl (.inl ⟨rfl, hvalue⟩), forall_mem_singleton.2 (.inl rfl)⟩⟩⟩,
        forall_mem_nil _, forall_mem_nil _⟩ rfl
  exact Built.call "module" rfl rfl [_, _] [] rfl
    ⟨forall_mem_cons.2 ⟨.inr rfl, forall_mem_singleton.2 (.inl rfl)⟩,
      forall_mem_cons.2 ⟨⟨rfl, hdecl⟩, forall_mem_singleton.2 ⟨rfl, hvar⟩⟩, forall_mem_nil _⟩ rfl

theorem inFile_recordModule {file : Json} {field : String} {s : Span}
    (h : s.isNowhere = true ∨ s.file = file) : (recordModule field s).InFile file := by
  have hnowhere : Span.nowhere.isNowhere = true := rfl
  simp only [recordModule, recordDecl, recordValue, inFile_node, inFile_list, inFile_object,
    forall_mem_cons,
    not_mem_nil, IsEmpty.forall_iff, implies_true, hnowhere, h, true_or, and_true, true_and]
  and_intros <;> exact inFile_of_isPlain (by rfl)

/-- The module with its value at a place in a file, and all else without source text. -/
def placedRecord : Tree := recordModule "x" ⟨.ofNumbers 2 5, .ofNumbers 2 12, .str "a.src"⟩

/-- Nothing is in the way, and the module is loaded. -/
theorem ofDocument_built_record : Built placedRecord ∧ hasShape (.node .compilationUnit)
    placedRecord = true ∧ placedRecord.InFile (.str "a.src") ∧ (∀ e, ¬ placedRecord.Obstacle e) ∧
    ∃ t, ofDocument (placedRecord.toDocument (.str "a.src")) = .ok t ∧ placedRecord.Same t := by
  have hbuilt : Built placedRecord := built_recordModule (by decide) _
  have hfile : placedRecord.InFile (.str "a.src") := inFile_recordModule (.inr rfl)
  have hload : (ofDocument (placedRecord.toDocument (.str "a.src"))).toOption.isSome = true := by
    decide +kernel
  obtain ⟨hloaded, hrefused⟩ := ofDocument_built hbuilt rfl hfile
  have hno : ∀ e, ¬ placedRecord.Obstacle e := by
    intro e he
    obtain ⟨_, herror, -⟩ := hrefused ⟨e, he⟩
    rw [herror] at hload
    cases hload
  exact ⟨hbuilt, rfl, hfile, hno, hloaded hno⟩

def innerBlock : Tree := .node .block .nowhere [.list [.node .passStatement .nowhere []]]

/-- A function with a block among the statements of its body. -/
def blockFunction : Tree :=
  .node .functionDef .nowhere
    [.text "f", .list [], .null, .node .block .nowhere [.list [innerBlock]], .null]

def blockModule : Tree :=
  .node .compilationUnit .nowhere [.null, .list [], .list [], .list [blockFunction]]

theorem built_blockModule : Built blockModule := by
  have hpass : Built (.node .passStatement .nowhere []) :=
    Built.call "pass_" rfl rfl [] [] rfl
      ⟨forall_mem_singleton.2 (.inl rfl), forall_mem_nil _, forall_mem_nil _⟩ rfl
  have hblock : Built innerBlock :=
    Built.call "block" rfl rfl [.node .passStatement .nowhere []] [] rfl
      ⟨forall_mem_singleton.2 (.inl rfl), forall_mem_singleton.2 ⟨rfl, hpass⟩, forall_mem_nil _⟩ rfl
  have hfunction : Built blockFunction :=
    Built.call "func" rfl rfl [.text "f"] [("body", .list [innerBlock])] rfl
      ⟨forall_mem_cons.2 ⟨⟨"f", rfl⟩, forall_mem_cons.2 ⟨.inr ⟨[], rfl, forall_mem_nil _⟩,
        forall_mem_cons.2 ⟨.inr rfl, forall_mem_cons.2
          ⟨⟨_, rfl, forall_mem_singleton.2 ⟨rfl, hblock⟩⟩, forall_mem_singleton.2 (.inl rfl)⟩⟩⟩⟩,
        forall_mem_nil _, forall_mem_nil _⟩ rfl
  exact Built.call "module" rfl rfl [blockFunction] [] rfl
    ⟨forall_mem_cons.2 ⟨.inr rfl, forall_mem_singleton.2 (.inl rfl)⟩,
      forall_mem_singleton.2 ⟨rfl, hfunction⟩, forall_mem_nil _⟩ rfl

theorem inFile_blockModule (file : Json) : blockModule.InFile file := by
  have hnowhere : Span.nowhere.isNowhere = true := rfl
  simp only [blockModule, blockFunction, innerBlock, inFile_node, inFile_list, forall_mem_cons,
    not_mem_nil, IsEmpty.forall_iff, implies_true, hnowhere, true_or, and_true, true_and]
  and_intros <;> exact inFile_of_isPlain (by rfl)

/-- A module without source text is made and accepted, and its document cannot be loaded. -/
structure Lost (t : Tree) : Prop where
  built : Built t
  root : hasShape (.node .compilationUnit) t = true
  inFile : t.InFile .null
  accepted : ∃ m c, Module.ofTree? (.root 0) t = some m ∧ m.check {} = .ok c ∧ c.accepted = true
  refused : ∃ e, ofDocument (t.toDocument .null) = .error e

theorem exists_accepted {t : Tree} (h : ((Module.ofTree? (.root 0) t).bind fun m =>
    (m.check {}).toOption.map Checked.accepted) = some true) :
    ∃ m c, Module.ofTree? (.root 0) t = some m ∧ m.check {} = .ok c ∧ c.accepted = true := by
  obtain ⟨m, hm, hrun⟩ := Option.bind_eq_some_iff.1 h
  obtain ⟨c, hc, haccepted⟩ := Option.map_eq_some_iff.1 hrun
  exact ⟨m, c, hm, Except.toOption_eq_some.1 hc, haccepted⟩

theorem exists_refused {doc : Json} (h : (ofDocument doc).toOption.isSome = false) :
    ∃ e, ofDocument doc = .error e := by
  cases hload : ofDocument doc with
  | ok t =>
    rw [hload] at h
    cases h
  | error e => exact ⟨e, rfl⟩

/-- Two modules are lost, one for a block among statements and one for the name of a field. -/
theorem lost_modules : Lost blockModule ∧ Lost (recordModule "node" .nowhere) := by
  constructor
  · exact ⟨built_blockModule, rfl, inFile_blockModule _, exists_accepted (by decide +kernel),
      exists_refused (by decide +kernel)⟩
  · exact ⟨built_recordModule (by decide) _, rfl, inFile_recordModule (.inl rfl),
      exists_accepted (by decide +kernel), exists_refused (by decide +kernel)⟩

end Tree

end TreeTyping
