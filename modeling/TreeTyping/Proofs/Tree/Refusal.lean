/-
How a document is refused.

A document that describes no module is refused with an error that says what is wrong with it, with
one exception: where the class of a node is named by an array or an object, the class cannot even be
looked up.

Reading stops at the first thing that is wrong, so the exception shows only where reading comes that
far.  `Stumbles` says when it does: all that is read before the node is in order, the items of an
array and the entries of an object from left to right, and the fields of a node in the order of its
class, after its class, its other entries and its span.
-/
import TreeTyping.Proofs.Tree.Loaded
import TreeTyping.Proofs.Tree.Written

namespace TreeTyping

open List TreeTyping.Except

/-- Whether an error says what is wrong with a document. -/
def LoadError.isFormat : LoadError → Bool
  | .unusableClass => false
  | _ => true

/-- An array or an object. -/
inductive Json.Compound : Json → Prop
  | arr (items : List Json) : Compound (.arr items)
  | obj (entries : List (String × Json)) : Compound (.obj entries)

namespace Tree

/-- Reading a value comes to a node whose class cannot be looked up. -/
inductive Stumbles (file : Json) : Json → Prop
  /-- The class of the node itself is named by an array or an object. -/
  | here {entries : List (String × Json)} {raw : Json}
      (hclass : Keyed.find? "node" entries = some raw)
      (hraw : raw.Compound) : Stumbles file (.obj entries)
  /-- The items before are in order. -/
  | item {before after : List Json} {part : Json}
      (hbefore : ∀ raw ∈ before, ∃ t, load file raw = .ok t)
      (h : Stumbles file part) : Stumbles file (.arr (before ++ part :: after))
  /-- The entries before are in order, and the object is not a node. -/
  | entry {before after : List (String × Json)} {e : String × Json}
      (hplain : "node" ∉ (before ++ e :: after).map Prod.fst)
      (hbefore : ∀ e ∈ before, ∃ t, load file e.2 = .ok t) (h : Stumbles file e.2) :
      Stumbles file (.obj (before ++ e :: after))
  /-- The class, the names of the entries, the span and the fields before are in order. -/
  | field {entries : List (String × Json)} {cls : NodeClass} {s : Span}
      {before after : List FieldSpec}
      {spec : FieldSpec} {part : Json} (hclass : Keyed.find? "node" entries = some (.str cls.name))
      (hknown : ∀ e ∈ entries, e.1 ∈ "node" :: "span" :: cls.fields.map FieldSpec.name)
      (hspan : s.ReadFrom file ((Keyed.find? "span" entries).getD .null))
      (hfields : cls.fields = before ++ spec :: after)
      (hbefore : ∀ f ∈ before, ∃ v, loadField cls (loadParts file entries) f = .ok v)
      (hpart : Keyed.find? spec.name entries = some part) (hoperator : spec.shape ≠ .operator)
      (hkind : spec.shape ≠ .literalKind) (h : Stumbles file part) : Stumbles file (.obj entries)

/-! ### One part of a node -/

theorem loadClass_unusable {raw : Json} : loadClass raw = .error .unusableClass ↔ raw.Compound := by
  constructor
  · intro h
    unfold loadClass at h
    split at h
    · split at h <;> cases h
    · exact .arr _
    · exact .obj _
    · cases h
  · intro h
    cases h <;> rfl

theorem loadSpan_ne_unusable (file raw : Json) : loadSpan file raw ≠ .error .unusableClass := by
  intro h
  unfold loadSpan at h
  split at h
  · cases h
  · split at h <;> cases h
  · cases h

theorem loadSpan_of_readFrom {file raw : Json} {s : Span} (h : s.ReadFrom file raw) :
    loadSpan file raw = .ok s := by
  cases h with
  | nothing => rfl
  | point line column =>
    simp only [loadSpan, Span.ofCoords?, Coord.ofJson?_toJson]
    rfl
  | range line column endLine endColumn =>
    simp only [loadSpan, Span.ofCoords?, Coord.ofJson?_toJson]
    rfl

theorem loadOperator_ne_unusable (raw : Json) : loadOperator raw ≠ .error .unusableClass := by
  intro h
  unfold loadOperator at h
  split at h
  · split at h <;> cases h
  · cases h

theorem loadLiteralKind_ne_unusable (raw : Json) : loadLiteralKind raw ≠ .error .unusableClass := by
  intro h
  unfold loadLiteralKind at h
  split at h
  · split at h <;> cases h
  · cases h

theorem checkLiteral_ne_unusable (cls : NodeClass) (fields : List Tree) :
    checkLiteral cls fields ≠ .error .unusableClass := by
  intro h
  unfold checkLiteral at h
  split at h
  · split at h <;> cases h
  · cases h

section Parts

variable {cls : NodeClass} {file : Json} {entries : List (String × Json)}

theorem unknownFields_eq_nil : unknownFields cls (loadParts file entries) = [] ↔
    ∀ e ∈ entries, e.1 ∈ "node" :: "span" :: cls.fields.map FieldSpec.name := by
  unfold unknownFields
  dsimp only
  rw [loadParts_names, ← length_eq_zero_iff, length_mergeSort, length_eq_zero_iff,
    filter_eq_nil_iff, forall_mem_map]
  simp only [Bool.not_eq_true', Bool.not_eq_false, contains_iff_mem]

/-- A field leads to a class that cannot be looked up exactly where its entry does. -/
theorem loadField_unusable {spec : FieldSpec} :
    loadField cls (loadParts file entries) spec = .error .unusableClass ↔
      ∃ part, Keyed.find? spec.name entries = some part ∧ spec.shape ≠ .operator ∧
        spec.shape ≠ .literalKind ∧ load file part = .error .unusableClass := by
  constructor
  · intro h
    rcases hpart : Keyed.find? spec.name entries with _ | part
    · rw [loadField, find?_loadParts, hpart] at h
      dsimp only [Option.map_none] at h
      split at h <;> cases h
    · rw [loadField_eq (by rw [find?_loadParts, hpart]; rfl)] at h
      rcases bind_eq_error.1 h with h | ⟨value, -, h⟩
      · unfold readAs at h
        split at h
        · exact absurd h (loadOperator_ne_unusable part)
        · exact absurd h (loadLiteralKind_ne_unusable part)
        · next hoperator hkind => exact ⟨part, rfl, hoperator, hkind, h⟩
      · split at h <;> cases h
  · rintro ⟨part, hpart, hoperator, hkind, h⟩
    rw [loadField_eq (by rw [find?_loadParts, hpart]; rfl), readAs_of_plain hoperator hkind, h]
    rfl

/-- Once its class, the names of its entries and its span are in order, a node has its fields. -/
theorem assemble_eq {parts : List (String × Part)} {s : Span}
    (hclass : loadClass (((Keyed.find? "node" parts).map Prod.fst).getD .null) = .ok cls)
    (hknown : unknownFields cls parts = [])
    (hspan : loadSpan file (((Keyed.find? "span" parts).map Prod.fst).getD .null) = .ok s) :
    assemble file parts = loadFields cls parts cls.fields >>= fun fields =>
      checkLiteral cls fields >>= fun _ => .ok (.node cls s fields) := by
  rw [assemble, hclass]
  show (if !(unknownFields cls parts).isEmpty then _ else _) = _
  rw [hknown, hspan]
  rfl

/-- A class that cannot be looked up is that of the node, or in its first field not in order. -/
theorem assemble_unusable : assemble file (loadParts file entries) = .error .unusableClass ↔
    (∃ raw, Keyed.find? "node" entries = some raw ∧ raw.Compound) ∨
      ∃ (cls : NodeClass) (s : Span) (before : List FieldSpec) (spec : FieldSpec)
        (after : List FieldSpec), Keyed.find? "node" entries = some (.str cls.name) ∧
        (∀ e ∈ entries, e.1 ∈ "node" :: "span" :: cls.fields.map FieldSpec.name) ∧
        s.ReadFrom file ((Keyed.find? "span" entries).getD .null) ∧
        cls.fields = before ++ spec :: after ∧
        (∀ f ∈ before, ∃ v, loadField cls (loadParts file entries) f = .ok v) ∧
        loadField cls (loadParts file entries) spec = .error .unusableClass := by
  constructor
  · intro h
    unfold assemble at h
    simp only [find?_loadParts_fst] at h
    rcases bind_eq_error.1 h with hclass | ⟨cls, hclass, h⟩
    · have hraw := loadClass_unusable.1 hclass
      generalize hfound : (Keyed.find? "node" entries).getD .null = raw at hraw
      exact .inl ⟨raw, eq_some_of_getD hfound (by rintro rfl; cases hraw), hraw⟩
    · split at h
      · cases h
      · next hknown =>
          have hknown : unknownFields cls (loadParts file entries) = [] := by simpa using hknown
          rcases bind_eq_error.1 h with hspan | ⟨s, hspan, h⟩
          · exact absurd hspan (loadSpan_ne_unusable _ _)
          · rcases bind_eq_error.1 h with hfields | ⟨fields, -, h⟩
            · rw [loadFields_eq_mapM] at hfields
              obtain ⟨before, spec, after, hsplit, hbefore, hspec⟩ := mapM_eq_error_iff.1 hfields
              exact .inr ⟨cls, s, before, spec, after, eq_some_of_getD (loadClass_name hclass)
                Json.noConfusion,
                unknownFields_eq_nil.1 hknown, loadSpan_readFrom hspan, hsplit, hbefore, hspec⟩
            · rcases bind_eq_error.1 h with hliteral | ⟨_, -, h⟩
              · exact absurd hliteral (checkLiteral_ne_unusable cls fields)
              · cases h
  · rintro (⟨raw, hnode, hraw⟩ |
      ⟨cls, s, before, spec, after, hnode, hknown, hspan, hsplit, hbefore, hspec⟩)
    · rw [assemble, find?_loadParts_fst, hnode, Option.getD_some, loadClass_unusable.2 hraw]
      rfl
    · have hclass : loadClass (.str cls.name) = .ok cls := by rw [loadClass, cls.ofName?_name]
      have hfields : loadFields cls (loadParts file entries) cls.fields = .error
          .unusableClass := by
        rw [loadFields_eq_mapM]
        exact mapM_eq_error_iff.2 ⟨before, spec, after, hsplit, hbefore, hspec⟩
      rw [assemble_eq (by rw [find?_loadParts_fst, hnode]; exact hclass)
        (unknownFields_eq_nil.2 hknown)
        (by rw [find?_loadParts_fst]; exact loadSpan_of_readFrom hspan), hfields]
      rfl

end Parts

/-! ### Values -/

/-- **Reading a value comes to a class that cannot be looked up exactly where it stumbles.** -/
theorem load_unusable {file raw : Json} :
    load file raw = .error .unusableClass ↔ Stumbles file raw := by
  constructor
  · intro h
    induction raw using Json.induction with
    | null | bool | int | float | str => cases h
    | arr items ih =>
      rw [load, loadItems_eq_mapM] at h
      obtain ⟨before, part, after, rfl, hbefore, hpart⟩ := mapM_eq_error_iff.1 (map_eq_error.1 h)
      exact .item hbefore (ih part (mem_append_right _ mem_cons_self) hpart)
    | obj entries ih =>
      rw [load] at h
      split at h
      · rcases assemble_unusable.1 h with ⟨raw, hnode, hraw⟩ |
          ⟨cls, s, before, spec, after, hnode, hknown, hspan, hsplit, hbefore, hspec⟩
        · exact .here hnode hraw
        · obtain ⟨part, hpart, hoperator, hkind, hload⟩ := loadField_unusable.1 hspec
          exact .field hnode hknown hspan hsplit hbefore hpart hoperator hkind
            (ih _ (Keyed.mem_of_find? hpart) hload)
      · next hplain =>
          rw [loadEntries_eq_mapM] at h
          obtain ⟨before, e, after, rfl, hbefore, he⟩ := mapM_eq_error_iff.1 (map_eq_error.1 h)
          refine .entry (isNode_iff.not.1 hplain) (fun e he => ?_)
            (ih e (mem_append_right _ mem_cons_self) (map_eq_error.1 he))
          obtain ⟨_, hpair⟩ := hbefore e he
          obtain ⟨t, ht, -⟩ := map_eq_ok.1 hpair
          exact ⟨t, ht⟩
  · intro h
    induction h with
    | here hnode hraw =>
      rw [load, if_pos (isNode_iff.2 (mem_map_of_mem (Keyed.mem_of_find? hnode)))]
      exact assemble_unusable.2 (.inl ⟨_, hnode, hraw⟩)
    | item hbefore _ ih =>
      rw [load, loadItems_eq_mapM]
      exact map_eq_error.2 (mapM_eq_error_iff.2 ⟨_, _, _, rfl, hbefore, ih⟩)
    | entry hplain hbefore _ ih =>
      rw [load, if_neg (isNode_iff.not.2 hplain), loadEntries_eq_mapM]
      refine map_eq_error.2 (mapM_eq_error_iff.2 ⟨_, _, _, rfl, fun e he => ?_,
        map_eq_error.2 ih⟩)
      obtain ⟨t, ht⟩ := hbefore e he
      exact ⟨_, map_eq_ok.2 ⟨t, ht, rfl⟩⟩
    | field hnode hknown hspan hsplit hbefore hpart hoperator hkind _ ih =>
      rw [load, if_pos (isNode_iff.2 (mem_map_of_mem (Keyed.mem_of_find? hnode)))]
      exact assemble_unusable.2 (.inr ⟨_, _, _, _, _, hnode, hknown, hspan, hsplit, hbefore,
        loadField_unusable.2 ⟨_, hpart, hoperator, hkind, ih⟩⟩)

/-- Where reading stumbles there is a node whose class is named by an array or an object. -/
theorem Stumbles.contains {file raw : Json} (h : Stumbles file raw) :
    ∃ entries found, raw.Contains (.obj entries) ∧ Keyed.find? "node" entries = some found ∧
      found.Compound := by
  induction h with
  | here hnode hraw => exact ⟨_, _, .self _, hnode, hraw⟩
  | item _ _ ih =>
    obtain ⟨entries, found, hcontains, h⟩ := ih
    exact ⟨entries, found, .item (mem_append_right _ mem_cons_self) hcontains, h⟩
  | entry _ _ _ ih =>
    obtain ⟨entries, found, hcontains, h⟩ := ih
    exact ⟨entries, found, .entry (mem_append_right _ mem_cons_self) hcontains, h⟩
  | field _ _ _ _ _ hpart _ _ _ ih =>
    obtain ⟨entries, found, hcontains, h⟩ := ih
    exact ⟨entries, found, .entry (Keyed.mem_of_find? hpart) hcontains, h⟩

/-! ### Documents -/

/-- Reading a document comes to a node whose class cannot be looked up. -/
inductive DocumentStumbles : Json → Prop
  /-- The schema is in order, and the module is an object that is read as a node and stumbles. -/
  | root {entries root : List (String × Json)}
      (hschema : ∀ found, Keyed.find? "schema" entries = some found → found = .str treeSchemaId)
      (hroot : Keyed.find? "module" entries = some (.obj root)) (hnode : "node" ∈ root.map Prod.fst)
      (h : Stumbles ((Keyed.find? "file" entries).getD .null) (.obj root)) :
      DocumentStumbles (.obj entries)

theorem loadNode_unusable {file raw : Json} : loadNode file raw = .error .unusableClass ↔
    ∃ root, raw = .obj root ∧ "node" ∈ root.map Prod.fst ∧ Stumbles file (.obj root) := by
  have hload {root : List (String × Json)} (hnode : "node" ∈ root.map Prod.fst) :
      load file (.obj root) = assemble file (loadParts file root) := by
    rw [load, if_pos (isNode_iff.2 hnode)]
  constructor
  · intro h
    cases raw with
    | obj root =>
      have hnode : "node" ∈ root.map Prod.fst := by
        rcases assemble_unusable.1 h with ⟨_, hnode, -⟩ | ⟨_, _, _, _, _, hnode, -⟩
        · exact mem_map_of_mem (Keyed.mem_of_find? hnode)
        · exact mem_map_of_mem (Keyed.mem_of_find? hnode)
      exact ⟨root, rfl, hnode, load_unusable.1 ((hload hnode).trans h)⟩
    | _ => cases h
  · rintro ⟨root, rfl, hnode, hstumbles⟩
    exact (hload hnode).symm.trans (load_unusable.2 hstumbles)

section Document

variable {entries : List (String × Json)} {root : Json} {e : LoadError}

/-- A document whose module cannot be read is refused for the same reason. -/
theorem ofDocument_of_error
    (hschema : ∀ found, Keyed.find? "schema" entries = some found → found = .str treeSchemaId)
    (hroot : Keyed.find? "module" entries = some root)
    (h : loadNode ((Keyed.find? "file" entries).getD .null) root = .error e) :
    ofDocument (.obj entries) = .error e := by
  rw [ofDocument, hroot]
  dsimp only
  rw [h]
  rcases hfound : Keyed.find? "schema" entries with _ | found
  · rfl
  · rw [hschema found hfound]
    rfl

/-- A document is refused for its outer parts, or since its module cannot be read. -/
theorem ofDocument_eq_error (h : ofDocument (.obj entries) = .error e) : e.isFormat = true ∨
    (∀ found, Keyed.find? "schema" entries = some found → found = .str treeSchemaId) ∧
      ∃ root, Keyed.find? "module" entries = some root ∧
        loadNode ((Keyed.find? "file" entries).getD .null) root = .error e := by
  rw [ofDocument] at h
  dsimp only at h
  split at h
  on_goal 1 => split at h
  -- The schema is refused in two of the cases; in the other two the module is read.
  any_goals
    cases h
    exact .inl rfl
  all_goals
    have hread : e.isFormat = true ∨ ∃ root, Keyed.find? "module" entries = some root ∧
        loadNode ((Keyed.find? "file" entries).getD .null) root = .error e := by
      split at h
      · cases h
        exact .inl rfl
      · next root hroot =>
          rcases bind_eq_error.1 h with h | ⟨t, -, h⟩
          · exact .inr ⟨root, hroot, h⟩
          · split at h <;> cases h
            exact .inl rfl
    refine hread.imp_right (And.intro fun found hfound => ?_)
  · next s hs hid =>
      have hid : s = treeSchemaId := by simpa using hid
      cases hs.symm.trans hfound
      rw [hid]
  · next hnone => cases hnone.symm.trans hfound

end Document

theorem ofDocument_unusable {doc : Json} :
    ofDocument doc = .error .unusableClass ↔ DocumentStumbles doc := by
  constructor
  · intro h
    cases doc with
    | obj entries =>
      rcases ofDocument_eq_error h with hformat | ⟨hschema, raw, hraw, hload⟩
      · cases hformat
      · obtain ⟨root, rfl, hnode, hstumbles⟩ := loadNode_unusable.1 hload
        exact .root hschema hraw hnode hstumbles
    | _ => cases h
  · rintro ⟨hschema, hroot, hnode, hstumbles⟩
    exact ofDocument_of_error hschema hroot (loadNode_unusable.2 ⟨_, rfl, hnode, hstumbles⟩)

/--
**A document is loaded, or refused with an error that says what is wrong with it, unless reading it
stumbles.**

Where it does not, the document is that of a module or the error is one about its format, whatever
is found in it.  Where it does, the class of some node of the document is named by an array or an
object, and the error is that the class cannot be looked up.
-/
theorem ofDocument_outcome (doc : Json) :
    (¬ DocumentStumbles doc →
      (∃ t, ofDocument doc = .ok t ∧ hasShape (.node .compilationUnit) t = true) ∨
      ∃ e, ofDocument doc = .error e ∧ e.isFormat = true) ∧
    (DocumentStumbles doc → ofDocument doc = .error .unusableClass ∧
      ∃ entries found, doc.Contains (.obj entries) ∧ Keyed.find? "node" entries = some found ∧
        found.Compound) := by
  refine ⟨fun hno => ?_, fun h => ⟨ofDocument_unusable.2 h, ?_⟩⟩
  · rcases h : ofDocument doc with e | t
    · refine .inr ⟨e, rfl, ?_⟩
      cases e with
      | unusableClass => exact absurd (ofDocument_unusable.1 h) hno
      | _ => rfl
    · exact .inl ⟨t, rfl, (ofDocument_loaded h).2⟩
  · obtain ⟨-, hroot, -, hstumbles⟩ := h
    obtain ⟨entries, found, hcontains, h⟩ := hstumbles.contains
    exact ⟨entries, found, .entry (Keyed.mem_of_find? hroot) hcontains, h⟩

/-- A document of a module with the given types. -/
def typesDocument (types : List Json) : Json :=
  .obj [("module", .obj [("node", .str "Module"), ("name", .null), ("types", .arr types)])]

/-- A node whose class is named by a list. -/
def listedClass : Json := .obj [("node", .arr [.str "StructDecl"])]

/-- Of an unknown class and one that cannot be looked up, the one that is read first decides. -/
theorem ofDocument_outcome_types :
    (¬ DocumentStumbles (typesDocument [.obj [("node", .str "Union")], listedClass]) ∧
      ∃ e, ofDocument (typesDocument [.obj [("node", .str "Union")], listedClass]) = .error e ∧
        e.isFormat = true) ∧
    DocumentStumbles (typesDocument [listedClass, .obj [("node", .str "Union")]]) ∧
      ofDocument (typesDocument [listedClass, .obj [("node", .str "Union")]]) = .error
        .unusableClass := by
  have hfirst : ofDocument (typesDocument [.obj [("node", .str "Union")], listedClass]) =
      .error (.unknownClass (.str "Union")) := by cbv
  have hno : ¬ DocumentStumbles (typesDocument [.obj [("node", .str "Union")], listedClass]) := by
    intro h
    cases hfirst.symm.trans (ofDocument_unusable.2 h)
  have hstumbles : DocumentStumbles (typesDocument [listedClass, .obj [("node", .str "Union")]]) :=
    ofDocument_unusable.1 (by cbv)
  refine ⟨⟨hno, ?_⟩, hstumbles, ((ofDocument_outcome _).2 hstumbles).1⟩
  rcases (ofDocument_outcome _).1 hno with ⟨t, ht, -⟩ | herror
  · cases hfirst.symm.trans ht
  · exact herror

/-- A module whose class is a list is neither loaded nor refused for its format. -/
theorem listedModule_unusable : ¬ ((∃ t, ofDocument (.obj [("module", listedClass)]) = .ok t) ∨
    ∃ e, ofDocument (.obj [("module", listedClass)]) = .error e ∧ e.isFormat = true) := by
  have hrefused : ofDocument (.obj [("module", listedClass)]) = .error .unusableClass := rfl
  rintro (⟨t, ht⟩ | ⟨e, he, hformat⟩)
  · cases hrefused.symm.trans ht
  · cases hrefused.symm.trans he
    cases hformat

end Tree

end TreeTyping
