/-
What is loaded fits the schema.

Every field of a node is read before its shape is looked at, and a field that is left out holds a
default of the shape asked for, so a tree that comes out of a document has at every depth nodes of
the schema and nothing else.  Loaded trees are in particular well formed: blocks where statements
are asked for are what trees made by hand may have in addition.

`Loaded` says what a tree is made of that was read from a document: of nodes that have in their
fields what their class asks for and were read from an object of the document, of lists, of objects
without the key that nodes are told by, and of plain values.  The induction on the document is made
once, and what else holds of loaded trees is proved along `Loaded`.
-/
import TreeTyping.Proofs.Except
import TreeTyping.Proofs.Tree.WellFormed
import TreeTyping.Tree.Load

namespace TreeTyping

open List TreeTyping.Except

/-- **The default of a field has the shape that the field asks for.** -/
theorem NodeClass.default_fits (cls : NodeClass) :
    ∀ spec ∈ cls.fields, ∀ v, Tree.ofDefault? spec.default = some v →
      Tree.hasShape spec.shape v = true := by
  have hall : cls.fields.all
      (fun spec => (Tree.ofDefault? spec.default).all (Tree.hasShape spec.shape)) = true := by
    cases cls <;> decide
  intro spec hspec v hv
  have hfits := all_eq_true.1 hall spec hspec
  rwa [hv] at hfits

/-! ### What stands in a value -/

/-- A JSON value is another one, or stands in it at some depth. -/
inductive Json.Contains : Json → Json → Prop
  | self (raw : Json) : Contains raw raw
  | item {items : List Json} {part raw : Json} (hpart : part ∈ items) (h : Contains part raw) :
      Contains (.arr items) raw
  | entry {entries : List (String × Json)} {e : String × Json} {raw : Json} (he : e ∈ entries)
      (h : Contains e.2 raw) : Contains (.obj entries) raw

theorem Json.sizeOf_item {items : List Json} {raw : Json} (h : raw ∈ items) :
    sizeOf raw < sizeOf (Json.arr items) := by
  have hlist := sizeOf_lt_of_mem h
  rw [Json.arr.sizeOf_spec]
  omega

theorem Json.sizeOf_entry {entries : List (String × Json)} {e : String × Json} (h : e ∈ entries) :
    sizeOf e.2 < sizeOf (Json.obj entries) := by
  have hlist := sizeOf_lt_of_mem h
  obtain ⟨key, raw⟩ := e
  rw [Prod.mk.sizeOf_spec] at hlist
  show sizeOf raw < _
  rw [Json.obj.sizeOf_spec]
  omega

/-- To prove something of every value, prove it of arrays and objects, given it of the parts. -/
theorem Json.induction {P : Json → Prop} (null : P .null) (bool : ∀ b, P (.bool b))
    (int : ∀ n, P (.int n))
    (float : ∀ x, P (.float x)) (str : ∀ s, P (.str s))
    (arr : ∀ items, (∀ raw ∈ items, P raw) → P (.arr items))
    (obj : ∀ entries, (∀ e ∈ entries, P e.2) → P (.obj entries)) (raw : Json) : P raw := by
  cases raw with
  | null => exact null
  | bool b => exact bool b
  | int n => exact int n
  | float x => exact float x
  | str s => exact str s
  | arr items =>
    exact arr items fun part hpart => Json.induction null bool int float str arr obj part
  | obj entries => exact obj entries fun e he => Json.induction null bool int float str arr obj e.2
termination_by sizeOf raw
decreasing_by
  · exact Json.sizeOf_item hpart
  · exact Json.sizeOf_entry he

/-- A span was read from nothing, from two coordinates or from four, in the given file. -/
inductive Span.ReadFrom (file : Json) : Json → Span → Prop
  | nothing : ReadFrom file .null .nowhere
  | point (line column : Coord) :
      ReadFrom file (.arr [line.toJson, column.toJson]) ⟨⟨line, column⟩, ⟨line, column⟩, file⟩
  | range (line column endLine endColumn : Coord) :
      ReadFrom file (.arr [line.toJson, column.toJson, endLine.toJson, endColumn.toJson])
        ⟨⟨line, column⟩, ⟨endLine, endColumn⟩, file⟩

theorem NodeClass.name_of_ofName? {s : String} {cls : NodeClass} (h : ofName? s = some cls) :
    cls.name = s := by
  have hfound := find?_some h
  exact beq_iff_eq.1 hfound

theorem Coord.toJson_of_ofJson? {raw : Json} {c : Coord} (h : ofJson? raw = some c) :
    raw = c.toJson := by
  cases raw <;> cases h <;> rfl

theorem Span.readFrom_of_coords {file : Json} {items : List Json} {s : Span}
    (h : ofCoords? file items = some s) : s.ReadFrom file (.arr items) := by
  unfold ofCoords? at h
  split at h
  · simp only [Option.bind_eq_bind, Option.bind_eq_some_iff, Option.pure_def,
      Option.some.injEq] at h
    obtain ⟨line, hline, column, hcolumn, rfl⟩ := h
    rw [Coord.toJson_of_ofJson? hline, Coord.toJson_of_ofJson? hcolumn]
    exact .point line column
  · simp only [Option.bind_eq_bind, Option.bind_eq_some_iff, Option.pure_def,
      Option.some.injEq] at h
    obtain ⟨line, hline, column, hcolumn, endLine, hendLine, endColumn, hendColumn, rfl⟩ := h
    rw [Coord.toJson_of_ofJson? hline, Coord.toJson_of_ofJson? hcolumn,
      Coord.toJson_of_ofJson? hendLine, Coord.toJson_of_ofJson? hendColumn]
    exact .range line column endLine endColumn
  · cases h

namespace Tree

/-! ### Shapes -/

theorem hasShape_withBlocks {shape : Shape} {t : Tree} (h : hasShape shape t = true) :
    hasShape shape.withBlocks t = true := by
  induction shape generalizing t with
  | category c =>
    cases c with
    | statement => exact hasShape_either.2 (.inl h)
    | typeNode => exact h
    | expression => exact h
  | list item ih =>
    obtain ⟨items, rfl, hitems⟩ := hasShape_list.1 h
    exact hasShape_list.2 ⟨items, rfl, fun i hi => ih (hitems i hi)⟩
  | object item ih =>
    obtain ⟨entries, rfl, hentries⟩ := hasShape_object.1 h
    exact hasShape_object.2 ⟨entries, rfl, fun e he => ih (hentries e he)⟩
  | either first second ihf ihs => exact hasShape_either.2 ((hasShape_either.1 h).imp ihf ihs)
  | _ => exact h

theorem fieldsFit_withBlocks {specs : List FieldSpec} {fields : List Tree}
    (h : fieldsFit specs fields = true) :
    fieldsFit (specs.map FieldSpec.withBlocks) fields = true := by
  induction specs generalizing fields with
  | nil => exact h
  | cons spec specs ih =>
    obtain ⟨v, rest, rfl, hv, hrest⟩ := fieldsFit_cons.1 h
    exact fieldsFit_cons.2 ⟨v, rest, rfl, hasShape_withBlocks hv, ih hrest⟩

theorem fieldsFit_iff {specs : List FieldSpec} {fields : List Tree} :
    fieldsFit specs fields = true ↔ List.Forall₂ (fun spec v => hasShape spec.shape v = true)
      specs fields := by
  induction specs generalizing fields with
  | nil => rw [fieldsFit_nil, forall₂_nil_left_iff]
  | cons spec specs ih =>
    rw [fieldsFit_cons, forall₂_cons_left_iff]
    simp only [ih]
    grind

/-! ### The steps of loading -/

section Parts

variable {cls : NodeClass} {file : Json} {parts : List (String × Part)}

theorem find?_loadParts (file : Json) (name : String) (entries : List (String × Json)) :
    Keyed.find? name (loadParts file entries) =
      (Keyed.find? name entries).map fun raw => (raw, load file raw) := by
  induction entries with
  | nil => rfl
  | cons e rest ih =>
    rw [loadParts, Keyed.find?, Keyed.find?, ih]
    split <;> rfl

theorem loadParts_names (file : Json) (entries : List (String × Json)) :
    (loadParts file entries).map Prod.fst = entries.map Prod.fst := by
  induction entries with
  | nil => rfl
  | cons e rest ih => rw [loadParts, map_cons, map_cons, ih]

theorem find?_loadParts_fst (file : Json) (name : String) (entries : List (String × Json)) :
    (Keyed.find? name (loadParts file entries)).map Prod.fst = Keyed.find? name entries := by
  rw [find?_loadParts, Option.map_map]
  exact Option.map_id'

/-- Which objects are nodes depends on their keys alone. -/
theorem any_node (parts : List (String × Part)) :
    (parts.any fun p => p.1 == "node") = (parts.map Prod.fst).contains "node" := by
  induction parts with
  | nil => rfl
  | cons p rest ih =>
    rw [any_cons, ih, map_cons, contains_cons, Bool.beq_comm]

theorem isNode_iff {file : Json} {entries : List (String × Json)} :
    ((loadParts file entries).any fun p => p.1 == "node") = true ↔
    "node" ∈ entries.map Prod.fst := by
  rw [any_node, loadParts_names, contains_iff_mem]

/-- The value of a field that is there, before its shape is looked at. -/
def readAs (shape : Shape) (raw : Json) (read : Except LoadError Tree) : Except LoadError Tree :=
  match shape with
  | .operator => loadOperator raw
  | .literalKind => loadLiteralKind raw
  | _ => read

theorem loadField_eq {spec : FieldSpec} {raw : Json} {read : Except LoadError Tree}
    (hfind : Keyed.find? spec.name parts = some (raw, read)) :
    loadField cls parts spec = readAs spec.shape raw read >>= fun value =>
      if hasShape spec.shape value then
        .ok value else .error (.misfit cls spec value.describeValue) := by
  rw [loadField, hfind]
  dsimp only
  unfold readAs
  rcases spec.shape <;> rfl

theorem loadField_of_find? {spec : FieldSpec} {raw : Json} {read : Except LoadError Tree}
    (hfind : Keyed.find? spec.name parts = some (raw, read)) {t : Tree} :
    loadField cls parts spec = .ok t ↔ readAs spec.shape raw read = .ok t ∧
      hasShape spec.shape t = true := by
  rw [loadField_eq hfind, bind_eq_ok]
  constructor
  · rintro ⟨value, hvalue, h⟩
    split at h
    · next hshape =>
        cases h
        exact ⟨hvalue, hshape⟩
    · cases h
  · rintro ⟨hvalue, hshape⟩
    exact ⟨t, hvalue, if_pos hshape⟩

theorem readAs_of_plain {shape : Shape} (hoperator : shape ≠ .operator)
    (hkind : shape ≠ .literalKind)
    (raw : Json) (read : Except LoadError Tree) : readAs shape raw read = read := by
  rw [readAs]
  · exact hoperator
  · exact hkind

/-- What a node is put together from. -/
theorem assemble_eq_ok {t : Tree} : assemble file parts = .ok t ↔ ∃ cls s fields,
    loadClass (((Keyed.find? "node" parts).map Prod.fst).getD .null) = .ok cls ∧
      unknownFields cls parts = [] ∧
    loadSpan file (((Keyed.find? "span" parts).map Prod.fst).getD .null) = .ok s ∧
    loadFields cls parts cls.fields = .ok fields ∧ checkLiteral cls fields = .ok () ∧
      t = .node cls s fields := by
  unfold assemble
  constructor
  · intro h
    obtain ⟨cls, hcls, h⟩ := bind_eq_ok.1 h
    dsimp only at h
    split at h
    · cases h
    · next hknown =>
        obtain ⟨s, hs, h⟩ := bind_eq_ok.1 h
        obtain ⟨fields, hfields, h⟩ := bind_eq_ok.1 h
        obtain ⟨_, hliteral, h⟩ := bind_eq_ok.1 h
        cases h
        exact ⟨cls, s, fields, hcls, by simpa using hknown, hs, hfields, hliteral, rfl⟩
  · rintro ⟨cls, s, fields, hcls, hknown, hs, hfields, hliteral, rfl⟩
    refine bind_eq_ok.2 ⟨cls, hcls, ?_⟩
    dsimp only
    rw [hknown]
    exact bind_eq_ok.2 ⟨s, hs, bind_eq_ok.2 ⟨fields, hfields, bind_eq_ok.2 ⟨(), hliteral, rfl⟩⟩⟩

theorem loadItems_eq_mapM (file : Json) (items : List Json) :
    loadItems file items = items.mapM (load file) := by
  induction items with
  | nil => rfl
  | cons raw rest ih => rw [loadItems, mapM_cons, ih]

theorem loadFields_eq_mapM (cls : NodeClass) (parts : List (String × Part))
    (specs : List FieldSpec) : loadFields cls parts specs = specs.mapM (loadField cls parts) := by
  induction specs with
  | nil => rfl
  | cons spec specs ih => rw [loadFields, mapM_cons, ih]

theorem loadEntries_eq_mapM (file : Json) (entries : List (String × Json)) :
    loadEntries (loadParts file entries) = entries.mapM fun e =>
      (load file e.2).map (Prod.mk e.1) := by
  induction entries with
  | nil => rfl
  | cons e rest ih =>
    rw [loadParts, loadEntries, mapM_cons, ih]
    cases load file e.2 <;> rfl

end Parts

theorem checkLiteral_fits {cls : NodeClass} {fields : List Tree} {u : Unit}
    (hfit : fieldsFit cls.fields fields = true)
    (h : checkLiteral cls fields = .ok u) : nodeFits cls fields = true := by
  unfold nodeFits
  refine Bool.and_eq_true_iff.2 ⟨hfit, ?_⟩
  clear hfit
  unfold checkLiteral at h
  split
  · dsimp only at h
    split at h
    · next hmatches => exact hmatches
    · cases h
  · rfl

/-! ### What is read -/

theorem loadSpan_readFrom {file raw : Json} {s : Span} (h : loadSpan file raw = .ok s) :
    s.ReadFrom file raw := by
  unfold loadSpan at h
  split at h
  · cases h
    exact .nothing
  · split at h
    · next items _ hs =>
        cases h
        exact Span.readFrom_of_coords hs
    · cases h
  · cases h

theorem loadClass_name {raw : Json} {cls : NodeClass} (h : loadClass raw = .ok cls) :
    raw = .str cls.name := by
  unfold loadClass at h
  split at h
  · split at h
    · next name _ hname =>
        cases h
        rw [NodeClass.name_of_ofName? hname]
    · cases h
  · cases h
  · cases h
  · cases h

theorem eq_some_of_getD {raw : Option Json} {found : Json} (h : raw.getD .null = found)
    (hfound : found ≠ .null) : raw = some found := by
  cases raw with
  | none => exact absurd h.symm hfound
  | some raw => exact congrArg some h

/-- Some object of a document names the class and has the span. -/
def ReadIn (file doc : Json) (cls : NodeClass) (s : Span) : Prop :=
  ∃ entries, doc.Contains (.obj entries) ∧ Keyed.find? "node" entries = some (.str cls.name) ∧
    s.ReadFrom file ((Keyed.find? "span" entries).getD .null)

/-- A tree is made of what was read in a document. -/
inductive Loaded (file doc : Json) : Tree → Prop
  | node {cls : NodeClass} {s : Span} {fields : List Tree} (hsource : ReadIn file doc cls s)
      (hfits : List.Forall₂ (fun spec v => hasShape spec.shape v = true) cls.fields fields)
      (hliteral : checkLiteral cls fields = .ok ()) (hfields : ∀ v ∈ fields, Loaded file doc v) :
      Loaded file doc (.node cls s fields)
  | list {items : List Tree} (hitems : ∀ t ∈ items, Loaded file doc t) :
      Loaded file doc (.list items)
  | object {entries : List (String × Tree)} (hkeys : "node" ∉ entries.map Prod.fst)
      (hentries : ∀ e ∈ entries, Loaded file doc e.2) : Loaded file doc (.object entries)
  | null : Loaded file doc .null
  | bool (b : Bool) : Loaded file doc (.bool b)
  | int (n : Int) : Loaded file doc (.int n)
  | float (x : Binary64) : Loaded file doc (.float x)
  | text (s : String) : Loaded file doc (.text s)
  | operator (op : Operator) : Loaded file doc (.operator op)
  | literalKind (kind : LiteralKind) : Loaded file doc (.literalKind kind)

section Loaded

variable {file : Json} {entries : List (String × Json)} {t : Tree}

/-- What was read in a part of a document was read in the document. -/
theorem Loaded.within {doc part : Json} (h : Loaded file part t)
    (hpart : ∀ raw, part.Contains raw → doc.Contains raw) : Loaded file doc t := by
  induction h with
  | node hsource hfits hliteral _ ih =>
    obtain ⟨entries, hentries, hsource⟩ := hsource
    exact .node ⟨entries, hpart _ hentries, hsource⟩ hfits hliteral ih
  | list _ ih => exact .list ih
  | object hkeys _ ih => exact .object hkeys ih
  | _ => constructor

theorem Loaded.ofDefault {doc : Json} {d : Default} (h : ofDefault? d = some t) :
    Loaded file doc t := by
  cases d <;> cases h
  all_goals first
    | exact .list (forall_mem_nil _)
    | exact .object not_mem_nil (forall_mem_nil _)
    | constructor

/-- A field has the shape asked for, and its value is a default or was read from an entry. -/
theorem loadField_loaded {cls : NodeClass} {spec : FieldSpec} (hspec : spec ∈ cls.fields)
    (hentries : ∀ e ∈ entries, ∀ t, load file e.2 = .ok t → Loaded file e.2 t)
    (h : loadField cls (loadParts file entries) spec = .ok t) :
    hasShape spec.shape t = true ∧ Loaded file (.obj entries) t := by
  rcases hfind : Keyed.find? spec.name entries with _ | raw
  · rw [loadField, find?_loadParts, hfind] at h
    dsimp only [Option.map_none] at h
    split at h
    · next value hvalue =>
        cases h
        exact ⟨cls.default_fits spec hspec _ hvalue, .ofDefault hvalue⟩
    · cases h
  · obtain ⟨hread, hshape⟩ := (loadField_of_find? (by rw [find?_loadParts, hfind]; rfl)).1 h
    refine ⟨hshape, ?_⟩
    unfold readAs at hread
    split at hread
    · next hoperator =>
        obtain ⟨op, rfl⟩ := hasShape_operator.1 (hoperator ▸ hshape)
        exact .operator op
    · next hkind =>
        obtain ⟨kind, rfl⟩ := hasShape_literalKind.1 (hkind ▸ hshape)
        exact .literalKind kind
    · have hmem := Keyed.mem_of_find? hfind
      exact (hentries _ hmem _ hread).within fun _ => .entry hmem

/-- A node is read in its object, and the nodes below it in the entries of that. -/
theorem assemble_loaded (hentries : ∀ e ∈ entries, ∀ t, load file e.2 = .ok t → Loaded file e.2 t)
    (h : assemble file (loadParts file entries) = .ok t) : Loaded file (.obj entries) t := by
  obtain ⟨cls, s, fields, hcls, -, hs, hfields, hliteral, rfl⟩ := assemble_eq_ok.1 h
  rw [find?_loadParts_fst] at hcls hs
  rw [loadFields_eq_mapM] at hfields
  have hall : List.Forall₂
    (fun spec v => hasShape spec.shape v = true ∧ Loaded file (.obj entries) v)
      cls.fields fields :=
    ((forall₂_and_left _ _).2 ⟨fun _ => id, mapM_eq_ok.1 hfields⟩).imp fun _ _ hv =>
      loadField_loaded hv.1 hentries hv.2
  refine .node ⟨entries, .self _, eq_some_of_getD (loadClass_name hcls) Json.noConfusion,
    loadSpan_readFrom hs⟩ (hall.imp fun _ _ hv => hv.1) hliteral fun v hv => ?_
  obtain ⟨_, -, hloaded⟩ := forall₂_exists hall.flip hv
  exact hloaded.2

theorem load_loaded {raw : Json} (h : load file raw = .ok t) : Loaded file raw t := by
  induction raw using Json.induction generalizing t with
  | null | bool | int | float | str =>
    cases h
    constructor
  | arr items ih =>
    rw [load, loadItems_eq_mapM] at h
    obtain ⟨ts, hts, rfl⟩ := map_eq_ok.1 h
    refine .list fun t ht => ?_
    obtain ⟨raw, hraw, hload⟩ := mapM_mem hts _ ht
    exact (ih raw hraw hload).within fun _ => .item hraw
  | obj entries ih =>
    rw [load] at h
    split at h
    · exact assemble_loaded (fun e he _ => ih e he) h
    · next hplain =>
        rw [loadEntries_eq_mapM] at h
        obtain ⟨es, hes, rfl⟩ := map_eq_ok.1 h
        have hread : ∀ v ∈ es, ∃ e ∈ entries, load file e.2 = .ok v.2 ∧ e.1 = v.1 := by
          intro v hv
          obtain ⟨e, he, hpair⟩ := mapM_mem hes _ hv
          obtain ⟨u, hload, rfl⟩ := map_eq_ok.1 hpair
          exact ⟨e, he, hload, rfl⟩
        refine .object (fun hkey => hplain ?_) fun v hv => ?_
        · obtain ⟨v, hv, hname⟩ := mem_map.1 hkey
          obtain ⟨e, he, -, heq⟩ := hread v hv
          exact isNode_iff.2 (mem_map.2 ⟨e, he, heq.trans hname⟩)
        · obtain ⟨e, he, hload, -⟩ := hread v hv
          exact (ih e he hload).within fun _ => .entry he

end Loaded

namespace Loaded

variable {file doc : Json} {t : Tree}

theorem wellFormed (h : Loaded file doc t) : t.wellFormed = true := by
  induction h with
  | node _ hfits _ _ ih =>
    exact Bool.and_eq_true_iff.2
      ⟨fieldsFit_withBlocks (fieldsFit_iff.2 hfits), wellFormedAll_iff.2 ih⟩
  | list _ ih => exact wellFormedAll_iff.2 ih
  | object _ _ ih => exact wellFormedEntries_iff.2 ih
  | _ => rfl

end Loaded

/-! ### Documents -/

theorem loadNode_loaded {file root : Json} {t : Tree} (h : loadNode file root = .ok t) :
    Loaded file root t ∧ ∃ cls s fields, t = .node cls s fields := by
  cases root with
  | obj entries =>
    obtain ⟨cls, s, fields, -, -, -, -, -, ht⟩ := assemble_eq_ok.1 h
    exact ⟨assemble_loaded (fun _ _ _ => load_loaded) h, cls, s, fields, ht⟩
  | _ => cases h

/-- The file that a document names, null when it names none. -/
def fileName : Json → Json
  | .obj entries => (Keyed.find? "file" entries).getD .null
  | _ => .null

/-- **A document has a module, which is made of what was read in it.** -/
theorem ofDocument_loaded {doc : Json} {t : Tree} (h : ofDocument doc = .ok t) :
    (∃ root, Loaded (fileName doc) root t) ∧ hasShape (.node .compilationUnit) t = true := by
  cases doc with
  | obj entries =>
    rw [ofDocument] at h
    dsimp only at h
    split at h
    on_goal 1 => split at h
    -- The schema is refused in two of the cases; in the other two the module is read.
    any_goals cases h
    all_goals
      split at h
      · cases h
      · obtain ⟨t', ht', h⟩ := bind_eq_ok.1 h
        split at h
        · cases h
          exact ⟨⟨_, (loadNode_loaded ht').1⟩, rfl⟩
        · cases h
  | _ => cases h

theorem ofText_eq_ok {text : String} {t : Tree} :
    ofText text = .ok t ↔ ∃ doc, Json.parse? text = some doc ∧ ofDocument doc = .ok t := by
  unfold ofText
  split
  · next doc hdoc =>
      rw [hdoc]
      simp
  · next hnone =>
      rw [hnone]
      simp

theorem loaded_wellFormed {t : Tree}
    (h : (∃ doc, ofDocument doc = .ok t) ∨ ∃ text, ofText text = .ok t) :
    t.wellFormed = true ∧ hasShape (.node .compilationUnit) t = true := by
  obtain ⟨doc, hdoc⟩ : ∃ doc, ofDocument doc = .ok t := by
    rcases h with h | ⟨text, htext⟩
    · exact h
    · obtain ⟨doc, -, hdoc⟩ := ofText_eq_ok.1 htext
      exact ⟨doc, hdoc⟩
  obtain ⟨⟨root, hloaded⟩, hroot⟩ := ofDocument_loaded hdoc
  exact ⟨hloaded.wellFormed, hroot⟩

end Tree

end TreeTyping
