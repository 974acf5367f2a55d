/-
What is written, and what is read where it was written.

A document may leave out fields that have a default, may give a span of one position as four
coordinates or a coordinate as a truth value, and may say that a node has no span.  Writing has one
form for each of these, so a loaded tree is not written as the document it came from.  What is read
in a written document is the tree with its spans settled: a span that has no source text has the
coordinates zero, and one whose ends count as the same position has the same ends.  Settled spans
count as the spans they came from, and are written in the same way.
-/
import TreeTyping.Proofs.Tree.Loading
import TreeTyping.Proofs.Tree.Place

namespace TreeTyping

open List

/-! ### Entries under their names -/

namespace Keyed

variable {α : Type}

theorem find?_eq_none {entries : Keyed α} {name : String} (h : name ∉ entries.map Prod.fst) :
    find? name entries = none := by
  induction entries with
  | nil => rfl
  | cons first rest ih =>
    obtain ⟨hfirst, hrest⟩ := not_or.1 (mt mem_cons.2 h)
    rw [find?, if_neg fun hname => hfirst hname.symm, ih hrest]

end Keyed

/-! ### The names of the schema -/

theorem Operator.ofSymbol?_symbol (op : Operator) : ofSymbol? op.symbol = some op := by
  cases op <;> decide

theorem LiteralKind.ofSymbol?_symbol (kind : LiteralKind) : ofSymbol? kind.symbol = some kind := by
  cases kind <;> decide

theorem NodeClass.ofName?_name (cls : NodeClass) : ofName? cls.name = some cls := by
  cases cls <;> decide

theorem NodeClass.entryNames_nodup (cls : NodeClass) :
    ("node" :: "span" :: cls.fields.map FieldSpec.name).Nodup := by
  cases cls <;> decide

/-! ### Spans -/

theorem Coord.ofJson?_toJson (c : Coord) : ofJson? c.toJson = some c := by
  cases c <;> rfl

namespace Span

/-- The span with every coordinate as the number it counts as. -/
def numbered (s : Span) : Span :=
  ⟨.ofNumbers s.start.line.value s.start.column.value,
    .ofNumbers s.stop.line.value s.stop.column.value, s.file⟩

/-- The span that is read where the span was written. -/
def settled (s : Span) : Span :=
  if s.isNowhere then .nowhere
  else if s.start.value = s.stop.value then ⟨s.start, s.start, s.file⟩
  else s

theorem isNowhere_iff {s : Span} :
    s.isNowhere = true ↔ s.start.value = (0, 0) ∧ s.stop.value = (0, 0) ∧ s.file = .null := by
  obtain ⟨start, stop, file⟩ := s
  cases file <;> simp [isNowhere]

theorem numbered_eq {s s' : Span} (hstart : s.start.value = s'.start.value)
    (hstop : s.stop.value = s'.stop.value) (hfile : s.file = s'.file) :
    s.numbered = s'.numbered := by
  obtain ⟨hline, hcolumn⟩ := Prod.mk.inj hstart
  obtain ⟨hline', hcolumn'⟩ := Prod.mk.inj hstop
  rw [numbered, numbered, hline, hcolumn, hline', hcolumn', hfile]

/-- **A settled span counts as the span it came from.** -/
theorem numbered_settled (s : Span) : s.settled.numbered = s.numbered := by
  unfold settled
  split
  · next hnowhere =>
      obtain ⟨hstart, hstop, hfile⟩ := isNowhere_iff.1 hnowhere
      exact numbered_eq hstart.symm hstop.symm hfile.symm
  · split
    · next hsame => exact numbered_eq rfl hsame rfl
    · rfl

/-- **A settled span is written like the span it came from.** -/
theorem toTreeJson?_settled (s : Span) : s.settled.toTreeJson? = s.toTreeJson? := by
  unfold settled
  split
  · next hnowhere => rw [toTreeJson?, toTreeJson?, if_pos hnowhere, if_pos (by decide)]
  · next hsomewhere =>
      split
      · next hsame =>
          have hpoint : ¬(⟨s.start, s.start, s.file⟩ : Span).isNowhere = true := by
            rw [isNowhere_iff] at hsomewhere ⊢
            rintro ⟨hstart, -, hfile⟩
            exact hsomewhere ⟨hstart, hsame ▸ hstart, hfile⟩
          rw [toTreeJson?, toTreeJson?, if_neg hpoint, if_neg hsomewhere,
            if_pos (beq_self_eq_true _), if_pos (beq_iff_eq.2 hsame)]
      · rfl

end Span

/-! ### Trees with other spans -/

namespace Tree

mutual

/-- The tree with the spans of its nodes changed. -/
def mapSpans (f : Span → Span) : Tree → Tree
  | .node cls s fields => .node cls (f s) (mapSpansAll f fields)
  | .list items => .list (mapSpansAll f items)
  | .object entries => .object (mapSpansEntries f entries)
  | t => t

def mapSpansAll (f : Span → Span) : List Tree → List Tree
  | [] => []
  | t :: rest => mapSpans f t :: mapSpansAll f rest

def mapSpansEntries (f : Span → Span) : List (String × Tree) → List (String × Tree)
  | [] => []
  | (key, t) :: rest => (key, mapSpans f t) :: mapSpansEntries f rest

end

/-- The tree that is read where the tree was written. -/
def settled (t : Tree) : Tree := t.mapSpans Span.settled

/--
The two trees are equal node by node: they have the same classes, field values and order, and spans
whose coordinates count as the same numbers.
-/
def Same (t t' : Tree) : Prop := t.mapSpans Span.numbered = t'.mapSpans Span.numbered

mutual

theorem numbered_settled : ∀ t : Tree, (t.settled).mapSpans Span.numbered = t.mapSpans Span.numbered
  | .node cls s fields => by
      show Tree.node cls s.settled.numbered (mapSpansAll _ (mapSpansAll _ fields)) = _
      rw [s.numbered_settled, numbered_settledAll fields, mapSpans]
  | .list items => congrArg Tree.list (numbered_settledAll items)
  | .object entries => congrArg Tree.object (numbered_settledEntries entries)
  | .null | .bool _ | .int _ | .float _ | .text _ | .operator _ | .literalKind _ | .location _ =>
    rfl

theorem numbered_settledAll : ∀ ts : List Tree,
    mapSpansAll Span.numbered (mapSpansAll Span.settled ts) = mapSpansAll Span.numbered ts
  | [] => rfl
  | t :: rest => congrArg₂ List.cons (numbered_settled t) (numbered_settledAll rest)

theorem numbered_settledEntries : ∀ es : List (String × Tree),
    mapSpansEntries Span.numbered (mapSpansEntries Span.settled es) = mapSpansEntries
      Span.numbered es
  | [] => rfl
  | (key, t) :: rest =>
    congrArg₂ List.cons (congrArg (Prod.mk key) (numbered_settled t)) (numbered_settledEntries rest)

end

theorem headerEntries_settled (cls : NodeClass) (s : Span) :
    headerEntries cls s.settled = headerEntries cls s := by
  rw [headerEntries, headerEntries, s.toTreeJson?_settled]

mutual

/-- **A tree with settled spans is written like the tree.** -/
theorem toJson_settled : ∀ t : Tree, t.settled.toJson = t.toJson
  | .node cls s fields => by
      show Json.obj (headerEntries cls s.settled ++ toJsonFields cls.fields
        (mapSpansAll _ fields)) = _
      rw [headerEntries_settled, toJsonFields_settled cls.fields fields, toJson]
  | .list items => congrArg Json.arr (toJsonItems_settled items)
  | .object entries => congrArg Json.obj (toJsonEntries_settled entries)
  | .null | .bool _ | .int _ | .float _ | .text _ | .operator _ | .literalKind _ | .location _ =>
    rfl

theorem toJsonItems_settled :
    ∀ ts : List Tree, toJsonItems (mapSpansAll Span.settled ts) = toJsonItems ts
  | [] => rfl
  | t :: rest => congrArg₂ List.cons (toJson_settled t) (toJsonItems_settled rest)

theorem toJsonEntries_settled : ∀ es : List (String × Tree),
    toJsonEntries (mapSpansEntries Span.settled es) = toJsonEntries es
  | [] => rfl
  | (key, t) :: rest => congrArg₂ List.cons (congrArg (Prod.mk key) (toJson_settled t))
      (toJsonEntries_settled rest)

theorem toJsonFields_settled : ∀ (specs : List FieldSpec) (ts : List Tree),
    toJsonFields specs (mapSpansAll Span.settled ts) = toJsonFields specs ts
  | spec :: specs, t :: rest =>
    congrArg₂ List.cons (congrArg (Prod.mk spec.name) (toJson_settled t))
      (toJsonFields_settled specs rest)
  | [], [] | [], _ :: _ | _ :: _, [] => rfl

end

/-! ### Shapes -/

theorem mapSpansAll_eq_map (f : Span → Span) (ts : List Tree) :
    mapSpansAll f ts = ts.map (mapSpans f) := by
  induction ts with
  | nil => rfl
  | cons t rest ih => rw [mapSpansAll, ih, map_cons]

theorem mapSpansEntries_eq_map (f : Span → Span) (entries : List (String × Tree)) :
    mapSpansEntries f entries = entries.map fun e => (e.1, e.2.mapSpans f) := by
  induction entries with
  | nil => rfl
  | cons e rest ih => rw [mapSpansEntries, ih, map_cons]

/-- The shape of a value does not depend on spans. -/
theorem hasShape_mapSpans (f : Span → Span) {shape : Shape} {t : Tree}
    (h : hasShape shape t = true) : hasShape shape (t.mapSpans f) = true := by
  induction shape generalizing t with
  | list item ih =>
    obtain ⟨items, rfl, hitems⟩ := hasShape_list.1 h
    refine hasShape_list.2 ⟨_, rfl, fun i hi => ?_⟩
    rw [mapSpansAll_eq_map] at hi
    obtain ⟨u, hu, rfl⟩ := mem_map.1 hi
    exact ih (hitems u hu)
  | object item ih =>
    obtain ⟨entries, rfl, hentries⟩ := hasShape_object.1 h
    refine hasShape_object.2 ⟨_, rfl, fun e he => ?_⟩
    rw [mapSpansEntries_eq_map] at he
    obtain ⟨u, hu, rfl⟩ := mem_map.1 he
    exact ih (hentries u hu)
  | either first second ihf ihs => exact hasShape_either.2 ((hasShape_either.1 h).imp ihf ihs)
  | _ => cases t <;> exact h

theorem literalMatches_mapSpans (f : Span → Span) (kind : LiteralKind) (t : Tree) :
    literalMatches kind (t.mapSpans f) = literalMatches kind t := by
  cases t <;> rfl

/-- Whether a literal goes with its kind does not depend on spans. -/
theorem checkLiteral_mapSpans (f : Span → Span) {cls : NodeClass} {fields : List Tree} {u : Unit}
    (h : checkLiteral cls fields = .ok u) : checkLiteral cls (mapSpansAll f fields) = .ok () := by
  unfold checkLiteral
  split
  · next value kind hfields =>
      obtain ⟨v, k, rfl, rfl, hkind⟩ : ∃ v k, fields = [v, k] ∧ v.mapSpans f = value ∧
          k.mapSpans f = .literalKind kind := by
        rcases fields with _ | ⟨v, _ | ⟨k, _ | _⟩⟩ <;> simp_all [mapSpansAll]
      obtain rfl : k = .literalKind kind := by
        cases k <;> cases hkind
        rfl
      rw [checkLiteral] at h
      split at h
      · next hmatches => rw [literalMatches_mapSpans, if_pos hmatches]
      · cases h
  · rfl

/-! ### Reading what was written -/

/-- **A span without source text or in the file is read where it was written.** -/
theorem loadSpan_toTreeJson? {file : Json} {s : Span} (h : s.isNowhere = true ∨ s.file = file) :
    loadSpan file (s.toTreeJson?.getD .null) = .ok s.settled := by
  unfold Span.toTreeJson? Span.settled
  split
  · rfl
  · next hsomewhere =>
      have hfile := h.resolve_left hsomewhere
      by_cases hsame : s.start.value = s.stop.value
      · rw [if_pos (beq_iff_eq.2 hsame), if_pos hsame]
        simp only [Option.getD_some, loadSpan, Span.ofCoords?, Coord.ofJson?_toJson, ← hfile]
        rfl
      · rw [if_neg (mt beq_iff_eq.1 hsame), if_neg hsame]
        simp only [Option.getD_some, loadSpan, Span.ofCoords?, Coord.ofJson?_toJson, ← hfile]
        rfl

/-! ### Written nodes -/

/-- The entries that a node is written as. -/
def nodeEntries (cls : NodeClass) (s : Span) (fields : List Tree) : List (String × Json) :=
  headerEntries cls s ++ toJsonFields cls.fields fields

theorem toJsonFields_names (specs : List FieldSpec) (fields : List Tree) :
    ((toJsonFields specs fields).map Prod.fst).Sublist (specs.map FieldSpec.name) := by
  induction specs generalizing fields with
  | nil =>
    cases fields <;> exact nil_sublist _
  | cons spec specs ih =>
    cases fields with
    | nil => exact nil_sublist _
    | cons t rest => exact (ih rest).cons_cons _

theorem headerEntries_names (cls : NodeClass) (s : Span) :
    ((headerEntries cls s).map Prod.fst).Sublist ["node", "span"] := by
  rw [headerEntries]
  cases s.toTreeJson? with
  | none => exact (nil_sublist _).cons_cons _
  | some raw => exact List.Sublist.refl _

theorem nodeEntries_names (cls : NodeClass) (s : Span) (fields : List Tree) :
    ((nodeEntries cls s fields).map Prod.fst).Sublist
    ("node" :: "span" :: cls.fields.map FieldSpec.name) := by
  rw [nodeEntries, map_append]
  exact (headerEntries_names cls s).append (toJsonFields_names cls.fields fields)

section Node

variable {cls : NodeClass} {file : Json} (s : Span) (fields : List Tree)

theorem find?_nodeEntries {e : String × Json} (he : e ∈ nodeEntries cls s fields) :
    Keyed.find? e.1 (loadParts file (nodeEntries cls s fields)) = some (e.2, load file e.2) := by
  have hnames := (nodeEntries_names cls s fields).nodup cls.entryNames_nodup
  rw [find?_loadParts, Keyed.find?_of_mem hnames he]
  rfl

theorem find?_span : ((Keyed.find? "span" (loadParts file (nodeEntries cls s fields))).map
    Prod.fst).getD .null = s.toTreeJson?.getD .null := by
  have hnames := cls.entryNames_nodup
  rw [find?_loadParts, nodeEntries, headerEntries]
  cases s.toTreeJson? with
  | some raw => rfl
  | none =>
    have hfield : "span" ∉ (toJsonFields cls.fields fields).map Prod.fst := fun hmem =>
      (nodup_cons.1 (nodup_cons.1 hnames).2).1 ((toJsonFields_names cls.fields fields).subset hmem)
    have hnone : Keyed.find? "span" (("node", .str cls.name) :: toJsonFields cls.fields fields) =
        none :=
      Keyed.find?_eq_none (mt mem_cons.1 (not_or.2 ⟨show "span" ≠ "node" by decide, hfield⟩))
    exact congrArg (fun found => (Option.map Prod.fst (Option.map _ found)).getD Json.null) hnone

theorem unknownFields_nodeEntries :
    unknownFields cls (loadParts file (nodeEntries cls s fields)) = [] := by
  have hknown : ((loadParts file (nodeEntries cls s fields)).map Prod.fst).filter
      (fun name => !("node" :: "span" :: cls.fields.map FieldSpec.name).contains name) = [] := by
    rw [loadParts_names, filter_eq_nil_iff]
    intro name hname
    rw [contains_iff_mem.2 ((nodeEntries_names cls s fields).subset hname)]
    nofun
  rw [unknownFields, hknown, mergeSort_nil]

end Node

theorem toJsonEntries_names (entries : List (String × Tree)) :
    (toJsonEntries entries).map Prod.fst = entries.map Prod.fst := by
  induction entries with
  | nil => rfl
  | cons e rest ih => rw [toJsonEntries, map_cons, map_cons, ih]

/-- What a written document has under the names that are looked at. -/
theorem toDocument_entries (t : Tree) (file : Json) : ∃ entries, t.toDocument file = .obj entries ∧
    Keyed.find? "schema" entries = some (.str treeSchemaId) ∧
      Keyed.find? "module" entries = some t.toJson ∧
    (Keyed.find? "file" entries).getD .null = file := by
  cases file <;> exact ⟨_, rfl, rfl, rfl, rfl⟩

/-- A module that can be read where it was written can be read from its document. -/
theorem ofDocument_written {file : Json} {t t' : Tree} {entries : List (String × Json)}
    (hjson : t.toJson = .obj entries)
    (h : assemble file (loadParts file entries) = .ok t')
    (hroot : hasShape (.node .compilationUnit) t' = true) :
    ofDocument (t.toDocument file) = .ok t' := by
  obtain ⟨written, hdoc, hschema, hmodule, hfile⟩ := t.toDocument_entries file
  have hnode : loadNode file t.toJson = .ok t' := by
    rw [hjson]
    exact h
  rw [hdoc, ofDocument, hschema, hmodule, hfile]
  dsimp only
  rw [hnode]
  cases t' with
  | node cls s fields =>
    obtain rfl : cls = .compilationUnit := by simpa [hasShape] using hroot
    rfl
  | _ => cases hroot

end Tree

end TreeTyping
