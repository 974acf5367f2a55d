/-
What declaring and linking leave.

Registration starts with two passes over the declarations of a module.  The first binds names: the
first declaration of a name that is not built in introduces a type, and types are numbered in the
order in which they are introduced.  The second links: every declaration is resolved against all the
names, and since linking changes no name, the order does not matter.  Both passes are given here in
closed form, as the list of introduced types and the registry with their definitions.
-/
import Mathlib.Data.List.Induction
import Mathlib.Data.List.Nodup
import TreeTyping.Proofs.Except
import TreeTyping.Proofs.Registry.Resolve
import TreeTyping.Registry.Registration

namespace TreeTyping

open List

/-- The binding a declaration makes. -/
def Declared.binding (d : Declared) : TypeBinding := ⟨d.decl.name, d.type, some d.decl.span⟩

namespace Registration

variable {ds : List Declared} {types : List (Entry TypeDecl)} {r r' : Registry} {name : String}

/-! ### Introduced types -/

/-- The introduced types with one more entry; a name built in or taken introduces nothing. -/
def introduce (ds : List Declared) : Entry TypeDecl → List Declared
  | .foreign _ => ds
  | .proper decl =>
    if Ty.isBuiltinName decl.name || ds.any (fun d => d.decl.name == decl.name) then ds
    else ds ++ [⟨decl, nominal (ds.length + 1) decl⟩]

/-- The types that declarations introduce, in order. -/
def introduced (types : List (Entry TypeDecl)) : List Declared := types.foldl introduce []

/-- The first declaration of a name. -/
def firstOf? (name : String) : List (Entry TypeDecl) → Option TypeDecl
  | [] => none
  | .proper decl :: rest => if decl.name = name then some decl else firstOf? name rest
  | .foreign _ :: rest => firstOf? name rest

/-- Introduced types are numbered from one on, and their names are distinct and not built in. -/
structure Introduces (ds : List Declared) : Prop where
  types : ∀ i d, ds[i]? = some d → d.type = nominal (i + 1) d.decl
  names : (ds.map fun d => d.decl.name).Nodup
  free : ∀ d ∈ ds, Ty.isBuiltinName d.decl.name = false

theorem introduced_append (types : List (Entry TypeDecl)) (entry : Entry TypeDecl) :
    introduced (types ++ [entry]) = introduce (introduced types) entry := by
  rw [introduced, foldl_append]
  rfl

/-- An entry introduces nothing, or a new type behind the others. -/
theorem introduce_cases (ds : List Declared) (entry : Entry TypeDecl) :
    (introduce ds entry = ds ∧ ∀ decl, entry = .proper decl →
      Ty.isBuiltinName decl.name = true ∨ ∃ d ∈ ds, d.decl.name = decl.name) ∨
    ∃ decl, entry = .proper decl ∧ Ty.isBuiltinName decl.name = false ∧
      (∀ d ∈ ds, d.decl.name ≠ decl.name) ∧
      introduce ds entry = ds ++ [⟨decl, nominal (ds.length + 1) decl⟩] := by
  cases entry with
  | foreign f =>
    refine .inl ⟨rfl, fun decl heq => ?_⟩
    cases heq
  | proper decl =>
    by_cases htaken :
      (Ty.isBuiltinName decl.name || ds.any fun d => d.decl.name == decl.name) = true
    · refine .inl ⟨by rw [introduce, if_pos htaken], fun decl' heq => ?_⟩
      cases heq
      simpa using htaken
    · obtain ⟨hfree, hnew⟩ : Ty.isBuiltinName decl.name = false ∧
        ∀ d ∈ ds, d.decl.name ≠ decl.name := by
        simpa using htaken
      exact .inr ⟨decl, rfl, hfree, hnew, by rw [introduce, if_neg htaken]⟩

theorem Introduces.introduce (h : Introduces ds) (entry : Entry TypeDecl) :
    Introduces (introduce ds entry) := by
  rcases introduce_cases ds entry with ⟨heq, -⟩ | ⟨decl, -, hfree, hnew, heq⟩
  · rwa [heq]
  · rw [heq]
    refine ⟨fun i d hd => ?_, ?_, ?_⟩
    · rw [getElem?_append] at hd
      split at hd
      · exact h.types i d hd
      · next hi =>
          obtain ⟨hlt, rfl⟩ := List.getElem?_eq_some_iff.1 hd
          rw [length_singleton] at hlt
          obtain rfl : i = ds.length := by omega
          simp
    · rw [map_append, nodup_append]
      refine ⟨h.names, nodup_singleton _, ?_⟩
      simpa using hnew
    · intro d hd
      rcases mem_append.1 hd with hd | hd
      · exact h.free d hd
      · rwa [mem_singleton.1 hd]

theorem introduces_introduced (types : List (Entry TypeDecl)) : Introduces (introduced types) := by
  induction types using List.reverseRecOn with
  | nil =>
    refine ⟨fun i d hd => ?_, nodup_nil, forall_mem_nil _⟩
    cases hd
  | append_singleton types entry ih =>
    rw [introduced_append]
    exact ih.introduce entry

theorem firstOf?_append (name : String) (types more : List (Entry TypeDecl)) :
    firstOf? name (types ++ more) = (firstOf? name types).or (firstOf? name more) := by
  induction types with
  | nil => rfl
  | cons entry rest ih =>
    cases entry with
    | foreign f => exact ih
    | proper decl =>
      rw [cons_append, firstOf?, firstOf?]
      split
      · rfl
      · exact ih

theorem mem_of_firstOf? {decl : TypeDecl} (h : firstOf? name types = some decl) :
    .proper decl ∈ types := by
  induction types with
  | nil => cases h
  | cons entry rest ih =>
    cases entry with
    | foreign f => exact mem_cons_of_mem _ (ih h)
    | proper first =>
      rw [firstOf?] at h
      split at h
      · cases h
        exact mem_cons_self
      · exact mem_cons_of_mem _ (ih h)

theorem Introduces.unique (h : Introduces ds) {d d' : Declared} (hd : d ∈ ds)
    (hd' : d' ∈ ds) (hname : d.decl.name = d'.decl.name) : d = d' :=
  inj_on_of_nodup_map h.names hd hd' hname

theorem Introduces.find? (h : Introduces ds) {d : Declared} (hd : d ∈ ds) :
    ds.find? (fun d' => d'.decl.name == d.decl.name) = some d := by
  have hsome : (ds.find? fun d' => d'.decl.name == d.decl.name).isSome = true :=
    find?_isSome.2 ⟨d, hd, beq_self_eq_true d.decl.name⟩
  obtain ⟨d', hd'⟩ := Option.isSome_iff_exists.1 hsome
  have hname := find?_some hd'
  rw [hd', h.unique (mem_of_find?_eq_some hd') hd (eq_of_beq hname)]

/-- Under a name that is not built in, the introduced type is that of the first declaration. -/
theorem find?_introduced (hfree : Ty.isBuiltinName name = false) (types : List (Entry TypeDecl)) :
    ((introduced types).find? fun d => d.decl.name == name).map Declared.decl = firstOf?
    name types := by
  induction types using List.reverseRecOn with
  | nil => rfl
  | append_singleton types entry ih =>
    rw [introduced_append, firstOf?_append, ← ih]
    rcases introduce_cases (introduced types) entry with ⟨heq, htaken⟩ | ⟨decl, rfl, -, -, heq⟩
    · rw [heq]
      cases entry with
      | foreign f => exact (Option.or_none).symm
      | proper decl =>
        rw [firstOf?]
        split
        · next hname =>
            subst hname
            obtain ⟨d, hd, hdn⟩ := (htaken decl rfl).resolve_left (by simp [hfree])
            rw [← hdn, (introduces_introduced types).find? hd]
            rfl
        · exact (Option.or_none).symm
    · rw [heq, find?_append, Option.map_or, firstOf?, find?_singleton]
      by_cases hname : decl.name = name
      · rw [if_pos hname, if_pos (beq_iff_eq.2 hname)]
        rfl
      · rw [if_neg hname, if_neg (by simpa using hname)]
        rfl

/-- **The first declaration of a name that is not built in introduces a type, and no other.** -/
theorem mem_introduced {decl : TypeDecl} : (∃ t, ⟨decl, t⟩ ∈ introduced types) ↔
      firstOf? decl.name types = some decl ∧ Ty.isBuiltinName decl.name = false := by
  constructor
  · rintro ⟨t, ht⟩
    have hfree := (introduces_introduced types).free _ ht
    refine ⟨?_, hfree⟩
    rw [← find?_introduced hfree, (introduces_introduced types).find? ht]
    rfl
  · rintro ⟨hfirst, hfree⟩
    rw [← find?_introduced hfree, Option.map_eq_some_iff] at hfirst
    obtain ⟨d, hd, rfl⟩ := hfirst
    exact ⟨d.type, mem_of_find?_eq_some hd⟩

/-! ### Names -/

/-- The registry that declarations are linked against: names are bound, nothing is defined. -/
def scope (ds : List Declared) : Registry :=
  { bindings := ({} : Registry).bindings ++ ds.map Declared.binding }

/-- The registry with the given definitions, behind that of the interface that requires nothing. -/
def scopeWith (ds : List Declared) (definitions : List Definition) : Registry :=
  { scope ds with definitions := .interface [] :: definitions }

/-- A name is free when it is neither built in nor introduced. -/
theorem binding?_eq_none {r : Registry} (hr : r.bindings = (scope ds).bindings) :
    r.binding? name = none ↔
      Ty.isBuiltinName name = false ∧ ∀ d ∈ ds, d.decl.name ≠ name := by
  have hbuiltin : (({} : Registry).bindings.find? fun b => b.name = name) = none ↔
      Ty.isBuiltinName name = false := by
    rw [find?_eq_none, forall_mem_map, Ty.isBuiltinName, any_eq_false]
    simp only [decide_eq_true_eq, beq_iff_eq]
  have hintroduced : ((ds.map Declared.binding).find? fun b => b.name = name) = none ↔
      ∀ d ∈ ds, d.decl.name ≠ name := by
    rw [find?_eq_none, forall_mem_map]
    exact forall₂_congr fun d _ => not_congr decide_eq_true_iff
  rw [Registry.binding?, hr, scope, find?_append, Option.or_eq_none_iff, hbuiltin, hintroduced]

theorem define_taken {definitions : List Definition}
    (h : Ty.isBuiltinName name = true ∨ ∃ d ∈ ds, d.decl.name = name) (t : Ty) (span : Span) :
    ∃ previous, (scopeWith ds definitions).define name t span =
      complain (.duplicate "type" name previous) span := by
  rcases hb : (scopeWith ds definitions).binding? name with _ | b
  · obtain ⟨hfree, hnew⟩ := (binding?_eq_none rfl).1 hb
    rcases h with h | ⟨d, hd, hname⟩
    · rw [h] at hfree
      cases hfree
    · exact absurd hname (hnew d hd)
  · refine ⟨b.span?, ?_⟩
    rw [Registry.define, hb]
    rfl

theorem define_free {definitions : List Definition} {decl : TypeDecl}
    (hfree : Ty.isBuiltinName decl.name = false) (hnew : ∀ d ∈ ds, d.decl.name ≠ decl.name)
    (t : Ty) :
    (scopeWith ds definitions).define decl.name t decl.span =
      .ok (scopeWith (ds ++ [⟨decl, t⟩]) definitions) := by
  have hb : (scopeWith ds definitions).binding? decl.name = none :=
    (binding?_eq_none rfl).2 ⟨hfree, hnew⟩
  rw [Registry.define, hb]
  simp only [scopeWith, scope, map_append, ← append_assoc]
  rfl

/-- Names have been bound for the types that are introduced, and nothing else has been done. -/
structure Bound (ds : List Declared) (s : Registration) : Prop where
  registry : s.registry = scopeWith ds (ds.map fun d => shell d.decl)
  declared : s.declared = ds
  failed : s.failed = []

theorem Bound.declare {s s' : Registration} {entry : Entry TypeDecl} (hs : Bound ds s)
    (h : s.declare entry = .ok s') : Bound (introduce ds entry) s' := by
  cases entry with
  | foreign f =>
    cases h
    exact ⟨hs.registry, hs.declared, hs.failed⟩
  | proper decl =>
    have hallocate : s.registry.allocate (shell decl) =
        (ds.length + 1, scopeWith ds (ds.map (fun d => shell d.decl) ++ [shell decl])) := by
      rw [hs.registry, Registry.allocate]
      simp [scopeWith]
    rw [Registration.declare, hallocate] at h
    dsimp only at h
    rcases introduce_cases ds (.proper decl) with ⟨heq, htaken⟩ | ⟨_, hdecl, hfree, hnew, heq⟩
    · obtain ⟨previous, hdefine⟩ :=
        define_taken (htaken decl rfl) (nominal (ds.length + 1) decl) decl.span
      rw [hdefine] at h
      cases h
      rw [heq]
      exact ⟨hs.registry, hs.declared, hs.failed⟩
    · cases hdecl
      rw [define_free hfree hnew] at h
      cases h
      rw [heq]
      refine ⟨?_, ?_, hs.failed⟩
      · simp
      · simp [hs.declared]

/-- **The first pass binds the names of the introduced types.** -/
theorem declare_bound {s : Registration}
    (h : types.foldlM Registration.declare { registry := {} } = .ok s) :
    Bound (introduced types) s := by
  refine Except.foldlM_invariant (P := fun done s => Bound (introduced done) s) ?_ ⟨rfl, rfl, rfl⟩ h
  intro done entry rest s s' _ hs h
  rw [introduced_append]
  exact hs.declare h

/-! ### Definitions -/

theorem linkFields_congr (h : r'.bindings = r.bindings) (struct : String) (seen : Keyed Ty)
    (fields : List Param) : linkFields r' struct seen fields = linkFields r struct seen fields := by
  induction fields generalizing seen with
  | nil => rfl
  | cons field rest ih => simp only [linkFields, Registry.typeOf_congr h, ih]

theorem linkMember_congr (h : r'.bindings = r.bindings) (interface : String) (seen : Keyed Member)
    (decl : MemberDecl) : linkMember r' interface seen decl = linkMember r interface seen decl := by
  unfold linkMember
  simp only [Registry.typeOf_congr h, Registry.functionType_congr h]

theorem linkMembers_congr (h : r'.bindings = r.bindings) (interface : String)
    (seen : Keyed Member) (members : List MemberDecl) :
    linkMembers r' interface seen members = linkMembers r interface seen members := by
  induction members generalizing seen with
  | nil => rfl
  | cons decl rest ih => simp only [linkMembers, linkMember_congr h, ih]

/-- How a declaration is linked depends on the names of types alone. -/
theorem definitionOf_congr (h : r'.bindings = r.bindings) (decl : TypeDecl) :
    definitionOf r' decl = definitionOf r decl := by
  unfold definitionOf
  simp only [Registry.typeOf_congr h, linkFields_congr h, linkMembers_congr h]

/-- The definition of an introduced type. -/
def definitionIn (ds : List Declared) (d : Declared) :
    Definition := (definitionOf (scope ds) d.decl).1

/-- Whether the declaration of an introduced type links without error. -/
def links (ds : List Declared) (d : Declared) : Bool := (definitionOf (scope ds) d.decl).2.isNone

/-- The registry in which the introduced types are linked. -/
def linkedScope (ds : List Declared) : Registry := scopeWith ds (ds.map (definitionIn ds))

/-- The introduced types are linked as far as `done`; the names of those that failed are known. -/
structure LinkedTo (ds done : List Declared) (s : Registration) : Prop where
  registry : s.registry =
    scopeWith ds (done.map (definitionIn ds) ++ (ds.drop done.length).map fun d => shell d.decl)
  declared : s.declared = ds
  failed : s.failed = (done.filter fun d => !links ds d).map fun d => d.decl.name

theorem idOf_nominal (id : Nat) (decl : TypeDecl) : idOf (nominal id decl) = id := by
  cases decl <;> rfl

/-- The definition behind those of the types that are linked already is replaced. -/
theorem setDefinition_next {ds done rest : List Declared} {d : Declared}
    (hsplit : ds = done ++ d :: rest)
    (definitions : List Definition) (hlength : definitions.length = done.length)
    (definition : Definition) :
    (scopeWith ds (definitions ++ (ds.drop done.length).map fun d => shell d.decl)).setDefinition
        (done.length + 1) definition =
      scopeWith ds (definitions ++ [definition] ++ (ds.drop (done ++ [d]).length).map fun d =>
        shell d.decl) := by
  have hhere : ds.drop done.length = d :: rest := by
    rw [hsplit, drop_left]
  have hnext : ds.drop (done ++ [d]).length = rest := by
    rw [hsplit, append_cons done d rest, drop_left]
  rw [hhere, hnext, Registry.setDefinition, scopeWith, scopeWith, set_cons_succ, ← hlength,
    map_cons, set_append_right _ _ (Nat.le_refl _), Nat.sub_self, set_cons_zero,
    append_assoc, singleton_append]

theorem LinkedTo.link {s s' : Registration} {ds done rest : List Declared} {d : Declared}
    (hds : Introduces ds) (hsplit : ds = done ++ d :: rest) (hs : LinkedTo ds done s)
    (h : s.link d = .ok s') : LinkedTo ds (done ++ [d]) s' := by
  have hid : idOf d.type = done.length + 1 := by
    rw [hds.types done.length d (by rw [hsplit]; simp), idOf_nominal]
  have hset : s.registry.setDefinition (idOf d.type) (definitionIn ds d) =
      scopeWith ds ((done ++ [d]).map (definitionIn ds) ++
        (ds.drop (done ++ [d]).length).map fun d => shell d.decl) := by
    rw [hs.registry, hid, setDefinition_next hsplit _ (length_map _), map_append]
    rfl
  have hbindings : s.registry.bindings = (scope ds).bindings := by
    rw [hs.registry]
    rfl
  unfold Registration.link at h
  rw [definitionOf_congr hbindings] at h
  dsimp only at h
  split at h
  · next hnone =>
      cases h
      refine ⟨hset, hs.declared, ?_⟩
      rw [filter_append, filter_cons_of_neg (by simp [links, hnone])]
      simpa using hs.failed
  · next diagnostic hfound hsome =>
      cases h
      refine ⟨hset, hs.declared, ?_⟩
      rw [filter_append, filter_cons_of_pos (by simp [links, hsome])]
      simp [hs.failed]
  · cases h

/-- The introduced types are linked; the names of those that failed are known. -/
structure Linked (ds : List Declared) (s : Registration) : Prop where
  registry : s.registry = linkedScope ds
  declared : s.declared = ds
  failed : s.failed = (ds.filter fun d => !links ds d).map fun d => d.decl.name

/-- **The first two passes bind the names of the introduced types and link their declarations.** -/
theorem linked_eq_ok {s : Registration} (h : linked {} types = .ok s) :
    Linked (introduced types) s := by
  obtain ⟨s₁, hdeclare, hlink⟩ := Except.bind_eq_ok.1 h
  have hbound := declare_bound hdeclare
  rw [hbound.declared] at hlink
  have hstart : LinkedTo (introduced types) [] s₁ :=
    ⟨hbound.registry, hbound.declared, hbound.failed⟩
  have hend := Except.foldlM_invariant (P := LinkedTo (introduced types))
    (fun _ _ _ _ _ hsplit hs h => hs.link (introduces_introduced types) hsplit h) hstart hlink
  refine ⟨?_, hend.declared, hend.failed⟩
  rw [hend.registry, drop_length, map_nil, append_nil]
  rfl

end Registration

end TreeTyping
