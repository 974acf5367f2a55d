/-
What a run of changes keeps of a registry.

Names are bound and taken back, methods are declared, and at last the registry is frozen.  The calls
are made on the tables of the registry, and any of them may fail.  `attempt_cases` says once what a
call does that succeeds.

Through every run of calls no method has the name of a member that its type has by its structure,
nor that of another method of the type.  So writing the methods of a type into the table of its
members overwrites nothing: the table is the members by structure, and then the methods.  This rests
on what types stand for, which no call changes.  A method goes with the name of its type: names are
bound to types of that name only, so the methods of a type are taken back where its own name is, and
nowhere else.
-/
import TreeTyping.Proofs.Registry.Tables

namespace TreeTyping

open List TreeTyping.Except

/-- Values written under new names, no two of them the same, come after those that were there. -/
theorem Keyed.insertAll_eq_append {α : Type} {entries more : Keyed α}
    (hnames : (more.map Prod.fst).Nodup) (hnew : ∀ e ∈ more, entries.find? e.1 = none) :
    more.foldl (fun all e => insert e.1 e.2 all) entries = entries ++ more := by
  induction more generalizing entries with
  | nil => simp
  | cons e rest ih =>
    obtain ⟨he, hrest⟩ := nodup_cons.1 hnames
    rw [foldl_cons, insert_of_find?_eq_none (hnew e mem_cons_self), ih hrest, append_assoc]
    · rfl
    · intro e' he'
      have hother : e.1 ≠ e'.1 := fun hsame => he (hsame ▸ mem_map_of_mem he')
      rw [find?_append, hnew e' (mem_cons_of_mem _ he')]
      simp [find?, hother]

namespace Registry

variable {r r' : Registry} {members : Keyed Member} {c : Change} {t : Ty} {s : Tables}

/-! ### Calls -/

/-- The call declares a method on a type, which may be given by its name. -/
inductive Declares (r : Registry) (t : Ty) (name : String) (signature : Ty) : Change → Prop
  | onType (span : Span) : Declares r t name signature (.addMethod t name signature span)
  | onName {receiver : String} (h : r.lookup? receiver = some t) (span : Span) :
      Declares r t name signature (.addMethodTo receiver name signature span)

/-- **What a call does that succeeds**: it binds or takes back a name, adds a method, or freezes. -/
theorem attempt_cases (h : r.attempt c = .ok r') :
    (∃ t span, c = .define t span ∧ r.frozen = false ∧ r.binding? t.name = none ∧
      r' = r.withBinding t span) ∨
    (∃ name, c = .remove name ∧ r.frozen = false ∧ r' = r.without name) ∨
    (∃ t name signature span, r.Declares t name signature c ∧ r.Admits t name ∧
      r' = r.withMethod ⟨t, ⟨name, .method, signature⟩, span⟩) ∨
    c = .freeze ∧ r' = r.freeze := by
  cases c with
  | define t span =>
    obtain ⟨_, hopen, h⟩ := bind_eq_ok.1 h
    rcases hfind : r.binding? t.name with _ | previous
    · rw [hfind] at h
      exact .inl ⟨t, span, rfl, mutable_eq_ok.1 hopen, hfind, (Except.ok.inj h).symm⟩
    · rw [hfind] at h
      cases h
  | remove name =>
    rw [attempt, remove_eq] at h
    obtain ⟨_, hopen, h⟩ := bind_eq_ok.1 h
    exact .inr (.inl ⟨name, rfl, mutable_eq_ok.1 hopen, (Except.ok.inj h).symm⟩)
  | addMethod t name signature span =>
    obtain ⟨hadmits, hadded⟩ := addMethod_iff.1 h
    exact .inr (.inr (.inl ⟨t, name, signature, span, .onType span, hadmits, hadded⟩))
  | addMethodTo receiver name signature span =>
    obtain ⟨_, -, h⟩ := bind_eq_ok.1 h
    obtain ⟨t, ht, h⟩ := bind_eq_ok.1 h
    obtain ⟨hadmits, hadded⟩ := addMethod_iff.1 h
    rw [resolve] at ht
    rcases hlookup : r.lookup? receiver with _ | u
    · rw [hlookup] at ht
      cases ht
    · rw [hlookup] at ht
      cases ht
      exact .inr (.inr (.inl ⟨t, name, signature, span, .onName hlookup span, hadmits, hadded⟩))
  | freeze => exact .inr (.inr (.inr ⟨rfl, (Except.ok.inj h).symm⟩))

/-! ### Methods apart from all other members -/

/-- No method has the name of a member by structure, or of another method, of its type. -/
structure Apart (r : Registry) : Prop where
  structural : ∀ m ∈ r.methods, ∀ members, r.structuralMembers m.receiver = .ok members →
    members.find? m.member.name = none
  methods : r.methods.Pairwise fun m m' => m.receiver = m'.receiver → m.member.name ≠ m'.member.name

namespace Apart

theorem of_sublist (h : r.Apart) (hdefinitions : r'.definitions = r.definitions)
    (hmethods : r'.methods.Sublist r.methods) : r'.Apart := by
  refine ⟨?_, h.methods.sublist hmethods⟩
  intro m hm members hmembers
  rw [structuralMembers_congr hdefinitions] at hmembers
  exact h.structural m (hmethods.subset hm) members hmembers

theorem withMethod (h : r.Apart) {e : MethodEntry} (he : r.Admits e.receiver e.member.name) :
    (r.withMethod e).Apart := by
  refine ⟨?_, pairwise_append.2 ⟨h.methods, pairwise_singleton _ _, ?_⟩⟩
  · intro m hm members hmembers
    rw [structuralMembers_congr
      (show (r.withMethod e).definitions = r.definitions from rfl)] at hmembers
    rcases mem_append.1 hm with hm | hm
    · exact h.structural m hm members hmembers
    · obtain rfl := mem_singleton.1 hm
      obtain ⟨members', hmembers', hfree⟩ := he.free
      cases hmembers.symm.trans hmembers'
      exact hfree
  · intro m hm m' hm'
    obtain rfl := mem_singleton.1 hm'
    exact he.single m hm

theorem methodsOf_names (h : r.Apart) (t : Ty) : ((r.methodsOf t).map Prod.fst).Nodup := by
  rw [methodsOf, map_map, List.Nodup, pairwise_map]
  refine (h.methods.sublist filter_sublist).imp_of_mem ?_
  intro m m' hm hm' hne
  have hown : m.receiver = t := of_decide_eq_true (mem_filter.1 hm).2
  have hown' : m'.receiver = t := of_decide_eq_true (mem_filter.1 hm').2
  exact hne (hown.trans hown'.symm)

theorem methodsOf_new (h : r.Apart) (hmembers : r.structuralMembers t = .ok members) :
    ∀ e ∈ r.methodsOf t, members.find? e.1 = none := by
  intro e he
  obtain ⟨m, hm, rfl⟩ := mem_map.1 he
  have hown : m.receiver = t := of_decide_eq_true (mem_filter.1 hm).2
  exact h.structural m (mem_filter.1 hm).1 members (hown ▸ hmembers)

/-- **The members of a type are those by its structure, and then its methods.** -/
theorem membersOf_eq_append (h : r.Apart) (ht : Receives t)
    (hmembers : r.structuralMembers t = .ok members) :
    r.membersOf t = .ok (members ++ r.methodsOf t) := by
  have htable := Keyed.insertAll_eq_append (h.methodsOf_names t) (h.methodsOf_new hmembers)
  rcases ht with ⟨n, rfl⟩ | ⟨n, rfl⟩
  all_goals
    rw [membersOf, hmembers, ← htable]
    rfl

end Apart

/-! ### Runs -/

/-- No name occurs twice in a definition. -/
def DistinctNames : Definition → Prop
  | .alias _ => True
  | .struct fields => (fields.map Prod.fst).Nodup
  | .interface members => (members.map Prod.fst).Nodup

/-- A run of calls keeps what types stand for, names bound to types so named, and methods apart. -/
structure Orderly (definitions : List Definition) (r : Registry) : Prop where
  definitions_eq : r.definitions = definitions
  names : ∀ b ∈ r.bindings, b.type.name = b.name
  apart : r.Apart

namespace Orderly

variable {definitions : List Definition}

theorem fresh : Orderly definitions { definitions } := by
  refine ⟨rfl, ?_, forall_mem_nil _, List.Pairwise.nil⟩
  intro b hb
  obtain ⟨builtin, hbuiltin, rfl⟩ := mem_map.1 hb
  exact Registration.builtins_name _ hbuiltin

theorem attempt (h : Orderly definitions r) (hc : r.attempt c = .ok r') :
    Orderly definitions r' := by
  rcases attempt_cases hc with ⟨t, span, -, -, -, rfl⟩ | ⟨name, -, -, rfl⟩ |
    ⟨_, _, _, _, -, hadmits, rfl⟩ | ⟨-, rfl⟩
  · refine ⟨h.definitions_eq, ?_, h.apart.of_sublist rfl (List.Sublist.refl _)⟩
    intro b hb
    rcases mem_append.1 hb with hb | hb
    · exact h.names b hb
    · obtain rfl := mem_singleton.1 hb
      rfl
  · refine ⟨h.definitions_eq, ?_, h.apart.of_sublist rfl filter_sublist⟩
    intro b hb
    exact h.names b (mem_filter.1 hb).1
  · exact ⟨h.definitions_eq, h.names, h.apart.withMethod hadmits⟩
  · exact ⟨h.definitions_eq, h.names, h.apart.of_sublist rfl (List.Sublist.refl _)⟩

/-- **Whatever the calls come to, the tables show a registry in which all this is so.** -/
theorem afterAll (h : Orderly definitions r) (hs : s.Shows r) (calls : List Change) :
    ∃ r', (s.afterAll calls).Shows r' ∧ Orderly definitions r' := by
  induction calls generalizing s r with
  | nil => exact ⟨r, hs, h⟩
  | cons c rest ih =>
    rcases hc : r.attempt c with f | r'
    · rw [Tables.afterAll, foldl_cons, hs.after_of_error hc]
      exact ih h hs
    · exact ih (h.attempt hc) (hs.after_of_ok hc)

theorem lookup?_name (h : Orderly definitions r) {name : String} (ht : r.lookup? name = some t) :
    t.name = name := by
  obtain ⟨b, hb, rfl⟩ := Option.map_eq_some_iff.1 ht
  have hname : b.name = name := by simpa using find?_some hb
  exact (h.names b (mem_of_find?_eq_some hb)).trans hname

theorem structuralMembers_names (h : Orderly definitions r)
    (hdistinct : ∀ d ∈ definitions, DistinctNames d)
    (hmembers : r.structuralMembers t = .ok members) : (members.map Prod.fst).Nodup := by
  rw [structuralMembers_eq] at hmembers
  obtain ⟨w, -, rfl⟩ := map_eq_ok.1 hmembers
  have hdefinition {id : Nat} {d : Definition} (hd : r.definitions[id]? = some d) :
      DistinctNames d :=
    hdistinct d (h.definitions_eq ▸ mem_of_getElem? hd)
  cases w with
  | interface n =>
    rw [exposed, required]
    split
    · next hn => exact hdefinition hn
    · exact nodup_nil
  | struct n =>
    rw [exposed, fieldMembers, map_map, structFields]
    split
    · next hn => exact hdefinition hn
    · exact nodup_nil
  | _ => exact nodup_nil

theorem members_names (h : Orderly definitions r) (hdistinct : ∀ d ∈ definitions, DistinctNames d)
    (hmembers : r.structuralMembers t = .ok members) :
    ((members ++ r.methodsOf t).map Prod.fst).Nodup := by
  rw [map_append, nodup_append]
  refine ⟨h.structuralMembers_names hdistinct hmembers, h.apart.methodsOf_names t, ?_⟩
  rintro _ hstructural _ hmethod rfl
  obtain ⟨e, he, hname⟩ := mem_map.1 hstructural
  obtain ⟨m, hm, hsame⟩ := mem_map.1 hmethod
  have hfound := Keyed.find?_of_mem (h.structuralMembers_names hdistinct hmembers) he
  rw [hname, ← hsame, h.apart.methodsOf_new hmembers m hm] at hfound
  cases hfound

end Orderly

/-! ### How long a method stays -/

/-- A type is registered and has the method. -/
def HasDeclared (r : Registry) (t : Ty) (m : Member) : Prop :=
  r.containsType t = true ∧ (m.name, m) ∈ r.methodsOf t

theorem mem_methodsOf {m : Member} :
    (m.name, m) ∈ r.methodsOf t ↔ ∃ span, ⟨t, m, span⟩ ∈ r.methods := by
  simp only [methodsOf, mem_map, mem_filter, decide_eq_true_eq]
  constructor
  · rintro ⟨entry, ⟨hentry, rfl⟩, heq⟩
    obtain ⟨-, rfl⟩ := Prod.mk.inj heq
    exact ⟨entry.span, hentry⟩
  · rintro ⟨span, hm⟩
    exact ⟨_, ⟨hm, rfl⟩, rfl⟩

theorem containsType_withBinding {t u : Ty} (span : Span) (ht : r.containsType t = true) :
    (r.withBinding u span).containsType t = true := by
  obtain ⟨b, hb, htype⟩ := Option.map_eq_some_iff.1 (of_decide_eq_true ht)
  refine decide_eq_true ?_
  rw [lookup?, binding?, withBinding, find?_append, show r.bindings.find? _ = some b from hb]
  exact congrArg some htype

theorem containsType_without {name : String} (ht : r.containsType t = true) (hne : t.name ≠ name) :
    (r.without name).containsType t = true := by
  rw [containsType, lookup?, binding?_without, if_neg hne]
  exact ht

/-- **A method stays with its type in every call but one that takes back the name of the type.** -/
theorem Orderly.hasDeclared_attempt {definitions : List Definition} (h : Orderly definitions r)
    {m : Member} (hm : r.HasDeclared t m) (hc : r.attempt c = .ok r') :
    r'.HasDeclared t m ∨ c = .remove t.name ∧ r.frozen = false := by
  obtain ⟨hthere, hm⟩ := hm
  rcases attempt_cases hc with ⟨u, span, rfl, -, -, rfl⟩ | ⟨name, rfl, hopen, rfl⟩ |
    ⟨_, _, _, _, -, -, rfl⟩ | ⟨rfl, rfl⟩
  · exact .inl ⟨containsType_withBinding span hthere, hm⟩
  · by_cases hname : t.name = name
    · exact .inr ⟨by rw [hname], hopen⟩
    · refine .inl ⟨containsType_without hthere hname, ?_⟩
      obtain ⟨span, hspan⟩ := mem_methodsOf.1 hm
      refine mem_methodsOf.2 ⟨span, mem_filter.2 ⟨hspan, decide_eq_true ?_⟩⟩
      intro hlookup
      exact hname (h.lookup?_name hlookup)
  · obtain ⟨span, hspan⟩ := mem_methodsOf.1 hm
    exact .inl ⟨hthere, mem_methodsOf.2 ⟨span, mem_append_left _ hspan⟩⟩
  · exact .inl ⟨hthere, hm⟩

/-- Through a run of calls a method stays with its type until the name of the type is taken back. -/
theorem Orderly.hasDeclared_afterAll {definitions : List Definition} (h : Orderly definitions r)
    (hs : s.Shows r) {m : Member} (hm : r.HasDeclared t m) (calls : List Change) :
    (∃ r', (s.afterAll calls).Shows r' ∧ Orderly definitions r' ∧ r'.HasDeclared t m) ∨
      ∃ before rest, calls = before ++ .remove t.name :: rest ∧
        (s.afterAll before).frozen = false := by
  induction calls generalizing s r with
  | nil => exact .inl ⟨r, hs, h, hm⟩
  | cons c rest ih =>
    have hnext : (∃ r', (s.after c).Shows r' ∧ Orderly definitions r' ∧ r'.HasDeclared t m) ∨
        c = .remove t.name ∧ r.frozen = false := by
      rcases hc : r.attempt c with f | r'
      · rw [hs.after_of_error hc]
        exact .inl ⟨r, hs, h, hm⟩
      · exact (h.hasDeclared_attempt hm hc).imp_left fun hm =>
          ⟨r', hs.after_of_ok hc, h.attempt hc, hm⟩
    rcases hnext with ⟨r', hs', h', hm'⟩ | ⟨rfl, hopen⟩
    · rcases ih h' hs' hm' with hlast | ⟨before, rest, rfl, hopen⟩
      · exact .inl hlast
      · exact .inr ⟨c :: before, rest, rfl, hopen⟩
    · exact .inr ⟨[], rest, rfl, hs.frozen.trans hopen⟩

/-- A method that is declared could be, and then it is there. -/
theorem hasDeclared_of_declares {t signature : Ty} {name : String}
    (hd : r.Declares t name signature c)
    (hc : r.attempt c = .ok r') :
    r.Admits t name ∧ r'.HasDeclared t ⟨name, .method, signature⟩ := by
  rcases attempt_cases hc with ⟨_, _, rfl, -⟩ | ⟨_, rfl, -⟩ |
    ⟨u, name', signature', span, hd', hadmits, rfl⟩ | ⟨rfl, -⟩
  · cases hd
  · cases hd
  · have hsame : u = t ∧ name' = name ∧ signature' = signature := by
      cases hd with
      | onType => cases hd' with
        | onType => exact ⟨rfl, rfl, rfl⟩
      | onName h => cases hd' with
        | onName h' => exact ⟨Option.some.inj (h'.symm.trans h), rfl, rfl⟩
    obtain ⟨rfl, rfl, rfl⟩ := hsame
    exact ⟨hadmits, hadmits.registered,
      mem_methodsOf.2 ⟨span, mem_append_right _ (mem_singleton_self _)⟩⟩
  · cases hd

/--
**Through every run of calls, from a registry without user types, the tables of members are kept
whole.**  No method of a registered struct, or alias that leads to a type, has the name of a member
by structure; its table is made of these members and then its methods, and each is found under its
name.  A method that is declared is found in the table with its signature until the name of its type
is taken back.  A call that fails leaves all tables as they were, and nothing changes once the
registry is frozen.
-/
theorem members_not_overwritten {definitions : List Definition}
    (hdistinct : ∀ d ∈ definitions, DistinctNames d) (calls : List Change)
    (hs : s = Tables.afterAll { definitions } calls) : ∃ r : Registry, s.Shows r ∧
    (∀ t, r.containsType t = true →
      (∃ n, t = .struct n) ∨ (∃ n w, t = .alias n ∧ r.resolveUnderlying t .nowhere = .ok w) →
      ∃ members, r.structuralMembers t = .ok members ∧
        (∀ m ∈ r.methodsOf t, members.find? m.1 = none) ∧
        r.membersOf t = .ok (members ++ r.methodsOf t) ∧
        ∀ e ∈ members ++ r.methodsOf t, (members ++ r.methodsOf t).find? e.1 = some e.2) ∧
    (∀ t name signature c s', r.Declares t name signature c → Tables.call c s = .ok () s' →
      ∀ later, (∃ r' members, (s'.afterAll later).Shows r' ∧ r'.membersOf t = .ok members ∧
        members.find? name = some ⟨name, .method, signature⟩) ∨
      ∃ before rest, later = before ++ .remove t.name :: rest ∧
        (s'.afterAll before).frozen = false) ∧
    (∀ c f s', Tables.call c s = .error f s' → s' = s ∧ r.attempt c = .error f) ∧
    (∀ c s', Tables.call c s = .ok () s' → ∃ r', r.attempt c = .ok r' ∧ s'.Shows r') ∧
    ∀ later, (s.after .freeze).afterAll later = s.after .freeze := by
  obtain ⟨r, hr, horderly⟩ := Orderly.fresh.afterAll (Tables.Shows.fresh definitions) calls
  subst hs
  refine ⟨r, hr, ?_, ?_, fun c f s' hc => (hr.call c).of_error hc,
    fun c s' hc => (hr.call c).of_ok hc, fun later => Tables.afterAll_frozen rfl later⟩
  · intro t _ hresolves
    obtain ⟨members, hmembers⟩ : ∃ members, r.structuralMembers t = .ok members := by
      rcases hresolves with ⟨n, rfl⟩ | ⟨n, w, rfl, hw⟩
      · exact ⟨_, rfl⟩
      · rw [structuralMembers_eq, hw]
        exact ⟨_, rfl⟩
    have hreceives : Receives t := by
      rcases hresolves with hstruct | ⟨n, w, halias, -⟩
      · exact .inr hstruct
      · exact .inl ⟨n, halias⟩
    exact ⟨members, hmembers, horderly.apart.methodsOf_new hmembers,
      horderly.apart.membersOf_eq_append hreceives hmembers,
      fun e he => Keyed.find?_of_mem (horderly.members_names hdistinct hmembers) he⟩
  · intro t name signature c s' hd hc later
    obtain ⟨r', hattempt, hr'⟩ := (hr.call c).of_ok hc
    obtain ⟨hadmits, hthere⟩ := hasDeclared_of_declares hd hattempt
    have horderly' := horderly.attempt hattempt
    refine (horderly'.hasDeclared_afterAll hr' hthere later).imp_left ?_
    rintro ⟨last, hshows, hlast, -, hm⟩
    obtain ⟨members, hmembers, -⟩ := hadmits.free
    rw [← structuralMembers_congr (hlast.definitions_eq.trans horderly.definitions_eq.symm)]
      at hmembers
    exact ⟨last, _, hshows, hlast.apart.membersOf_eq_append hadmits.receives hmembers,
      Keyed.find?_of_mem (hlast.members_names hdistinct hmembers) (mem_append_right _ hm)⟩

/-- A box with a label, an interface that asks for a size, an alias of each, and one of itself. -/
def boxes : List Definition :=
  [.interface [], .struct [("label", .string)],
    .interface [("size", ⟨"size", .method, .function [] (some .int)⟩)],
    .alias (some (.struct ⟨1, "Box"⟩)), .alias (some (.interface ⟨2, "Sized"⟩)),
    .alias (some (.alias ⟨5, "Loop"⟩))]

/--
A box and its alias get a size each.  The label, a second size and a size for the alias of the
interface are refused, as is any method of the alias that stands for itself.  The box is taken back
and bound again, and gets a weight.
-/
def boxCalls : List Change :=
  let size : Ty := .function [] (some .int)
  [.define (.struct ⟨1, "Box"⟩) .nowhere, .define (.alias ⟨3, "Crate"⟩) .nowhere,
   .define (.alias ⟨4, "Measure"⟩) .nowhere, .define (.alias ⟨5, "Loop"⟩) .nowhere,
   .addMethod (.struct ⟨1, "Box"⟩) "size" size .nowhere, .addMethodTo "Crate" "size" size .nowhere,
   .addMethod (.struct ⟨1, "Box"⟩) "label" size .nowhere, .addMethodTo "Box" "size" size .nowhere,
   .addMethodTo "Measure" "size" size .nowhere, .addMethodTo "Loop" "size" size .nowhere,
   .remove "Box", .define (.struct ⟨1, "Box"⟩) .nowhere,
   .addMethodTo "Box" "weight" size .nowhere]

/--
The box has lost its size and has its weight, and its alias still has a size.  A second weight is
refused and changes nothing, and at last nothing is taken back.
-/
theorem members_not_overwritten_boxes : (∀ d ∈ boxes, DistinctNames d) ∧
    ∃ s, s = Tables.afterAll { definitions := boxes } boxCalls ∧
    (∃ r members, s.Shows r ∧ r.membersOf (.struct ⟨1, "Box"⟩) = .ok members ∧
      members.map Prod.fst = ["label", "weight"]) ∧
    (∃ f, Tables.call (.addMethodTo "Box" "weight" .int .nowhere) s = .error f s) ∧
    (((s.after .freeze).afterAll [.remove "Crate"]).methodsOf (.alias ⟨3, "Crate"⟩)).map Prod.fst =
      ["size"] := by
  have hdistinct : ∀ d ∈ boxes, DistinctNames d := by
    simp [boxes, DistinctNames]
  obtain ⟨r, hr, hwhole, -, hfails, -, hfrozen⟩ := members_not_overwritten hdistinct boxCalls rfl
  refine ⟨hdistinct, _, rfl, ?_, ?_, ?_⟩
  · have hthere : r.containsType (.struct ⟨1, "Box"⟩) = true := by
      rw [containsType, ← hr.lookup?]
      decide +kernel
    obtain ⟨members, hmembers, -, htable, -⟩ := hwhole (.struct ⟨1, "Box"⟩) hthere (.inl ⟨_, rfl⟩)
    cases hmembers
    refine ⟨r, _, hr, htable, ?_⟩
    rw [structFields, ← hr.definitions, ← hr.methods]
    decide +kernel
  · have hrefused : (Tables.call (.addMethodTo "Box" "weight" .int .nowhere)).run'
        (Tables.afterAll { definitions := boxes } boxCalls) = none := by decide +kernel
    rcases hc : Tables.call (.addMethodTo "Box" "weight" .int .nowhere)
      (Tables.afterAll { definitions := boxes } boxCalls) with ⟨_, s'⟩ | ⟨f, s'⟩
    · delta EStateM.run' EStateM.run at hrefused
      rw [hc] at hrefused
      cases hrefused
    · obtain ⟨rfl, -⟩ := hfails _ _ _ hc
      exact ⟨f, rfl⟩
  · rw [hfrozen]
    decide +kernel

end Registry

end TreeTyping
