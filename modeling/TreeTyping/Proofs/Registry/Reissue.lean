/-
A registry that is issued anew.

Two registries may differ in what should make little difference: in the numbers that identify their
types, and in methods that were added to one of them.  `Reissued` says that one registry comes from
another in this way.  All that is asked of a registry is then compared once: annotations denote the
same types, aliases lead to the same ends, structs have the same fields, defaults and sizes are the
same, and members that were there are there.

An added method never has the name of a member, so it changes no answer but one: a type that did not
satisfy an interface may do so now.  Where nothing was added all answers are the same, those that
something is wrong too.
-/
import TreeTyping.Assignability
import TreeTyping.Composed.Size
import TreeTyping.Proofs.Composed.Endless
import TreeTyping.Proofs.Ty.Renaming

namespace TreeTyping

open List TreeTyping.Except

/-- How a registry is issued anew: identities are renamed, methods added.  Some types are known. -/
structure Reissue where
  ids : Renaming
  added : List MethodEntry
  knows : Ty → Prop

namespace Reissue

variable {v : Reissue}

/-- No method is added. -/
def Exact (v : Reissue) : Prop := v.added = []

/-- All nominal types that a type mentions are known. -/
def Known (v : Reissue) (t : Ty) : Prop := ∀ n ∈ t.nominals, v.knows n

theorem known_primitive (p : Primitive) : v.Known (.primitive p) := forall_mem_nil _

theorem known_map {k e : Ty} : v.Known (.map k e) ↔ v.Known k ∧ v.Known e := forall_mem_append

theorem known_hashMap {k e : Ty} : v.Known (.hashMap k e) ↔ v.Known k ∧ v.Known e :=
  forall_mem_append

theorem known_function {params : List Ty} {result : Option Ty} :
    v.Known (.function params result) ↔ (∀ t ∈ params, v.Known t) ∧ ∀ t ∈ result, v.Known t := by
  have hparams : (∀ n ∈ Ty.nominalsOfList params, v.knows n) ↔ ∀ t ∈ params, v.Known t := by
    induction params with
    | nil => simp [Ty.nominalsOfList]
    | cons t rest ih => rw [Ty.nominalsOfList, forall_mem_append, ih, forall_mem_cons]; rfl
  have hresult : (∀ n ∈ Ty.nominalsOfOption result, v.knows n) ↔ ∀ t ∈ result, v.Known t := by
    cases result with
    | none => simp [Ty.nominalsOfOption]
    | some t => simp [Ty.nominalsOfOption, Known]
  rw [Known, Ty.nominals, forall_mem_append, hparams, hresult]

namespace Known

variable {t u : Ty}

theorem listElement? (h : v.Known t) : ∀ e ∈ t.listElement?, v.Known e := by
  intro e he
  cases t <;> cases he <;> exact h

theorem setElement? (h : v.Known t) : ∀ e ∈ t.setElement?, v.Known e := by
  intro e he
  cases t <;> cases he <;> exact h

theorem mapEntry? (h : v.Known t) : ∀ e ∈ t.mapEntry?, v.Known e.1 ∧ v.Known e.2 := by
  intro e he
  cases t <;> cases he <;> exact forall_mem_append.1 h

theorem iterated? (h : v.Known t) : ∀ e ∈ t.iterated?, v.Known e := by
  intro e he
  cases t <;> cases he
  all_goals first | exact h | exact (forall_mem_append.1 h).1

end Known

/-- The methods that are added to a type. -/
def addedTo (v : Reissue) (t : Ty) : Keyed Member :=
  (v.added.filter fun e => e.receiver = t).map fun e => (e.member.name, e.member)

/-- The members of a type after those that are added. -/
def members (v : Reissue) (t : Ty) (ms : Keyed Member) : Keyed Member :=
  let renamed := ms.mapValues (Member.rename v.ids)
  let extra := v.addedTo (t.rename v.ids)
  match t with
  | .interface _ => renamed
  | .alias _ | .struct _ => extra.foldl (fun members m => members.insert m.1 m.2) renamed
  | _ => renamed ++ extra

theorem members_of_exact (hv : v.Exact) (t : Ty) (ms : Keyed Member) :
    v.members t ms = ms.mapValues (Member.rename v.ids) := by
  have hnone : v.addedTo (t.rename v.ids) = [] := by
    rw [addedTo, hv]
    rfl
  unfold members
  rw [hnone]
  dsimp only
  split
  · rfl
  · rfl
  · rfl
  · exact append_nil _

end Reissue

namespace Registry

variable {v : Reissue} {σ : Renaming} {r r' : Registry}

/--
One registry comes from another: names and definitions are the same up to identities, and methods
are added, each under a name that is not yet that of a member.  What is known is in order: the types
that names stand for are known, as are those that a known type or a method refers to; and where
methods are added, a known alias leads to a type that is none.
-/
structure Reissued (v : Reissue) (r r' : Registry) : Prop where
  names : ∀ name, r'.lookup? name = (r.lookup? name).map (Ty.rename v.ids)
  definitions : ∀ i, r'.definitions[v.ids i]? = (r.definitions[i]?).map (Definition.rename v.ids)
  length : r'.definitions.length = r.definitions.length
  methods : r'.methods = r.methods.map (MethodEntry.rename v.ids) ++ v.added
  fresh : ∀ t ms name m, r.membersOf t = .ok ms → ms.find? name = some m →
    ∀ e ∈ v.added, e.receiver = t.rename v.ids → e.member.name ≠ name
  named : ∀ name t, r.lookup? name = some t → v.Known t
  closed : ∀ t, v.knows t → ∀ u ∈ Registration.referenced r t, v.knows u
  methodTypes : ∀ e ∈ r.methods, v.Known e.member.type
  ends : ¬v.Exact → ∀ n, v.knows (.alias n) → ∃ w, r.Leads (.alias n) w

/-! ### Annotations -/

theorem resolve_rename (h : ∀ name, r'.lookup? name = (r.lookup? name).map (Ty.rename σ))
    (name : String)
    (span : Span) : r'.resolve name span = (r.resolve name span).map (Ty.rename σ) := by
  rw [resolve, resolve, h]
  cases r.lookup? name <;> rfl

theorem arrayType_rename (span : Span) (element : Ty) (length : Option Int) :
    arrayType span (element.rename σ) length = (arrayType span element length).map
      (Ty.rename σ) := by
  cases length with
  | none => rfl
  | some length =>
    rw [arrayType, arrayType, Ty.isFixedArray_rename]
    split
    · rfl
    · split <;> rfl

theorem composedType_rename (span : Span) (name : String) (args : List Ty) (length : Option Int) :
    composedType span name (args.map (Ty.rename σ)) length =
      (composedType span name args length).map (Ty.rename σ) := by
  unfold composedType
  by_cases hlength : length.isSome ∧ name ≠ "array"
  · rw [if_pos hlength, if_pos hlength]
    rfl
  · rw [if_neg hlength, if_neg hlength]
    rcases args with _ | ⟨a, _ | ⟨b, _ | ⟨c, rest⟩⟩⟩
    · simp only [map_nil]
      rfl
    · simp only [map_cons, map_nil]
      by_cases hlist : name = "list"
      · rw [hlist]
        rfl
      by_cases hset : name = "set"
      · rw [hset]
        rfl
      by_cases hhashset : name = "hashset"
      · rw [hhashset]
        rfl
      by_cases harray : name = "array"
      · rw [harray]
        exact arrayType_rename span a length
      · simp [hlist, hset, hhashset, harray]
        rfl
    · simp only [map_cons, map_nil]
      by_cases hmap : name = "map"
      · rw [hmap]
        rfl
      by_cases hhashmap : name = "hashmap"
      · rw [hhashmap]
        rfl
      · simp [hmap, hhashmap]
        rfl
    · simp only [map_cons]
      rfl

mutual

theorem typeOf_rename (h : ∀ name, r'.lookup? name = (r.lookup? name).map (Ty.rename σ)) :
    ∀ e, r'.typeOf e = (r.typeOf e).map (Ty.rename σ)
  | .simple span name => by rw [typeOf, typeOf, resolve_rename h]
  | .generic span name args length => by
      rw [typeOf, typeOf]
      rcases arity? name with _ | arity
      · rfl
      · dsimp only
        split
        · rfl
        · rw [typesOf_rename h args]
          rcases r.typesOf args with f | ts
          · rfl
          · exact composedType_rename span name ts length
  | .foreign f => by
      rw [typeOf, typeOf]
      rcases f.span? with _ | span <;> rfl

theorem typesOf_rename (h : ∀ name, r'.lookup? name = (r.lookup? name).map (Ty.rename σ)) :
    ∀ es, r'.typesOf es = (r.typesOf es).map (List.map (Ty.rename σ))
  | [] => by rw [typesOf, typesOf]; rfl
  | e :: rest => by
      rw [typesOf, typesOf, typeOf_rename h e, typesOf_rename h rest]
      rcases r.typeOf e with f | t
      · rfl
      · rcases r.typesOf rest with f | ts <;> rfl

end

theorem typeOf?_rename (h : ∀ name, r'.lookup? name = (r.lookup? name).map (Ty.rename σ))
    (e : Option TypeExpr) : r'.typeOf? e = (r.typeOf? e).map (Option.map (Ty.rename σ)) := by
  cases e with
  | none => rfl
  | some e =>
    rw [typeOf?, typeOf?, typeOf_rename h]
    rcases r.typeOf e with f | t <;> rfl

theorem functionType_rename (h : ∀ name, r'.lookup? name = (r.lookup? name).map (Ty.rename σ))
    (params : List Param) (result : Option TypeExpr) :
    r'.functionType params result = (r.functionType params result).map (Ty.rename σ) := by
  rw [functionType, functionType, typesOf_rename h, typeOf?_rename h]
  rcases r.typesOf (params.map Param.typeExpr) with f | ts
  · rfl
  · rcases r.typeOf? result with f | t
    · rfl
    · simp only [Except.map, bind, Except.bind, pure, Except.pure, Ty.rename, Ty.renameList_eq,
        Ty.renameOption_eq]

/-- Where the types that names stand for are known, so is what an annotation denotes. -/
theorem typeOf_known (hnamed : ∀ name t, r.lookup? name = some t → v.Known t) (e : TypeExpr)
    {t : Ty} (h : r.typeOf e = .ok t) : v.Known t := by
  have hbuilt : Safe (fun _ => True) (r.typeOf e) v.Known :=
    typeOf_built hnamed e (.inr fun _ => trivial)
  exact hbuilt.of_ok h

theorem typeOf?_known (hnamed : ∀ name t, r.lookup? name = some t → v.Known t) {e : Option TypeExpr}
    {t? : Option Ty} (h : r.typeOf? e = .ok t?) : ∀ t ∈ t?, v.Known t := by
  cases e with
  | none =>
    cases h
    simp
  | some e =>
    obtain ⟨t, ht, rfl⟩ := map_eq_ok.1 h
    simpa using typeOf_known hnamed e ht

/-! ### What a type stands for -/

/-- The members that a type which is no alias exposes by its structure. -/
def exposed (r : Registry) : Ty → Keyed Member
  | .interface n => r.required n
  | .struct n => fieldMembers (r.structFields n)
  | _ => []

/-- A type exposes by its structure what the end of its aliases does. -/
theorem structuralMembers_eq (r : Registry) (t : Ty) :
    r.structuralMembers t = (r.resolveUnderlying t .nowhere).map r.exposed := by
  unfold structuralMembers
  split
  · rcases r.resolveUnderlying _ .nowhere with f | w
    · rfl
    · cases w <;> rfl
  · next hother =>
      rw [resolveUnderlying, walkAliases_done (Ty.isAlias_eq_false.2 hother)]
      cases t <;> rfl

theorem membersOf_of_ends {t : Ty} (h : ∀ n, t = .alias n → ∃ w, r.Leads (.alias n) w) :
    ∃ ms, r.membersOf t = .ok ms := by
  have hstructural : ∃ ms, r.structuralMembers t = .ok ms := by
    rw [structuralMembers_eq]
    by_cases halias : t.isAlias = true
    · obtain ⟨n, rfl⟩ := Ty.isAlias_eq_true.1 halias
      obtain ⟨w, hw⟩ := h n rfl
      rw [resolveUnderlying_eq_ok.2 hw]
      exact ⟨_, rfl⟩
    · rw [resolveUnderlying_eq_ok.2 (.done (by simpa using halias))]
      exact ⟨_, rfl⟩
  obtain ⟨ms, hms⟩ := hstructural
  unfold membersOf
  split
  · exact ⟨_, rfl⟩
  · rw [hms]
    exact ⟨_, rfl⟩
  · rw [hms]
    exact ⟨_, rfl⟩
  · exact ⟨_, rfl⟩

namespace Reissued

variable (h : r.Reissued v r')

include h

theorem underlying? (n : Nominal) :
    r'.underlying? (n.rename v.ids) = (r.underlying? n).map (Ty.rename v.ids) := by
  rw [Registry.underlying?, Registry.underlying?, Nominal.rename, h.definitions]
  rcases r.definitions[n.id]? with _ | d
  · rfl
  · cases d <;> rfl

theorem structFields (n : Nominal) :
    r'.structFields (n.rename v.ids) = (r.structFields n).mapValues (Ty.rename v.ids) := by
  rw [Registry.structFields, Registry.structFields, Nominal.rename, h.definitions]
  rcases r.definitions[n.id]? with _ | d
  · rfl
  · cases d <;> rfl

theorem required (n : Nominal) :
    r'.required (n.rename v.ids) = (r.required n).mapValues (Member.rename v.ids) := by
  rw [Registry.required, Registry.required, Nominal.rename, h.definitions]
  rcases r.definitions[n.id]? with _ | d
  · rfl
  · cases d <;> rfl

theorem walkAliases (span : Span) (fuel : Nat) (seen : List Nat) (chain : List String) (t : Ty) :
    r'.walkAliases span fuel (seen.map v.ids) chain (t.rename v.ids) =
      (r.walkAliases span fuel seen chain t).map (Ty.rename v.ids) := by
  fun_induction Registry.walkAliases r span fuel seen chain t with
  | case1 seen chain t =>
    rw [Registry.walkAliases, Ty.name_rename]
    rfl
  | case2 fuel seen chain n hmet =>
    have hmet' : v.ids n.id ∈ seen.map v.ids := mem_map_of_mem hmet
    rw [Ty.rename, Registry.walkAliases, Nominal.rename, if_pos hmet']
    rfl
  | case3 fuel seen chain n hnew hn =>
    have hnew' : v.ids n.id ∉ seen.map v.ids := by simpa using hnew
    rw [Ty.rename, Registry.walkAliases, h.underlying?, hn, Nominal.rename, if_neg hnew']
    rfl
  | case4 fuel seen chain n hnew t hn ih =>
    have hnew' : v.ids n.id ∉ seen.map v.ids := by simpa using hnew
    rw [Ty.rename, Registry.walkAliases, h.underlying?, hn, Nominal.rename, if_neg hnew']
    exact ih
  | case5 fuel seen chain t hother =>
    have hother' : (t.rename v.ids).isAlias = false := by
      rw [Ty.isAlias_rename]
      exact Ty.isAlias_eq_false.2 hother
    rw [walkAliases_done hother']
    rfl

/-- **Aliases lead to the renamed ends, and fail alike.** -/
theorem resolveUnderlying (t : Ty) (span : Span) :
    r'.resolveUnderlying (t.rename v.ids) span = (r.resolveUnderlying t span).map
      (Ty.rename v.ids) := by
  rw [Registry.resolveUnderlying, Registry.resolveUnderlying, h.length]
  exact h.walkAliases span _ [] [] t

/-! ### What is known -/

theorem underlying_known {n : Nominal} {t : Ty} (hn : v.knows (.alias n))
    (ht : r.underlying? n = some t) : v.Known t := by
  intro u hu
  refine h.closed _ hn u ?_
  unfold Registry.underlying? at ht
  split at ht
  · next d hd =>
      subst ht
      rw [Registration.referenced, hd]
      exact hu
  · cases ht

theorem structFields_known {n : Nominal} (hn : v.knows (.struct n)) :
    ∀ f ∈ r.structFields n, v.Known f.2 := by
  intro f hf u hu
  refine h.closed _ hn u ?_
  unfold Registry.structFields at hf
  split at hf
  · next fields hd =>
      rw [Registration.referenced, hd]
      exact mem_flatMap.2 ⟨f, hf, hu⟩
  · cases hf

theorem required_known {n : Nominal} (hn : v.knows (.interface n)) :
    ∀ e ∈ r.required n, v.Known e.2.type := by
  intro e he u hu
  refine h.closed _ hn u ?_
  unfold Registry.required at he
  split at he
  · next members hd =>
      rw [Registration.referenced, hd]
      exact mem_flatMap.2 ⟨e, he, hu⟩
  · cases he

theorem resolveUnderlying_known {t w : Ty} {span : Span} (ht : v.Known t)
    (hw : r.resolveUnderlying t span = .ok w) : v.Known w := by
  rw [resolveUnderlying_eq_ok] at hw
  induction hw with
  | done _ => exact ht
  | step hn _ ih => exact ih (h.underlying_known (forall_mem_singleton.1 ht) hn)

/-! ### Members -/

theorem exposed (w : Ty) :
    r'.exposed (w.rename v.ids) = (r.exposed w).mapValues (Member.rename v.ids) := by
  cases w with
  | interface n => exact h.required n
  | struct n =>
    rw [Ty.rename, Registry.exposed, Registry.exposed, h.structFields, fieldMembers, fieldMembers,
      Keyed.mapValues, Keyed.mapValues, map_map, map_map]
    rfl
  | _ => rfl

theorem structuralMembers (t : Ty) :
    r'.structuralMembers (t.rename v.ids) =
      (r.structuralMembers t).map (Keyed.mapValues (Member.rename v.ids)) := by
  rw [structuralMembers_eq, structuralMembers_eq, h.resolveUnderlying]
  rcases r.resolveUnderlying t .nowhere with f | w
  · rfl
  · exact congrArg Except.ok (h.exposed w)

theorem methodsOf (t : Ty) : r'.methodsOf (t.rename v.ids) =
    (r.methodsOf t).mapValues (Member.rename v.ids) ++ v.addedTo (t.rename v.ids) := by
  have hfilter : (r.methods.map (MethodEntry.rename v.ids)).filter
    (fun e => e.receiver = t.rename v.ids) =
      (r.methods.filter fun e => e.receiver = t).map (MethodEntry.rename v.ids) := by
    rw [filter_map]
    simp [Function.comp_def, MethodEntry.rename]
  rw [Registry.methodsOf, h.methods, filter_append, map_append, hfilter, Registry.methodsOf,
    Keyed.mapValues, map_map, map_map]
  rfl

/-- **A type has the renamed members, and those that are added.** -/
theorem membersOf (t : Ty) : r'.membersOf (t.rename v.ids) = (r.membersOf t).map (v.members t) := by
  have hstructural := h.structuralMembers t
  have hmethods := h.methodsOf t
  match t with
  | .interface n => exact congrArg Except.ok (h.required n)
  | .alias n | .struct n =>
    rw [Ty.rename] at hstructural hmethods ⊢
    rw [Registry.membersOf, Registry.membersOf, hstructural, hmethods]
    cases r.structuralMembers _ with
    | error f => rfl
    | ok ms =>
      refine congrArg Except.ok ?_
      rw [foldl_append, Keyed.insertAll_mapValues]
      rfl
  | .primitive _ | .array _ _ | .hashMap _ _ | .hashSet _ | .list _ | .map _ _ | .set _
  | .function _ _ =>
    exact congrArg Except.ok (h.methodsOf _)

/-- A member that was there is there. -/
theorem find?_members {t : Ty} {ms : Keyed Member} {name : String} {m : Member}
    (hms : r.membersOf t = .ok ms)
    (hm : ms.find? name = some m) : (v.members t ms).find? name = some (m.rename v.ids) := by
  have hextra : ∀ e ∈ v.addedTo (t.rename v.ids), e.1 ≠ name := by
    intro e he
    obtain ⟨entry, hentry, rfl⟩ := mem_map.1 he
    obtain ⟨hadded, hreceiver⟩ := mem_filter.1 hentry
    exact h.fresh t ms name m hms hm entry hadded (of_decide_eq_true hreceiver)
  have hrenamed : (ms.mapValues (Member.rename v.ids)).find? name = some (m.rename v.ids) := by
    rw [Keyed.find?_mapValues, hm]
    rfl
  unfold Reissue.members
  dsimp only
  split
  · exact hrenamed
  · rw [Keyed.find?_insertAll hextra, hrenamed]
  · rw [Keyed.find?_insertAll hextra, hrenamed]
  · rw [Keyed.find?_append, hrenamed, Option.some_or]

theorem exposed_known {w : Ty} (hw : v.Known w) : ∀ e ∈ r.exposed w, v.Known e.2.type := by
  cases w with
  | interface n => exact h.required_known (forall_mem_singleton.1 hw)
  | struct n =>
    intro e he
    obtain ⟨f, hf, rfl⟩ := mem_map.1 he
    exact h.structFields_known (forall_mem_singleton.1 hw) f hf
  | _ => exact forall_mem_nil _

theorem structuralMembers_known {t : Ty} {ms : Keyed Member} (ht : v.Known t)
    (hms : r.structuralMembers t = .ok ms) : ∀ e ∈ ms, v.Known e.2.type := by
  rw [structuralMembers_eq] at hms
  obtain ⟨w, hw, rfl⟩ := map_eq_ok.1 hms
  exact h.exposed_known (h.resolveUnderlying_known ht hw)

theorem methodsOf_known (t : Ty) : ∀ e ∈ r.methodsOf t, v.Known e.2.type := by
  intro e he
  obtain ⟨entry, hentry, rfl⟩ := mem_map.1 he
  exact h.methodTypes entry (mem_of_mem_filter hentry)

theorem membersOf_known {t : Ty} {ms : Keyed Member} (ht : v.Known t)
    (hms : r.membersOf t = .ok ms) : ∀ e ∈ ms, v.Known e.2.type := by
  unfold Registry.membersOf at hms
  split at hms
  · cases hms
    exact h.required_known (forall_mem_singleton.1 ht)
  · obtain ⟨structural, hstructural, hms⟩ := bind_eq_ok.1 hms
    cases hms
    exact Keyed.forall_mem_insertAll (P := fun m : Member => v.Known m.type)
      (h.structuralMembers_known ht hstructural) (h.methodsOf_known _)
  · obtain ⟨structural, hstructural, hms⟩ := bind_eq_ok.1 hms
    cases hms
    exact Keyed.forall_mem_insertAll (P := fun m : Member => v.Known m.type)
      (h.structuralMembers_known ht hstructural) (h.methodsOf_known _)
  · cases hms
    exact h.methodsOf_known t

/-- A member that was there is there, and where nothing is added no other is. -/
theorem find?_members_cases {t : Ty} {ms : Keyed Member} (ht : v.Known t)
    (hms : r.membersOf t = .ok ms) (name : String) :
    ms.find? name = none ∧ (v.Exact → (v.members t ms).find? name = none) ∨
      ∃ m, ms.find? name = some m ∧ (v.members t ms).find? name = some (m.rename v.ids) ∧
        v.Known m.type := by
  rcases hfind : ms.find? name with _ | m
  · refine .inl ⟨rfl, fun hv => ?_⟩
    rw [Reissue.members_of_exact hv, Keyed.find?_mapValues, hfind]
    rfl
  · exact .inr ⟨m, rfl, h.find?_members hms hfind,
      h.membersOf_known ht hms _ (Keyed.mem_of_find? hfind)⟩

theorem membersOf_total (hv : ¬v.Exact) {t : Ty} (ht : v.Known t) :
    ∃ ms, r.membersOf t = .ok ms := by
  refine membersOf_of_ends fun n halias => ?_
  subst halias
  exact h.ends hv n (forall_mem_singleton.1 ht)

end Reissued

/-! ### Satisfaction -/

theorem Meets.trans {a b c : Member} (hab : Meets a b) (hbc : Meets b c) : Meets a c :=
  ⟨hab.1.trans hbc.1, hab.2.trans hbc.2⟩

theorem meets_rename {found required : Member} :
    Meets (found.rename σ) (required.rename σ) ↔ Meets found required := by
  simp [Meets, Member.rename]

theorem firstUnmet_eq_none {ms requirements : Keyed Member} :
    firstUnmet ms requirements = none ↔
      ∀ e ∈ requirements, ∃ m, ms.find? e.1 = some m ∧ Meets m e.2 := by
  induction requirements with
  | nil => simp [firstUnmet]
  | cons e rest ih =>
    obtain ⟨name, required⟩ := e
    rw [firstUnmet, forall_mem_cons, ← ih]
    rcases ms.find? name with _ | found
    · simp
    · by_cases hmeets : Meets found required
      · simp [hmeets]
      · simp [hmeets]

theorem firstUnmet_rename (ms requirements : Keyed Member) :
    firstUnmet (ms.mapValues (Member.rename σ)) (requirements.mapValues (Member.rename σ)) =
      (firstUnmet ms requirements).map (MemberMismatch.rename σ) := by
  induction requirements with
  | nil => rfl
  | cons e rest ih =>
    obtain ⟨name, required⟩ := e
    rw [Keyed.mapValues_cons, firstUnmet, firstUnmet, Keyed.find?_mapValues]
    rcases ms.find? name with _ | found
    · rfl
    · dsimp only [Option.map_some]
      by_cases hmeets : Meets found required
      · rw [if_pos hmeets, if_pos (meets_rename.2 hmeets), ih]
      · rw [if_neg hmeets, if_neg (mt meets_rename.1 hmeets)]
        rfl

theorem isTrivial_iff {t : Ty} {i : Nominal} :
    r.isTrivial t i = true ↔ r.required i = [] ∨ t = .interface i := by
  rw [isTrivial, Bool.or_eq_true, List.isEmpty_iff, decide_eq_true_eq]

/-- A type satisfies an interface if nothing needs a look, or every requirement is met. -/
theorem firstMismatch_eq_none {t : Ty} {i : Nominal} : r.firstMismatch t i = .ok none ↔
    (r.required i = [] ∨ t = .interface i) ∨
      ∃ ms, r.membersOf t = .ok ms ∧ ∀ e ∈ r.required i, ∃ m, ms.find? e.1 = some m ∧
        Meets m e.2 := by
  rw [firstMismatch, ← isTrivial_iff]
  by_cases htrivial : r.isTrivial t i = true
  · simp [htrivial]
  · rw [if_neg htrivial, or_iff_right htrivial, bind_eq_ok]
    refine exists_congr fun ms => and_congr_right fun _ => ?_
    rw [← firstUnmet_eq_none]
    exact ⟨Except.ok.inj, congrArg Except.ok⟩

/-- **What satisfies an interface satisfies every interface that the interface satisfies.** -/
theorem firstMismatch_trans {t : Ty} {i j : Nominal} (hi : r.firstMismatch t i = .ok none)
    (hj : r.firstMismatch (.interface i) j = .ok none) : r.firstMismatch t j = .ok none := by
  rw [firstMismatch_eq_none] at hi hj ⊢
  rcases hj with (hempty | heq) | ⟨ms, hms, hmet⟩
  · exact .inl (.inl hempty)
  · cases heq
    exact hi
  · rcases hi with (hempty | rfl) | ⟨ms', hms', hmet'⟩
    · -- an interface that requires nothing has no members, so it satisfies only others that require
      -- nothing
      refine .inl (.inl (eq_nil_iff_forall_not_mem.2 fun e he => ?_))
      obtain ⟨m, hm, -⟩ := hmet e he
      cases hms
      rw [hempty] at hm
      cases hm
    · exact .inr ⟨ms, hms, hmet⟩
    · cases hms
      refine .inr ⟨ms', hms', fun e he => ?_⟩
      obtain ⟨m, hm, hmeets⟩ := hmet e he
      obtain ⟨m', hm', hmeets'⟩ := hmet' _ (Keyed.mem_of_find? hm)
      exact ⟨m', hm', hmeets'.trans hmeets⟩

namespace Reissued

variable (h : r.Reissued v r')

include h

theorem isTrivial (t : Ty) (i : Nominal) :
    r'.isTrivial (t.rename v.ids) (i.rename v.ids) = r.isTrivial t i := by
  have hsame : t.rename v.ids = .interface (i.rename v.ids) ↔ t = .interface i :=
    Ty.rename_inj (u := .interface i)
  simp only [Registry.isTrivial, h.required, Keyed.mapValues_isEmpty, hsame]

/-- **A type that satisfied an interface does so now.** -/
theorem firstMismatch_none {t : Ty} {i : Nominal} (hi : r.firstMismatch t i = .ok none) :
    r'.firstMismatch (t.rename v.ids) (i.rename v.ids) = .ok none := by
  rw [firstMismatch_eq_none] at hi ⊢
  rw [h.required]
  rcases hi with (hempty | rfl) | ⟨ms, hms, hmet⟩
  · rw [hempty]
    exact .inl (.inl rfl)
  · exact .inl (.inr rfl)
  · refine .inr ⟨_, by rw [h.membersOf, hms]; rfl, fun e he => ?_⟩
    obtain ⟨required, hrequired, rfl⟩ := mem_map.1 he
    obtain ⟨m, hm, hmeets⟩ := hmet required hrequired
    exact ⟨_, h.find?_members hms hm, meets_rename.2 hmeets⟩

/-- Where nothing is added, the first requirement that is not met is the same. -/
theorem firstMismatch_of_exact (hv : v.Exact) (t : Ty) (i : Nominal) :
    r'.firstMismatch (t.rename v.ids) (i.rename v.ids) =
      (r.firstMismatch t i).map (Option.map (MemberMismatch.rename v.ids)) := by
  rw [firstMismatch, firstMismatch, h.isTrivial]
  split
  · rfl
  · rw [h.membersOf, h.required]
    rcases r.membersOf t with f | ms
    · rfl
    · refine congrArg Except.ok ?_
      rw [Reissue.members_of_exact hv]
      exact firstUnmet_rename ms (r.required i)

/-- A question that had an answer has one now. -/
theorem firstMismatch_ok {t : Ty} {i : Nominal} {mismatch? : Option MemberMismatch}
    (hi : r.firstMismatch t i = .ok mismatch?) :
    ∃ mismatch?', r'.firstMismatch (t.rename v.ids) (i.rename v.ids) = .ok mismatch?' := by
  rw [firstMismatch, h.isTrivial]
  split
  · exact ⟨_, rfl⟩
  · next hopen =>
      rw [firstMismatch, if_neg hopen] at hi
      obtain ⟨ms, hms, -⟩ := bind_eq_ok.1 hi
      rw [h.membersOf, hms]
      exact ⟨_, rfl⟩

theorem satisfies_ok {t : Ty} {i : Nominal} {b : Bool} (hi : r.satisfies t i = .ok b) :
    ∃ b', r'.satisfies (t.rename v.ids) (i.rename v.ids) = .ok b' := by
  obtain ⟨mismatch?, hmismatch, -⟩ := bind_eq_ok.1 hi
  obtain ⟨mismatch?', hmismatch'⟩ := h.firstMismatch_ok hmismatch
  rw [satisfies, hmismatch']
  exact ⟨_, rfl⟩

theorem satisfies_true {t : Ty} {i : Nominal} (hi : r.satisfies t i = .ok true) :
    r'.satisfies (t.rename v.ids) (i.rename v.ids) = .ok true := by
  obtain ⟨mismatch?, hmismatch, hnone⟩ := bind_eq_ok.1 hi
  obtain rfl : mismatch? = none := Option.isNone_iff_eq_none.1 (Except.ok.inj hnone)
  rw [satisfies, h.firstMismatch_none hmismatch]
  rfl

theorem satisfies_of_exact (hv : v.Exact) (t : Ty) (i : Nominal) :
    r'.satisfies (t.rename v.ids) (i.rename v.ids) = r.satisfies t i := by
  rw [satisfies, satisfies, h.firstMismatch_of_exact hv]
  rcases r.firstMismatch t i with f | _ | m <;> rfl

omit h in
/-- What can be stored where no interface is declared does not depend on the registry. -/
theorem isAssignable_other {target : Ty} (hother : ∀ i, target ≠ .interface i) (source : Ty) :
    r'.isAssignable (target.rename v.ids) (source.rename v.ids) = r.isAssignable target source := by
  have hrenamed : ∀ i, target.rename v.ids ≠ .interface i := by
    intro i heq
    cases target with
    | interface i => exact hother i rfl
    | _ => cases heq
  rw [isAssignable, isAssignable, Ty.backing?_rename, Ty.backing?_rename]
  · by_cases heq : target = source
    · rw [if_pos heq, if_pos (congrArg (Ty.rename v.ids) heq)]
    · rw [if_neg heq, if_neg (mt Ty.rename_inj.1 heq)]
      rcases target.backing? with _ | backing
      · rcases source.backing? with _ | backing
        · rfl
        · exact congrArg Except.ok (decide_eq_decide.2 Ty.rename_inj)
      · exact congrArg Except.ok (decide_eq_decide.2 Ty.rename_inj)
  · exact hother
  · exact hrenamed

/-- A value that could be stored in a place can be stored there now. -/
theorem isAssignable_true {target source : Ty} (hok : r.isAssignable target source = .ok true) :
    r'.isAssignable (target.rename v.ids) (source.rename v.ids) = .ok true := by
  by_cases hother : ∀ i, target ≠ .interface i
  · rw [isAssignable_other hother, hok]
  · obtain ⟨i, rfl⟩ : ∃ i, target = .interface i := by simpa using hother
    unfold isAssignable at hok ⊢
    by_cases heq : Ty.interface i = source
    · rw [if_pos (congrArg (Ty.rename v.ids) heq)]
    · rw [if_neg heq] at hok
      rw [if_neg (mt Ty.rename_inj.1 heq)]
      exact h.satisfies_true hok

theorem isAssignable_of_exact (hv : v.Exact) (target source : Ty) :
    r'.isAssignable (target.rename v.ids) (source.rename v.ids) = r.isAssignable target source := by
  by_cases hother : ∀ i, target ≠ .interface i
  · exact isAssignable_other hother source
  · obtain ⟨i, rfl⟩ : ∃ i, target = .interface i := by simpa using hother
    unfold isAssignable
    by_cases heq : Ty.interface i = source
    · rw [if_pos heq, if_pos (congrArg (Ty.rename v.ids) heq)]
    · rw [if_neg heq, if_neg (mt Ty.rename_inj.1 heq)]
      exact h.satisfies_of_exact hv source i

theorem sameUnderlying (a b : Ty) :
    r'.sameUnderlying (a.rename v.ids) (b.rename v.ids) = r.sameUnderlying a b := by
  rw [Registry.sameUnderlying, Registry.sameUnderlying, Ty.isAlias_rename, Ty.isAlias_rename,
    h.resolveUnderlying, h.resolveUnderlying]
  split
  · rcases r.resolveUnderlying a .nowhere with f | u
    · rfl
    · rcases r.resolveUnderlying b .nowhere with f | w
      · rfl
      · simp [Except.map, bind, Except.bind, pure, Except.pure]
  · rfl

/-! ### Defaults and sizes -/

/-- There are the same identities, up to renaming. -/
theorem identities : (r.identities.map v.ids).Perm r'.identities := by
  have hlt (i : Nat) : v.ids i < r'.definitions.length ↔ i < r.definitions.length := by
    rw [← not_le, ← not_le, ← List.getElem?_eq_none_iff, ← List.getElem?_eq_none_iff, h.definitions,
      Option.map_eq_none_iff]
  have hnodup : (r.identities.map v.ids).Nodup := nodup_range.map v.ids.injective
  refine (perm_ext_iff_of_nodup hnodup nodup_range).2 fun j => ?_
  obtain ⟨i, rfl⟩ := v.ids.surjective j
  rw [mem_map_of_injective v.ids.injective, Registry.identities, mem_range, mem_range, hlt]

end Reissued

/-- Taking the same identity off leaves the same identities, up to renaming. -/
theorem erase_perm {ids ids' : List Nat} (h : (ids.map σ).Perm ids') (i : Nat) :
    ((ids.erase i).map σ).Perm (ids'.erase (σ i)) := by
  rw [map_erase σ.injective]
  exact h.erase (σ i)

theorem mem_of_perm {ids ids' : List Nat} (h : (ids.map σ).Perm ids') (i : Nat) :
    σ i ∈ ids' ↔ i ∈ ids := by
  rw [← h.mem_iff, mem_map_of_injective σ.injective]

/-- A type has the default and size of the renamed one, inside the same structs and aliases. -/
def AlikeInside (r r' : Registry) (σ : Renaming) (wordBits : Number)
    (structs aliases structs' aliases' : List Nat) (t : Ty) : Prop :=
  r'.defaultInside structs' aliases' (t.rename σ) = r.defaultInside structs aliases t ∧
    r'.sizeInside wordBits structs' aliases' (t.rename σ) = r.sizeInside wordBits structs aliases t

theorem AlikeInside.fields {wordBits : Number} {structs aliases structs' aliases' : List Nat}
    {fields : Keyed Ty}
    (h : ∀ f ∈ fields, AlikeInside r r' σ wordBits structs aliases structs' aliases' f.2)
    (before : Number) :
    r'.defaultFields structs' aliases' (fields.mapValues (Ty.rename σ)) = r.defaultFields structs
      aliases fields ∧
      r'.sizeFields wordBits structs' aliases' before (fields.mapValues (Ty.rename σ)) =
        r.sizeFields wordBits structs aliases before fields := by
  induction fields generalizing before with
  | nil =>
    rw [Keyed.mapValues_nil, defaultFields, defaultFields, sizeFields, sizeFields]
    exact ⟨rfl, rfl⟩
  | cons f rest ih =>
    obtain ⟨⟨hdefault, hsize⟩, hrest⟩ := forall_mem_cons.1 h
    rw [Keyed.mapValues_cons, defaultFields, defaultFields, sizeFields, sizeFields, hdefault, hsize,
      (ih hrest before).1]
    exact ⟨rfl, bind_congr fun size => bind_congr fun total => (ih hrest total).2⟩

theorem Reissued.alikeInside (h : r.Reissued v r') (wordBits : Number) (structs aliases : List Nat)
    (t : Ty)
    {structs' aliases' : List Nat} (hs : (structs.map v.ids).Perm structs')
    (ha : (aliases.map v.ids).Perm aliases') :
    AlikeInside r r' v.ids wordBits structs aliases structs' aliases' t := by
  induction structs, aliases, t using entering generalizing structs' aliases' with
  | step structs aliases t halias harray hstruct
  match t with
  | .array e (some length) =>
    obtain ⟨hdefault, hsize⟩ := harray e _ rfl hs ha
    rw [AlikeInside, Ty.rename, defaultInside, defaultInside, sizeInside, sizeInside,
      hdefault, hsize]
    exact ⟨rfl, rfl⟩
  | .alias n =>
    have hrenamed : (n.rename v.ids).id ∈ aliases' ↔ n.id ∈ aliases := mem_of_perm ha n.id
    have hbehind := h.resolveUnderlying (.alias n) .nowhere
    rw [Ty.rename] at hbehind
    rw [AlikeInside, Ty.rename, defaultInside, defaultInside, sizeInside, sizeInside,
      h.underlying?, hbehind]
    by_cases hmem : n.id ∈ aliases
    · have hinside (u : Ty) := halias n u rfl hmem hs (erase_perm ha n.id)
      simp only [hrenamed, hmem, reduceDIte]
      constructor
      · rcases r.underlying? n with _ | u
        · rfl
        · exact (hinside u).1
      · rcases r.resolveUnderlying (.alias n) .nowhere with f | w
        · rfl
        · exact (hinside w).2
    · simp only [hrenamed, hmem, reduceDIte]
      constructor
      · rcases r.underlying? n with _ | u <;> rfl
      · rcases r.resolveUnderlying (.alias n) .nowhere with f | w <;> rfl
  | .struct n =>
    have hrenamed : (n.rename v.ids).id ∈ structs' ↔ n.id ∈ structs := mem_of_perm hs n.id
    rw [AlikeInside, Ty.rename, defaultInside, defaultInside, sizeInside, sizeInside,
      h.structFields]
    by_cases hmem : n.id ∈ structs
    · have hfields := AlikeInside.fields (fun f (_ : f ∈ r.structFields n) =>
        hstruct n _ f.2 rfl hmem (erase_perm hs n.id) h.identities) (.int 0)
      simp only [hrenamed, hmem, reduceDIte]
      exact ⟨congrArg (· >>= fun values => pure (Value.record values)) hfields.1, hfields.2⟩
    · simp only [hrenamed, hmem, reduceDIte]
      exact ⟨trivial, rfl⟩
  | .primitive _ | .array _ none | .hashMap _ _ | .hashSet _ | .list _ | .map _ _ | .set _
  | .function _ _
  | .interface _ =>
    rw [AlikeInside, Ty.rename, defaultInside, defaultInside, sizeInside, sizeInside]
    exact ⟨rfl, rfl⟩

/-- **The default of a type does not depend on identities and methods.** -/
theorem Reissued.default (h : r.Reissued v r') (t : Ty) :
    r'.default (t.rename v.ids) = r.default t :=
  (h.alikeInside (.int 0) _ _ t h.identities h.identities).1

/-- **The size of a type does not depend on identities and methods.** -/
theorem Reissued.size (h : r.Reissued v r') (wordBits : Number) (t : Ty) :
    r'.size wordBits (t.rename v.ids) = r.size wordBits t :=
  (h.alikeInside wordBits _ _ t h.identities h.identities).2

end Registry

end TreeTyping
