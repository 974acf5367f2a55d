/-
Type declarations in another order.

Where the names of type declarations are distinct, their order decides nothing but the numbers of
the types they introduce.  A permutation of the declarations is a renaming of these numbers.  Up to
the renaming all declarations are linked against the same names, so they get the same definitions,
aliases lead to the same ends, and the same sets of types are sound.  Registration keeps the largest
sound set and refuses everything else, so it keeps and refuses the same types in both orders.

What is reported differs with the order, since a type may be refused for one reason or for another.
But each refusal is reported once, and so is each entry that introduces nothing; so the number of
errors is the same.
-/
import TreeTyping.Proofs.Registry.Callable
import TreeTyping.Proofs.Registry.Reissue

namespace TreeTyping

open List TreeTyping.Except

/-! ### Permutations and renamings -/

/-- The renaming that does to the numbers from one on what another does to all numbers. -/
def Renaming.shift (σ : Renaming) : Renaming where
  toFun
    | 0 => 0
    | i + 1 => σ i + 1
  invFun
    | 0 => 0
    | i + 1 => σ.symm i + 1
  left_inv i := by cases i <;> simp
  right_inv i := by cases i <;> simp

/-- A permutation of a list moves its items by a renaming of their positions. -/
theorem Renaming.of_perm {α : Type} {xs ys : List α} (h : xs.Perm ys) :
    ∃ σ : Renaming, ∀ i : Nat, ys[σ i]? = xs[i]? := by
  induction h with
  | nil => exact ⟨Equiv.refl Nat, fun _ => rfl⟩
  | cons x _ ih =>
    obtain ⟨σ, hσ⟩ := ih
    refine ⟨σ.shift, fun i => ?_⟩
    cases i with
    | zero => rfl
    | succ i => exact hσ i
  | swap x y l =>
    refine ⟨Equiv.swap 0 1, fun i => ?_⟩
    match i with
    | 0 => rfl
    | 1 => rfl
    | i + 2 =>
      rw [Equiv.swap_apply_of_ne_of_ne (by omega) (by omega)]
      rfl
  | trans _ _ ih ih' =>
    obtain ⟨σ, hσ⟩ := ih
    obtain ⟨σ', hσ'⟩ := ih'
    exact ⟨σ.trans σ', fun i => (hσ' (σ i)).trans (hσ i)⟩

/-- Identities are renamed, and nothing is added. -/
def Reissue.ofRenaming (σ : Renaming) : Reissue := ⟨σ, [], fun _ => True⟩

theorem Reissue.ofRenaming_exact (σ : Renaming) : (ofRenaming σ).Exact := rfl

theorem Reissue.ofRenaming_known (σ : Renaming) (t : Ty) : (ofRenaming σ).Known t :=
  fun _ _ => trivial

namespace Registry

variable {v : Reissue} {σ : Renaming} {r r' : Registry}

theorem reissued_ofRenaming (names : ∀ name, r'.lookup? name = (r.lookup? name).map (Ty.rename σ))
    (definitions : ∀ i : Nat, r'.definitions[σ i]? = (r.definitions[i]?).map (Definition.rename σ))
    (length : r'.definitions.length = r.definitions.length)
    (methods : r'.methods = r.methods.map (MethodEntry.rename σ)) :
    r.Reissued (.ofRenaming σ) r' where
  names := names
  definitions := definitions
  length := length
  methods := by rw [methods]; exact (append_nil _).symm
  fresh := fun _ _ _ _ _ _ => forall_mem_nil _
  named := fun _ t _ => Reissue.ofRenaming_known σ t
  closed := fun _ _ _ _ => trivial
  methodTypes := fun e _ => Reissue.ofRenaming_known σ e.member.type
  ends := fun hadded => absurd (Reissue.ofRenaming_exact σ) hadded

theorem Reissued.leads (h : r.Reissued v r') {t w : Ty} (ht : r.Leads t w) :
    r'.Leads (t.rename v.ids) (w.rename v.ids) := by
  have hend := h.resolveUnderlying t .nowhere
  rw [resolveUnderlying_eq_ok.2 ht] at hend
  exact resolveUnderlying_eq_ok.1 hend

/-- Aliases that strand do so after renaming. -/
theorem Reissued.strands (h : r.Reissued v r') {t : Ty} {n : Nominal} (ht : r.Strands t n) :
    ∃ n', r'.Strands (t.rename v.ids) n' := by
  have herror := h.resolveUnderlying t .nowhere
  rw [resolveUnderlying_strands ht] at herror
  rcases walkAliases_eq_error herror with ⟨names, hcyclic⟩ | ⟨n', hn', -⟩
  · cases hcyclic
  · exact ⟨n', hn'⟩

end Registry

namespace Registration

/-! ### Linking against renamed types -/

section Linking

variable {σ : Renaming} {r r' : Registry}
  (h : ∀ name, r'.lookup? name = (r.lookup? name).map (Ty.rename σ))

include h

theorem linkFields_rename (struct : String) (seen : Keyed Ty) (fields : List Param) :
    linkFields r' struct (seen.mapValues (Ty.rename σ)) fields =
      Prod.map (Keyed.mapValues (Ty.rename σ)) id (linkFields r struct seen fields) := by
  induction fields generalizing seen with
  | nil => rfl
  | cons field rest ih =>
    rw [linkFields, linkFields, Keyed.has_mapValues, Registry.typeOf_rename h]
    split
    · rfl
    · rcases r.typeOf field.typeExpr with f | t
      · rfl
      · show linkFields r' struct
          (Keyed.insert field.name (t.rename σ) (seen.mapValues (Ty.rename σ))) rest = _
        rw [Keyed.insert_mapValues, ih]

theorem linkMember_rename (interface : String) (seen : Keyed Member) (decl : MemberDecl) :
    linkMember r' interface (seen.mapValues (Member.rename σ)) decl =
      (linkMember r interface seen decl).map (Member.rename σ) := by
  cases decl with
  | field span name typeExpr =>
    rw [linkMember, linkMember, Keyed.has_mapValues, Registry.typeOf_rename h]
    split
    · rfl
    · rcases r.typeOf typeExpr with f | t <;> rfl
  | method span name params returnType =>
    rw [linkMember, linkMember, Keyed.has_mapValues, Registry.functionType_rename h]
    split
    · rfl
    · rcases r.functionType params returnType with f | t <;> rfl
  | foreign name f =>
    cases name with
    | none => rfl
    | some name =>
      rw [linkMember, linkMember, Keyed.has_mapValues]
      split <;> rfl

theorem linkMembers_rename (interface : String) (seen : Keyed Member) (members : List MemberDecl) :
    linkMembers r' interface (seen.mapValues (Member.rename σ)) members =
      Prod.map (Keyed.mapValues (Member.rename σ)) id (linkMembers r interface seen members) := by
  induction members generalizing seen with
  | nil => rfl
  | cons decl rest ih =>
    rw [linkMembers, linkMembers, linkMember_rename h]
    rcases linkMember r interface seen decl with f | m
    · rfl
    · show linkMembers r' interface
        (Keyed.insert m.name (m.rename σ) (seen.mapValues (Member.rename σ))) rest = _
      rw [Keyed.insert_mapValues, ih]

/-- A declaration gets the renamed definition, and the same is wrong with it. -/
theorem definitionOf_rename (decl : TypeDecl) :
    definitionOf r' decl = Prod.map (Definition.rename σ) id (definitionOf r decl) := by
  unfold definitionOf
  split
  · next underlying =>
      rw [Registry.typeOf_rename h]
      rcases r.typeOf underlying with f | t <;> rfl
  · next name fields =>
      dsimp only
      rw [show linkFields r' name [] fields = _ from linkFields_rename h name [] fields]
      rfl
  · next name members =>
      dsimp only
      rw [show linkMembers r' name [] members = _ from linkMembers_rename h name [] members]
      rfl

end Linking

/-! ### Introducing in another order -/

/-- The declaration in an entry, if it is one. -/
def declarationOf? : Entry TypeDecl → Option TypeDecl
  | .proper decl => some decl
  | .foreign _ => none

/-- The names of all declarations, in order. -/
def declaredNames (types : List (Entry TypeDecl)) : List String :=
  (types.filterMap declarationOf?).map TypeDecl.name

/-- Where names are distinct, all declarations introduce types but those of built-in names. -/
theorem introduced_decls {types : List (Entry TypeDecl)} (hnames : (declaredNames types).Nodup) :
    (introduced types).map Declared.decl =
      (types.filterMap declarationOf?).filter fun decl => !Ty.isBuiltinName decl.name := by
  induction types using List.reverseRecOn with
  | nil => rfl
  | append_singleton types entry ih =>
    rw [declaredNames, filterMap_append, map_append] at hnames
    have hfirst := (nodup_append.1 hnames).1
    have hapart := (nodup_append.1 hnames).2.2
    rw [introduced_append, filterMap_append, filter_append, ← ih hfirst]
    rcases introduce_cases (introduced types) entry with ⟨heq, htaken⟩ | ⟨decl, rfl, hfree, -, heq⟩
    · rw [heq]
      cases entry with
      | foreign f => exact (append_nil _).symm
      | proper decl =>
        have hbuiltin : Ty.isBuiltinName decl.name = true := by
          refine (htaken decl rfl).resolve_right ?_
          rintro ⟨d, hd, hname⟩
          have hmem : .proper d.decl ∈ types := mem_of_firstOf? (mem_introduced.1 ⟨d.type, hd⟩).1
          exact hapart _ (mem_map_of_mem (mem_filterMap.2 ⟨_, hmem, rfl⟩)) _
            (mem_singleton_self _) hname
        simp [declarationOf?, hbuiltin]
    · rw [heq]
      simp [declarationOf?, hfree]

end Registration

/-- An introduced type with the identities in it renamed. -/
def Declared.rename (σ : Renaming) (d : Declared) : Declared := ⟨d.decl, d.type.rename σ⟩

theorem Declared.rename_symm (σ : Renaming) (d : Declared) : (d.rename σ).rename σ.symm = d := by
  rw [rename, rename, Ty.rename_symm]

namespace Registration

theorem nominal_rename (σ : Renaming) (id : Nat) (decl : TypeDecl) :
    (nominal id decl).rename σ = nominal (σ id) decl := by
  cases decl <;> rfl

theorem builtins_rename (σ : Renaming) : ∀ b ∈ Ty.builtins, b.2.rename σ.shift = b.2 := by
  intro b hb
  rw [Ty.builtins, mem_append, mem_map, mem_singleton] at hb
  rcases hb with ⟨p, -, rfl⟩ | rfl <;> rfl

/-- The same types are introduced in another order. -/
structure Reordered (σ : Renaming) (ds ds' : List Declared) : Prop where
  here : Introduces ds
  there : Introduces ds'
  length : ds'.length = ds.length
  moved : ∀ i : Nat, ds'[σ i]? = (ds[i]?).map (Declared.rename σ.shift)

/-- **Distinct declarations in another order introduce the same types in another order.** -/
theorem introduced_reordered {types types' : List (Entry TypeDecl)}
    (hnames : (declaredNames types).Nodup)
    (hperm : types.Perm types') : ∃ σ, Reordered σ (introduced types) (introduced types') := by
  have hnames' : (declaredNames types').Nodup := ((hperm.filterMap _).map _).nodup_iff.1 hnames
  have hdecls : ((introduced types).map Declared.decl).Perm
      ((introduced types').map Declared.decl) := by
    rw [introduced_decls hnames, introduced_decls hnames']
    exact (hperm.filterMap _).filter _
  obtain ⟨σ, hσ⟩ := Renaming.of_perm hdecls
  have hds := introduces_introduced types
  have hds' := introduces_introduced types'
  refine ⟨σ, hds, hds', by simpa using hdecls.length_eq.symm, fun i => ?_⟩
  have hdecl := hσ i
  rw [getElem?_map, getElem?_map] at hdecl
  rcases hd : (introduced types)[i]? with _ | d
  · rw [hd] at hdecl
    exact Option.map_eq_none_iff.1 hdecl
  · rw [hd] at hdecl
    obtain ⟨d', hd', heq⟩ := Option.map_eq_some_iff.1 hdecl
    have htype : d'.type = d.type.rename σ.shift := by
      rw [hds'.types (σ i) d' hd', hds.types i d hd, nominal_rename, heq]
      rfl
    rw [hd', Option.map_some, Declared.rename, ← htype, ← heq]

namespace Reordered

variable {σ : Renaming} {ds ds' : List Declared}

theorem symm (h : Reordered σ ds ds') : Reordered σ.symm ds' ds := by
  refine ⟨h.there, h.here, h.length.symm, fun i => ?_⟩
  have hmoved := h.moved (σ.symm i)
  rw [Equiv.apply_symm_apply] at hmoved
  rw [hmoved]
  rcases ds[σ.symm i]? with _ | d
  · rfl
  · exact congrArg some (d.rename_symm σ.shift).symm

theorem mem (h : Reordered σ ds ds') {d : Declared} (hd : d ∈ ds) : d.rename σ.shift ∈ ds' := by
  obtain ⟨i, hi⟩ := mem_iff_getElem?.1 hd
  have hmoved := h.moved i
  rw [hi] at hmoved
  exact mem_of_getElem? hmoved

theorem exists_of_mem (h : Reordered σ ds ds') {d' : Declared} (hd' : d' ∈ ds') :
    ∃ d ∈ ds, d' = d.rename σ.shift :=
  ⟨_, h.symm.mem hd', (d'.rename_symm (Renaming.shift σ.symm)).symm⟩

end Reordered

/-! ### The same sets are sound -/

theorem lookup?_scope {ds : List Declared} (hds : Introduces ds) {name : String} {t : Ty} :
    (scope ds).lookup? name = some t ↔ (name, t) ∈ Ty.builtins ∨ ∃ d ∈ ds, d.decl.name = name ∧
    d.type = t := by
  simp only [lookup?_eq_some hds.scope_names, mem_scope]
  constructor
  · rintro ⟨b, ⟨x, hx, rfl⟩ | ⟨d, hd, rfl⟩, rfl, rfl⟩
    · exact .inl hx
    · exact .inr ⟨d, hd, rfl, rfl⟩
  · rintro (hx | ⟨d, hd, rfl, rfl⟩)
    · exact ⟨_, .inl ⟨_, hx, rfl⟩, rfl, rfl⟩
    · exact ⟨d.binding, .inr ⟨d, hd, rfl⟩, rfl, rfl⟩

/-- What is found exactly where something else is, as its image, is the image of the other. -/
theorem eq_map_of_some {α β : Type} {a? : Option α} {b? : Option β} {f : α → β} {g : β → α}
    (h : ∀ a, a? = some a → b? = some (f a)) (h' : ∀ b, b? = some b → a? = some (g b)) :
    b? = a?.map f := by
  rcases ha : a? with _ | a
  · rcases hb : b? with _ | b
    · rfl
    · cases ha.symm.trans (h' b hb)
  · exact h a ha

namespace Reordered

variable {σ : Renaming} {ds ds' : List Declared}

theorem lookup?_eq_some (h : Reordered σ ds ds') {name : String} {t : Ty}
    (ht : (scope ds).lookup? name = some t) :
    (scope ds').lookup? name = some (t.rename σ.shift) := by
  rw [lookup?_scope h.there]
  rcases (lookup?_scope h.here).1 ht with hbuiltin | ⟨d, hd, hname, rfl⟩
  · rw [builtins_rename σ _ hbuiltin]
    exact .inl hbuiltin
  · exact .inr ⟨_, h.mem hd, hname, rfl⟩

/-- Declarations are linked against the same names, up to identities. -/
theorem lookup? (h : Reordered σ ds ds') (name : String) :
    (scope ds').lookup? name = ((scope ds).lookup? name).map (Ty.rename σ.shift) :=
  eq_map_of_some (fun _ => h.lookup?_eq_some) fun _ => h.symm.lookup?_eq_some

theorem links (h : Reordered σ ds ds') (d : Declared) :
    links ds' (d.rename σ.shift) = links ds d := by
  show (definitionOf (scope ds') d.decl).2.isNone = _
  rw [definitionOf_rename h.lookup?]
  rfl

theorem definitionIn (h : Reordered σ ds ds') (d : Declared) :
    definitionIn ds' (d.rename σ.shift) = (definitionIn ds d).rename σ.shift := by
  show (definitionOf (scope ds') d.decl).1 = _
  rw [definitionOf_rename h.lookup?]
  rfl

/-- Definitions are the same up to identities, each under the renamed one. -/
theorem definitions (h : Reordered σ ds ds') (i : Nat) : (linkedScope ds').definitions[σ.shift i]? =
    ((linkedScope ds).definitions[i]?).map (Definition.rename σ.shift) := by
  cases i with
  | zero => rfl
  | succ i =>
    show (ds'.map (Registration.definitionIn ds'))[σ i]? =
      ((ds.map (Registration.definitionIn ds))[i]?).map _
    rw [getElem?_map, getElem?_map, h.moved i, Option.map_map, Option.map_map]
    exact congrArg (fun f => (ds[i]?).map f) (funext h.definitionIn)

/-- **Declarations in another order are linked to the same registry, issued anew.** -/
theorem linkedScope (h : Reordered σ ds ds') :
    (linkedScope ds).Reissued (.ofRenaming σ.shift) (linkedScope ds') := by
  refine Registry.reissued_ofRenaming h.lookup? h.definitions ?_ rfl
  show (ds'.map _).length + 1 = (ds.map _).length + 1
  rw [length_map, length_map, h.length]

theorem strands (h : Reordered σ ds ds') {d : Declared} (hd : Strands ds d) :
    Strands ds' (d.rename σ.shift) := by
  obtain ⟨hlinks, n, hn⟩ := hd
  exact ⟨(h.links d).trans hlinks, h.linkedScope.strands hn⟩

theorem ends (h : Reordered σ ds ds') {d : Declared} (hd : Ends ds d) :
    Ends ds' (d.rename σ.shift) := by
  intro halias
  obtain ⟨w, hw⟩ := hd ((Ty.isAlias_rename σ.shift d.type).symm.trans halias)
  exact ⟨_, h.linkedScope.leads hw⟩

theorem sound (h : Reordered σ ds ds') {S : Set String} (hS : Sound ds S) : Sound ds' S := by
  refine ⟨fun name hname => ?_, fun d' hd' hmem => ?_, fun d' hd' hmem => ?_,
    fun d' hd' hmem t ht => ?_⟩
  · obtain ⟨d, hd, rfl⟩ := hS.declared name hname
    exact ⟨_, h.mem hd, rfl⟩
  all_goals obtain ⟨d, hd, rfl⟩ := h.exists_of_mem hd'
  · exact (h.links d).trans (hS.links d hd hmem)
  · exact h.ends (hS.ends d hd hmem)
  · rw [h.definitionIn, mentioned_rename, mem_map] at ht
    obtain ⟨u, hu, rfl⟩ := ht
    rcases hS.closed d hd hmem u hu with ⟨b, hb, rfl⟩ | ⟨d', hd', rfl, hmem'⟩
    · exact .inl ⟨b, hb, (builtins_rename σ b hb).symm⟩
    · exact .inr ⟨_, h.mem hd', rfl, hmem'⟩

/-! ### The same types are kept -/

section Kept

variable {s s' : Registration}

theorem registered (h : Reordered σ ds ds') (hs : Sweeping ds s) (hstable : Stable ds s)
    (hs' : Sweeping ds' s') (hstable' : Stable ds' s') : registered ds' s' = registered ds s := by
  have hsame : {S | Sound ds' S} = {S | Sound ds S} := Set.ext fun S => ⟨h.symm.sound, h.sound⟩
  have hgreatest := hs'.greatest h.there hstable'
  rw [hsame] at hgreatest
  exact hgreatest.unique (hs.greatest h.here hstable)

theorem failed_subset (h : Reordered σ ds ds') (hs : Sweeping ds s) (hs' : Sweeping ds' s')
    (hkept : Registration.registered ds' s' = Registration.registered ds s) :
    s.failed ⊆ s'.failed := by
  intro name hname
  obtain ⟨d, hd, rfl⟩ := hs.names name hname
  by_contra hnew
  have hthere := (hs'.mem_registered h.there (h.mem hd)).2 hnew
  rw [hkept] at hthere
  exact (hs.mem_registered h.here hd).1 hthere hname

theorem registry_lookup? (h : Reordered σ ds ds') (hs : Sweeping ds s) (hs' : Sweeping ds' s')
    (hfailed : s'.failed ⊆ s.failed) {name : String} {t : Ty}
    (ht : s.registry.lookup? name = some t) :
    s'.registry.lookup? name = some (t.rename σ.shift) := by
  rw [lookup?_kept h.there hs'.toSettling hs'.kept]
  rcases (lookup?_kept h.here hs.toSettling hs.kept).1 ht with hbuiltin | ⟨d, hd, hname, rfl, hkept⟩
  · rw [builtins_rename σ _ hbuiltin]
    exact .inl hbuiltin
  · exact .inr ⟨_, h.mem hd, hname, rfl, fun hmem => hkept (hfailed hmem)⟩

end Kept

end Reordered

/-! ### The number of errors -/

/-- As many errors have been reported as there were declarations refused, and some before that. -/
structure Tallied (before : Nat) (s : Registration) : Prop where
  count : s.found.length = before + s.failed.length
  errors : ∀ d ∈ s.found, d.isError = true

/-- What a step reports: nothing, or one declaration that it refuses. -/
inductive Reports (s s' : Registration) : Prop
  | nothing (found : s'.found = s.found) (failed : s'.failed = s.failed)
  | refusal (d : Diagnostic) (name : String) (error : d.isError = true)
      (found : s'.found = s.found ++ [d]) (failed : s'.failed = s.failed ++ [name])

theorem Tallied.step {before : Nat} {s s' : Registration} (h : Tallied before s)
    (hs : Reports s s') : Tallied before s' := by
  rcases hs with ⟨hfound, hfailed⟩ | ⟨d, name, herror, hfound, hfailed⟩
  · refine ⟨?_, ?_⟩
    · rw [hfound, hfailed, h.count]
    · rw [hfound]
      exact h.errors
  · refine ⟨?_, ?_⟩
    · rw [hfound, hfailed, length_append, length_append, h.count]
      exact Nat.add_assoc _ _ _
    · rw [hfound]
      exact forall_mem_append.2 ⟨h.errors, forall_mem_singleton.2 herror⟩

theorem Tallied.foldlM {before : Nat} {step : Registration → Declared → Except Failure Registration}
    (hstep : ∀ s d s', step s d = .ok s' → Reports s s') {ds : List Declared} {s s' : Registration}
    (h : Tallied before s) (hs : ds.foldlM step s = .ok s') : Tallied before s' :=
  foldlM_invariant (P := fun _ s => Tallied before s)
    (fun _ d _ _ _ _ h hs => h.step (hstep _ d _ hs)) h hs

theorem link_reports {s : Registration} {d : Declared} {s' : Registration} (h : s.link d = .ok s') :
    Reports s s' := by
  unfold link at h
  dsimp only at h
  split at h
  · cases h
    exact .nothing rfl rfl
  · next diagnostic herror _ =>
      cases h
      exact .refusal diagnostic d.decl.name herror rfl rfl
  · cases h

theorem follow_reports {s : Registration} {d : Declared} {s' : Registration}
    (h : s.follow d = .ok s') : Reports s s' := by
  unfold follow at h
  split at h
  · cases h
    exact .nothing rfl rfl
  · split at h
    · cases h
      exact .nothing rfl rfl
    · next diagnostic herror _ =>
        split at h
        · cases h
          exact .refusal diagnostic d.decl.name herror rfl rfl
        · cases h
    · cases h

theorem sweepOne_reports {s : Registration} {d : Declared} {s' : Registration}
    (h : s.sweepOne d = .ok s') : Reports s s' := by
  unfold sweepOne at h
  split at h
  · cases h
    exact .nothing rfl rfl
  · split at h
    · cases h
      exact .nothing rfl rfl
    · next t _ =>
        obtain ⟨registry, -, h⟩ := bind_eq_ok.1 h
        cases h
        exact .refusal ⟨.unknownType t.name, d.decl.span⟩ d.decl.name rfl rfl rfl

theorem Tallied.sweep {before : Nat} {fuel : Nat} {s s' : Registration} (h : Tallied before s)
    (hs : sweep fuel s = .ok s') : Tallied before s' := by
  induction fuel generalizing s with
  | zero =>
    cases hs
    exact h
  | succ fuel ih =>
    obtain ⟨next, hnext, hs⟩ := bind_eq_ok.1 hs
    have hpass := h.foldlM (fun _ _ _ => sweepOne_reports) hnext
    split at hs
    · cases hs
      exact hpass
    · exact ih hpass hs

theorem clash?_introduce (ds : List Declared) (entry : Entry TypeDecl) :
    (clash? ds entry).toList.length + (introduce ds entry).length = ds.length + 1 := by
  rcases introduce_cases ds entry with ⟨heq, htaken⟩ | ⟨decl, rfl, hfree, hnew, heq⟩
  · rw [heq, Nat.add_comm]
    refine congrArg (ds.length + ·) ?_
    cases entry with
    | foreign f => rfl
    | proper decl =>
      rcases hb : (scope ds).binding? decl.name with _ | previous
      · obtain ⟨hfree, hnew⟩ := (binding?_eq_none rfl).1 hb
        rcases htaken decl rfl with hbuiltin | ⟨d, hd, hname⟩
        · rw [hfree] at hbuiltin
          cases hbuiltin
        · exact absurd hname (hnew d hd)
      · rw [clash?, hb]
        rfl
  · rw [heq, clash?, (binding?_eq_none rfl).2 ⟨hfree, hnew⟩, length_append]
    exact Nat.zero_add _

theorem clash?_isError {ds : List Declared} {entry : Entry TypeDecl} :
    ∀ d ∈ clash? ds entry, d.isError = true := by
  intro d hd
  cases entry with
  | foreign f =>
    cases hd
    rfl
  | proper decl =>
    obtain ⟨previous, -, rfl⟩ := Option.map_eq_some_iff.1 hd
    rfl

theorem clashes_length (types : List (Entry TypeDecl)) :
    (clashes types).length + (introduced types).length = types.length ∧
    ∀ d ∈ clashes types, d.isError = true := by
  induction types using List.reverseRecOn with
  | nil => exact ⟨rfl, forall_mem_nil _⟩
  | append_singleton types entry ih =>
    have hentry := clash?_introduce (introduced types) entry
    have hclashes : clashes (types ++ [entry]) = clashes types ++
        (clash? (introduced types) entry).toList :=
      clashesFrom_append [] types entry
    rw [hclashes, introduced_append]
    refine ⟨?_, forall_mem_append.2 ⟨ih.2, fun d hd => clash?_isError d (Option.mem_toList.1 hd)⟩⟩
    rw [length_append, length_append, length_singleton]
    omega

/-- **One error is reported for every entry without a type, and for every type refused.** -/
theorem run_tallied {types : List (Entry TypeDecl)} {s : Registration} (h : run {} types = .ok s) :
    Tallied (types.length - (introduced types).length) s := by
  obtain ⟨s₁, hlinked, h⟩ := bind_eq_ok.1 h
  obtain ⟨s₂, hfollow, h⟩ := bind_eq_ok.1 h
  obtain ⟨s₃, hremove, hsweep⟩ := bind_eq_ok.1 h
  obtain ⟨s₀, hdeclare, hlink⟩ := bind_eq_ok.1 hlinked
  obtain ⟨s₀', hdeclare', hbound, hfound⟩ := declare_total types
  cases hdeclare.symm.trans hdeclare'
  obtain ⟨hlength, herrors⟩ := clashes_length types
  have hstart : Tallied (types.length - (introduced types).length) s₀ := by
    refine ⟨?_, ?_⟩
    · rw [hfound, hbound.failed, length_nil]
      omega
    · rw [hfound]
      exact herrors
  have h₁ := hstart.foldlM (fun _ _ _ => link_reports) hlink
  have h₂ := h₁.foldlM (fun _ _ _ => follow_reports) hfollow
  obtain ⟨registry, -, hremove⟩ := bind_eq_ok.1 hremove
  cases hremove
  have h₃ : Tallied _ { s₂ with registry } := ⟨h₂.count, h₂.errors⟩
  exact h₃.sweep hsweep

/-! ### Registration in another order -/

section Run

variable {types types' : List (Entry TypeDecl)} {σ : Renaming}

/-- Registration comes to an end exactly where no alias strands. -/
theorem run_returns_iff (hintact : ∀ d ∈ introduced types, d.decl.Intact) :
    (∃ s, run {} types = .ok s) ↔ ∀ d ∈ introduced types, ¬Strands (introduced types) d := by
  constructor
  · rintro ⟨s, hs⟩ d hd hstrands
    obtain ⟨before, d, after, hsplit, ⟨hlinks, n, hn⟩, hfirst⟩ := exists_first ⟨d, hd, hstrands⟩
    cases hs.symm.trans (run_strands hintact hsplit hfirst hlinks hn)
  · intro hfree
    obtain ⟨s, hs, -⟩ := run_total hintact hfree
    exact ⟨s, hs⟩

/-- Registration that comes to an end in one order does so in the other. -/
theorem Reordered.run_returns (h : Reordered σ (introduced types) (introduced types'))
    (hintact : ∀ d ∈ introduced types, d.decl.Intact) (hreturns : ∃ s, run {} types = .ok s) :
    ∃ s', run {} types' = .ok s' := by
  have hintact' : ∀ d ∈ introduced types', d.decl.Intact := by
    intro d' hd'
    obtain ⟨d, hd, rfl⟩ := h.exists_of_mem hd'
    exact hintact d hd
  rw [run_returns_iff hintact] at hreturns
  rw [run_returns_iff hintact']
  intro d' hd' hstrands
  exact hreturns _ (h.symm.mem hd') (h.symm.strands hstrands)

/-- **In another order the same registry is left, issued anew, and as many errors reported.** -/
theorem Reordered.run (h : Reordered σ (introduced types) (introduced types'))
    (hlength : types'.length = types.length)
    {s s' : Registration} (hs : run {} types = .ok s) (hs' : run {} types' = .ok s') :
    s.registry.Reissued (.ofRenaming σ.shift) s'.registry ∧
      (s'.found.filter Diagnostic.isError).length = (s.found.filter Diagnostic.isError).length := by
  obtain ⟨hsweeping, hstable⟩ := run_settled hs
  obtain ⟨hsweeping', hstable'⟩ := run_settled hs'
  have hkept := h.registered hsweeping hstable hsweeping' hstable'
  have hfailed := h.failed_subset hsweeping hsweeping' hkept
  have hfailed' := h.symm.failed_subset hsweeping' hsweeping hkept.symm
  refine ⟨Registry.reissued_ofRenaming ?_ ?_ ?_ ?_, ?_⟩
  · exact fun name => eq_map_of_some (fun _ => h.registry_lookup? hsweeping hsweeping' hfailed')
      fun _ => h.symm.registry_lookup? hsweeping' hsweeping hfailed
  · rw [hsweeping.definitions, hsweeping'.definitions]
    exact h.definitions
  · rw [hsweeping.definitions, hsweeping'.definitions]
    exact h.linkedScope.length
  · rw [run_methods hs, run_methods hs']
    rfl
  · have hsame : s'.failed.length = s.failed.length :=
      ((perm_ext_iff_of_nodup hsweeping'.distinct hsweeping.distinct).2 fun name =>
        ⟨fun hname => hfailed' hname, fun hname => hfailed hname⟩).length_eq
    have htallied := run_tallied hs
    have htallied' := run_tallied hs'
    rw [filter_eq_self.2 htallied'.errors, filter_eq_self.2 htallied.errors, htallied'.count,
      htallied.count, hsame, hlength, h.length]

end Run

end Registration

end TreeTyping
