/-
Registration keeps as much as it can.

A set of introduced types is sound when each of them links without error, each alias among them
leads to a type that is no alias, and each nominal type their definitions mention is built in or
among them.  What registration leaves is the largest sound set.  One direction is that what is left
is sound: aliases were followed, and the sweeps go on until nothing is mentioned that is gone.  The
other is that nothing is refused that belongs to a sound set, which holds after every step: a type
is refused for a reason that no sound set allows, and a reference into a sound set never dangles.

A sweep that changes nothing is the last one.  Every other sweep refuses one more of finitely many
types, so the sweeps come to an end.
-/
import Mathlib.Order.Bounds.Basic
import TreeTyping.Proofs.Registry.AliasWalk
import TreeTyping.Proofs.Registry.Declaring

namespace TreeTyping.Registration

open List TreeTyping.Except

variable {ds : List Declared} {s s' : Registration} {d : Declared}

/-! ### Sound sets -/

/-- The alias of an introduced type, if it is one, leads to a type that is none. -/
def Ends (ds : List Declared) (d : Declared) : Prop :=
  d.type.isAlias = true → ∃ w, (linkedScope ds).Leads d.type w

/-- A set of names of introduced types that can be kept together. -/
structure Sound (ds : List Declared) (S : Set String) : Prop where
  declared : ∀ name ∈ S, ∃ d ∈ ds, d.decl.name = name
  links : ∀ d ∈ ds, d.decl.name ∈ S → links ds d = true
  ends : ∀ d ∈ ds, d.decl.name ∈ S → Ends ds d
  closed : ∀ d ∈ ds, d.decl.name ∈ S → ∀ t ∈ mentioned (definitionIn ds d),
    (∃ b ∈ Ty.builtins, b.2 = t) ∨ ∃ d' ∈ ds, d'.type = t ∧ d'.decl.name ∈ S

/-- No sound set has the name. -/
def Lost (ds : List Declared) (name : String) : Prop := ∀ S, Sound ds S → name ∉ S

/-- What has been refused so far could not be kept, and what did not link has been refused. -/
structure Settling (ds : List Declared) (s : Registration) : Prop where
  declared : s.declared = ds
  definitions : s.registry.definitions = (linkedScope ds).definitions
  unfrozen : s.registry.frozen = false
  names : ∀ name ∈ s.failed, ∃ d ∈ ds, d.decl.name = name
  distinct : s.failed.Nodup
  lost : ∀ name ∈ s.failed, Lost ds name
  linked : ∀ d ∈ ds, d.decl.name ∉ s.failed → links ds d = true

theorem Linked.settling (hds : Introduces ds) (h : Linked ds s) : Settling ds s := by
  have hfailed {name : String} (hname : name ∈ s.failed) : ∃ d ∈ ds, links ds d = false ∧
      d.decl.name = name := by
    rw [h.failed] at hname
    obtain ⟨d, hd, rfl⟩ := mem_map.1 hname
    obtain ⟨hd, hlinks⟩ := mem_filter.1 hd
    exact ⟨d, hd, by simpa using hlinks, rfl⟩
  refine ⟨h.declared, by rw [h.registry], by rw [h.registry]; rfl, ?_, ?_, ?_, ?_⟩
  · intro name hname
    obtain ⟨d, hd, -, hd'⟩ := hfailed hname
    exact ⟨d, hd, hd'⟩
  · rw [h.failed]
    exact (filter_sublist.map _).nodup hds.names
  · intro name hname S hS hmem
    obtain ⟨d, hd, hlinks, rfl⟩ := hfailed hname
    rw [hS.links d hd hmem] at hlinks
    cases hlinks
  · intro d hd hkept
    by_contra hlinks
    refine hkept ?_
    rw [h.failed]
    exact mem_map_of_mem (mem_filter.2 ⟨hd, by simpa using hlinks⟩)

/-- One more type is refused, for a reason that no sound set allows. -/
theorem Settling.refuse (h : Settling ds s) (hd : d ∈ ds) (hnew : d.decl.name ∉ s.failed)
    (hlost : Lost ds d.decl.name) (hdeclared : s'.declared = s.declared)
    (hdefinitions : s'.registry.definitions = s.registry.definitions)
    (hfrozen : s'.registry.frozen = s.registry.frozen)
    (hfailed : s'.failed = s.failed ++ [d.decl.name]) :
    Settling ds s' := by
  refine ⟨hdeclared.trans h.declared, hdefinitions.trans h.definitions, hfrozen.trans h.unfrozen,
    ?_, ?_, ?_, ?_⟩
  · intro name hname
    rcases mem_append.1 (hfailed ▸ hname) with hname | hname
    · exact h.names name hname
    · exact ⟨d, hd, (mem_singleton.1 hname).symm⟩
  · rw [hfailed, nodup_append]
    refine ⟨h.distinct, nodup_singleton _, ?_⟩
    rintro a ha b hb rfl
    exact hnew (mem_singleton.1 hb ▸ ha)
  · intro name hname
    rcases mem_append.1 (hfailed ▸ hname) with hname | hname
    · exact h.lost name hname
    · exact mem_singleton.1 hname ▸ hlost
  · intro d' hd' hkept
    exact h.linked d' hd' fun hmem => hkept (hfailed ▸ mem_append_left _ hmem)

/-! ### Following aliases -/

/-- One type has been followed: it is refused if it leads nowhere. -/
theorem follow_settling (hd : d ∈ ds) (h : Settling ds s) (hr : s.registry = linkedScope ds)
    (hf : s.follow d = .ok s') :
    Settling ds s' ∧ s'.registry = linkedScope ds ∧ s.failed ⊆ s'.failed ∧
      (d.decl.name ∉ s'.failed → Ends ds d) := by
  unfold follow at hf
  split at hf
  · next hskip =>
      cases hf
      refine ⟨h, hr, List.Subset.refl _, fun hkept halias => ?_⟩
      simp [hkept, halias] at hskip
  · next hgo =>
      obtain ⟨hnew, halias⟩ : d.decl.name ∉ s.failed ∧ d.type.isAlias = true := by
        simpa using hgo
      rw [hr] at hf
      split at hf
      · next w hw =>
          cases hf
          exact ⟨h, hr, List.Subset.refl _, fun _ _ => ⟨w, Registry.resolveUnderlying_eq_ok.1 hw⟩⟩
      · next diagnostic hfound herror =>
          split at hf
          · cases hf
            have hlost : Lost ds d.decl.name := by
              intro S hS hmem
              obtain ⟨w, hw⟩ := hS.ends d hd hmem halias
              cases herror.symm.trans (Registry.resolveUnderlying_eq_ok.2 hw)
            refine ⟨h.refuse hd hnew hlost rfl rfl rfl rfl, hr, subset_append_left _ _,
              fun hkept => ?_⟩
            exact absurd (mem_append_right _ (mem_singleton_self _)) hkept
          · cases hf
      · cases hf

/-- **Following aliases refuses those that lead nowhere.** -/
theorem follow_all (h : Settling ds s) (hr : s.registry = linkedScope ds)
    (hf : ds.foldlM follow s = .ok s') :
    Settling ds s' ∧ s'.registry = linkedScope ds ∧ ∀ d ∈ ds, d.decl.name ∉ s'.failed →
      Ends ds d := by
  refine foldlM_invariant (P := fun done s => Settling ds s ∧ s.registry = linkedScope ds ∧
    ∀ d ∈ done, d.decl.name ∉ s.failed → Ends ds d) ?_ ⟨h, hr, forall_mem_nil _⟩ hf
  rintro done d rest s s' hsplit ⟨h, hr, hdone⟩ hf
  have hd : d ∈ ds := by simp [hsplit]
  obtain ⟨h', hr', hgrows, hends⟩ := follow_settling hd h hr hf
  refine ⟨h', hr', forall_mem_append.2 ⟨fun d' hd' hkept => ?_, ?_⟩⟩
  · exact hdone d' hd' fun hmem => hkept (hgrows hmem)
  · exact forall_mem_singleton.2 hends

/-! ### Names that are left -/

/-- The names that are bound are the ones that have not been refused. -/
def Kept (ds : List Declared) (s : Registration) : Prop :=
  s.registry.bindings = (scope ds).bindings.filter fun b => b.name ∉ s.failed

theorem remove_eq_ok {r r' : Registry} {name : String} (h : r.remove name = .ok r') :
    r'.bindings = r.bindings.filter (fun b => b.name ≠ name) ∧ r'.definitions = r.definitions ∧
      r'.frozen = r.frozen := by
  obtain ⟨_, -, h⟩ := bind_eq_ok.1 h
  cases h
  exact ⟨rfl, rfl, rfl⟩

/-- Taking back one more name. -/
theorem filter_refused (bindings : List TypeBinding) (failed : List String) (name : String) :
    (bindings.filter fun b => b.name ∉ failed).filter (fun b => b.name ≠ name) =
      bindings.filter fun b => b.name ∉ failed ++ [name] := by
  rw [filter_filter]
  refine filter_congr fun b _ => ?_
  simp [Bool.and_comm]

/-- What was refused while nothing was removed is removed. -/
theorem removeFailed_kept (h : Settling ds s) (hr : s.registry = linkedScope ds)
    (hs : s.removeFailed = .ok s') : Settling ds s' ∧ Kept ds s' ∧ s'.failed = s.failed := by
  obtain ⟨registry, hregistry, hs⟩ := bind_eq_ok.1 hs
  cases hs
  have hinvariant : registry.bindings = (scope ds).bindings.filter (fun b => b.name ∉ s.failed) ∧
      registry.definitions = s.registry.definitions ∧ registry.frozen = s.registry.frozen := by
    refine foldlM_invariant (P := fun done r =>
      r.bindings = (scope ds).bindings.filter (fun b => b.name ∉ done) ∧
      r.definitions = s.registry.definitions ∧ r.frozen = s.registry.frozen) ?_
        ⟨?_, rfl, rfl⟩ hregistry
    · rintro done name rest r r' - ⟨hbindings, hdefinitions, hfrozen⟩ hremove
      obtain ⟨hbindings', hdefinitions', hfrozen'⟩ := remove_eq_ok hremove
      refine ⟨?_, hdefinitions'.trans hdefinitions, hfrozen'.trans hfrozen⟩
      rw [hbindings', hbindings, filter_refused]
    · rw [hr]
      simp [linkedScope, scopeWith]
  obtain ⟨hbindings, hdefinitions, hfrozen⟩ := hinvariant
  refine ⟨⟨h.declared, hdefinitions.trans h.definitions, hfrozen.trans h.unfrozen, h.names,
    h.distinct, h.lost, h.linked⟩, hbindings, rfl⟩

/-! ### What is found under a name -/

theorem builtins_names : (Ty.builtins.map Prod.fst).Nodup := by decide

theorem builtins_name : ∀ b ∈ Ty.builtins, b.2.name = b.1 := by decide

theorem nominal_name (id : Nat) (decl : TypeDecl) : (nominal id decl).name = decl.name := by
  cases decl <;> rfl

theorem mem_scope {b : TypeBinding} : b ∈ (scope ds).bindings ↔
    (∃ x ∈ Ty.builtins, ⟨x.1, x.2, none⟩ = b) ∨ ∃ d ∈ ds, d.binding = b := by
  rw [scope, mem_append, mem_map, mem_map]

theorem Introduces.not_builtin (hds : Introduces ds) (hd : d ∈ ds) {b : String × Ty}
    (hb : b ∈ Ty.builtins) : b.1 ≠ d.decl.name := by
  have hfree := hds.free d hd
  rw [Ty.isBuiltinName, any_eq_false] at hfree
  exact fun hname => hfree b hb (beq_iff_eq.2 hname)

/-- No name is bound twice. -/
theorem Introduces.scope_names (hds : Introduces ds) :
    ((scope ds).bindings.map TypeBinding.name).Nodup := by
  have hintroduced : (ds.map Declared.binding).map TypeBinding.name = ds.map fun d =>
      d.decl.name := by
    rw [map_map]
    rfl
  have hbuiltin : (({} : Registry).bindings).map TypeBinding.name = Ty.builtins.map Prod.fst := by
    rw [map_map]
    rfl
  rw [scope, map_append, hintroduced, hbuiltin, nodup_append]
  refine ⟨builtins_names, hds.names, ?_⟩
  rintro _ hb _ hd rfl
  obtain ⟨d, hmem, hname⟩ := mem_map.1 hd
  obtain ⟨b, hbuiltin, rfl⟩ := mem_map.1 hb
  exact hds.not_builtin hmem hbuiltin hname.symm

theorem lookup?_eq_some {r : Registry} (hnames : (r.bindings.map TypeBinding.name).Nodup)
    {name : String}
    {t : Ty} : r.lookup? name = some t ↔ ∃ b ∈ r.bindings, b.name = name ∧ b.type = t := by
  rw [Registry.lookup?, Registry.binding?, Option.map_eq_some_iff]
  constructor
  · rintro ⟨b, hb, ht⟩
    have hname := find?_some hb
    exact ⟨b, mem_of_find?_eq_some hb, of_decide_eq_true hname, ht⟩
  · rintro ⟨b, hb, rfl, rfl⟩
    have hsome : (r.bindings.find? fun b' => b'.name = b.name).isSome = true :=
      find?_isSome.2 ⟨b, hb, decide_eq_true rfl⟩
    obtain ⟨b', hb'⟩ := Option.isSome_iff_exists.1 hsome
    have hname := find?_some hb'
    refine ⟨b', hb', ?_⟩
    rw [inj_on_of_nodup_map hnames (mem_of_find?_eq_some hb') hb (of_decide_eq_true hname)]

theorem mem_bindings_kept (hk : Kept ds s) {b : TypeBinding} :
    b ∈ s.registry.bindings ↔ b ∈ (scope ds).bindings ∧ b.name ∉ s.failed := by
  rw [hk, mem_filter, decide_eq_true_eq]

/-- **A name has its built-in type, or the type it introduces unless that was refused.** -/
theorem lookup?_kept (hds : Introduces ds) (h : Settling ds s) (hk : Kept ds s) {name : String}
    {t : Ty} : s.registry.lookup? name = some t ↔
      (name, t) ∈ Ty.builtins ∨ ∃ d ∈ ds, d.decl.name = name ∧ d.type = t ∧ name ∉ s.failed := by
  have hnames : (s.registry.bindings.map TypeBinding.name).Nodup := by
    rw [hk]
    exact (filter_sublist.map _).nodup hds.scope_names
  simp only [lookup?_eq_some hnames, mem_bindings_kept hk, mem_scope]
  constructor
  · rintro ⟨b, ⟨⟨x, hx, rfl⟩ | ⟨d, hd, rfl⟩, hkept⟩, rfl, rfl⟩
    · exact .inl hx
    · exact .inr ⟨d, hd, rfl, rfl, hkept⟩
  · rintro (hx | ⟨d, hd, rfl, rfl, hkept⟩)
    · refine ⟨_, ⟨.inl ⟨_, hx, rfl⟩, fun hfailed => ?_⟩, rfl, rfl⟩
      -- nothing that is refused has the name of a built-in type
      obtain ⟨d, hd, hname⟩ := h.names _ hfailed
      exact hds.not_builtin hd hx hname.symm
    · exact ⟨d.binding, ⟨.inr ⟨d, hd, rfl⟩, hkept⟩, rfl, rfl⟩

theorem Introduces.type_name (hds : Introduces ds) (hd : d ∈ ds) : d.type.name = d.decl.name := by
  obtain ⟨i, hi⟩ := mem_iff_getElem?.1 hd
  rw [hds.types i d hi, nominal_name]

/-- A type is registered under its name when it is built in or introduced and not refused. -/
theorem containsType_kept (hds : Introduces ds) (h : Settling ds s) (hk : Kept ds s) {t : Ty} :
    s.registry.containsType t = true ↔
      (∃ b ∈ Ty.builtins, b.2 = t) ∨ ∃ d ∈ ds, d.type = t ∧ d.decl.name ∉ s.failed := by
  rw [Registry.containsType, decide_eq_true_eq, lookup?_kept hds h hk]
  constructor
  · rintro (hb | ⟨d, hd, hname, rfl, hkept⟩)
    · exact .inl ⟨_, hb, rfl⟩
    · exact .inr ⟨d, hd, rfl, hname ▸ hkept⟩
  · rintro (⟨b, hb, rfl⟩ | ⟨d, hd, rfl, hkept⟩)
    · exact .inl (by rwa [builtins_name b hb])
    · rw [hds.type_name hd]
      exact .inr ⟨d, hd, rfl, rfl, hkept⟩

theorem referenced_settling (hds : Introduces ds) (h : Settling ds s) (hd : d ∈ ds) :
    referenced s.registry d.type = mentioned (definitionIn ds d) := by
  obtain ⟨i, hi⟩ := mem_iff_getElem?.1 hd
  have hdefinition : s.registry.definitions[i + 1]? = some (definitionIn ds d) := by
    rw [h.definitions]
    show (ds.map (definitionIn ds))[i]? = _
    rw [getElem?_map, hi]
    rfl
  rw [hds.types i d hi]
  cases d.decl <;> simp only [nominal, referenced, hdefinition]

/-! ### Sweeping -/

/-- The state between sweeps: what is not refused is bound, and its aliases lead somewhere. -/
structure Sweeping (ds : List Declared) (s : Registration) : Prop extends Settling ds s where
  kept : Kept ds s
  ends : ∀ d ∈ ds, d.decl.name ∉ s.failed → Ends ds d

/-- Nothing that is left mentions a type that is gone. -/
def Stable (ds : List Declared) (s : Registration) : Prop :=
  ∀ d ∈ ds, d.decl.name ∉ s.failed → dangling? s.registry d = none

/-- A type that mentions one that is gone belongs to no sound set. -/
theorem Sweeping.lost_of_dangling (hds : Introduces ds) (h : Sweeping ds s) (hd : d ∈ ds) {t : Ty}
    (ht : dangling? s.registry d = some t) : Lost ds d.decl.name := by
  intro S hS hmem
  have hgone := find?_some ht
  have hmentioned : t ∈ mentioned (definitionIn ds d) := by
    rw [← referenced_settling hds h.toSettling hd]
    exact mem_of_find?_eq_some ht
  have hthere : s.registry.containsType t = true := by
    rw [containsType_kept hds h.toSettling h.kept]
    rcases hS.closed d hd hmem t hmentioned with hb | ⟨d', hd', htype, hmem'⟩
    · exact .inl hb
    · exact .inr ⟨d', hd', htype, fun hfailed => h.lost _ hfailed S hS hmem'⟩
  simp [hthere] at hgone

/-- One type is swept: nothing changes, or it mentioned a type that is gone and is refused. -/
theorem Sweeping.sweepOne (hds : Introduces ds) (h : Sweeping ds s) (hd : d ∈ ds)
    (hs : s.sweepOne d = .ok s') :
    Sweeping ds s' ∧ (s' = s ∧ (d.decl.name ∉ s.failed → dangling? s.registry d = none) ∨
      s'.failed = s.failed ++ [d.decl.name]) := by
  unfold Registration.sweepOne at hs
  split at hs
  · next hfailed =>
      cases hs
      refine ⟨h, .inl ⟨rfl, fun hkept => absurd (contains_iff_mem.1 hfailed) hkept⟩⟩
  · next hkept =>
      split at hs
      · next hnone =>
          cases hs
          exact ⟨h, .inl ⟨rfl, fun _ => hnone⟩⟩
      · next t hdangling =>
          obtain ⟨registry, hremove, hs⟩ := bind_eq_ok.1 hs
          cases hs
          obtain ⟨hbindings, hdefinitions, hfrozen⟩ := remove_eq_ok hremove
          have hnew : d.decl.name ∉ s.failed := fun hmem => hkept (contains_iff_mem.2 hmem)
          refine ⟨⟨h.toSettling.refuse hd hnew (h.lost_of_dangling hds hd hdangling) rfl
            hdefinitions hfrozen rfl, ?_, ?_⟩, .inr rfl⟩
          · rw [Kept, hbindings, h.kept, filter_refused]
          · intro d' hd' hkept'
            exact h.ends d' hd' fun hmem => hkept' (mem_append_left _ hmem)

/-- A sweep changes nothing, or refuses something. -/
theorem Sweeping.pass (hds : Introduces ds) (h : Sweeping ds s)
    (hs : ds.foldlM Registration.sweepOne s = .ok s') :
    Sweeping ds s' ∧ (s' = s ∧ Stable ds s ∨ s.failed.length < s'.failed.length) := by
  refine foldlM_invariant (P := fun done next => Sweeping ds next ∧
    (next = s ∧ (∀ d ∈ done, d.decl.name ∉ s.failed → dangling? s.registry d = none) ∨
      s.failed.length < next.failed.length)) ?_ ⟨h, .inl ⟨rfl, forall_mem_nil _⟩⟩ hs
  rintro done d rest next next' hsplit ⟨hnext, hdone⟩ hstep
  obtain ⟨hnext', hd⟩ := hnext.sweepOne hds (by simp [hsplit]) hstep
  refine ⟨hnext', ?_⟩
  rcases hdone, hd with ⟨⟨rfl, hdone⟩ | hmore, ⟨rfl, hd⟩ | hfailed⟩
  · exact .inl ⟨rfl, forall_mem_append.2 ⟨hdone, forall_mem_singleton.2 hd⟩⟩
  · rw [hfailed, length_append]
    exact .inr (Nat.lt_succ_self _)
  · exact .inr hmore
  · rw [hfailed, length_append]
    exact .inr (Nat.lt_succ_of_lt hmore)

theorem Settling.failed_length_le (h : Settling ds s) : s.failed.length ≤ ds.length := by
  have hsubset : s.failed ⊆ ds.map fun d => d.decl.name := by
    intro name hname
    obtain ⟨d, hd, rfl⟩ := h.names name hname
    exact mem_map_of_mem hd
  have hlength := (h.distinct.subperm hsubset).length_le
  rwa [length_map] at hlength

/-- **The sweeps come to an end**, and nothing that is left then mentions a type that is gone. -/
theorem Sweeping.sweep (hds : Introduces ds) {fuel : Nat} (h : Sweeping ds s)
    (hfuel : ds.length < s.failed.length + fuel) (hs : sweep fuel s = .ok s') :
    Sweeping ds s' ∧ Stable ds s' := by
  induction fuel generalizing s with
  | zero =>
    have hle := h.failed_length_le
    omega
  | succ fuel ih =>
    rw [Registration.sweep, h.declared] at hs
    obtain ⟨next, hpass, hs⟩ := bind_eq_ok.1 hs
    obtain ⟨hnext, hchange⟩ := h.pass hds hpass
    split at hs
    · next hsame =>
        cases hs
        rcases hchange with ⟨rfl, hstable⟩ | hmore
        · exact ⟨hnext, hstable⟩
        · omega
    · next hdiffers =>
        refine ih hnext ?_ hs
        rcases hchange with ⟨rfl, -⟩ | hmore
        · exact absurd rfl hdiffers
        · omega

/-- A further sweep changes nothing. -/
theorem Stable.sweep_again (h : Stable ds s) : ds.foldlM Registration.sweepOne s = .ok s := by
  induction ds with
  | nil => rfl
  | cons d rest ih =>
    obtain ⟨hd, hrest⟩ := forall_mem_cons.1 h
    have hone : s.sweepOne d = .ok s := by
      rw [Registration.sweepOne]
      split
      · rfl
      · next hkept => rw [hd fun hmem => hkept (contains_iff_mem.2 hmem)]
    rw [foldlM_cons, hone]
    exact ih hrest

/-! ### What registration leaves -/

/-- **Registration settles the introduced types.** -/
theorem run_settled {types : List (Entry TypeDecl)} (h : run {} types = .ok s) :
    Sweeping (introduced types) s ∧ Stable (introduced types) s := by
  have hds := introduces_introduced types
  obtain ⟨s₁, hlinked, h⟩ := bind_eq_ok.1 h
  obtain ⟨s₂, hfollow, h⟩ := bind_eq_ok.1 h
  obtain ⟨s₃, hremove, hsweep⟩ := bind_eq_ok.1 h
  have h₁ := linked_eq_ok hlinked
  rw [h₁.declared] at hfollow
  obtain ⟨h₂, hr₂, hends⟩ := follow_all (h₁.settling hds) h₁.registry hfollow
  obtain ⟨h₃, hkept, hfailed⟩ := removeFailed_kept h₂ hr₂ hremove
  have hstart : Sweeping (introduced types) s₃ :=
    ⟨h₃, hkept, fun d hd hnew => hends d hd (hfailed ▸ hnew)⟩
  refine hstart.sweep hds ?_ hsweep
  rw [h₃.declared]
  omega

/-- The names of the introduced types that are registered. -/
def registered (ds : List Declared) (s : Registration) : Set String :=
  {name | ∃ d ∈ ds, d.decl.name = name ∧ s.registry.lookup? name = some d.type}

/-- An introduced type is registered unless it was refused. -/
theorem Sweeping.mem_registered (hds : Introduces ds) (h : Sweeping ds s) (hd : d ∈ ds) :
    d.decl.name ∈ registered ds s ↔ d.decl.name ∉ s.failed := by
  constructor
  · rintro ⟨d', hd', hname, hlookup⟩
    rcases (lookup?_kept hds h.toSettling h.kept).1 hlookup with hbuiltin | ⟨_, _, _, _, hkept⟩
    · exact absurd rfl (hds.not_builtin hd hbuiltin)
    · exact hkept
  · exact fun hkept => ⟨d, hd, rfl, (lookup?_kept hds h.toSettling h.kept).2
      (.inr ⟨d, hd, rfl, rfl, hkept⟩)⟩

theorem Sweeping.sound (hds : Introduces ds) (h : Sweeping ds s) (hstable : Stable ds s) :
    Sound ds (registered ds s) := by
  have hkept {d : Declared} (hd : d ∈ ds) (hmem : d.decl.name ∈ registered ds s) :
      d.decl.name ∉ s.failed :=
    (h.mem_registered hds hd).1 hmem
  refine ⟨?_, ?_, ?_, ?_⟩
  · rintro name ⟨d, hd, hname, -⟩
    exact ⟨d, hd, hname⟩
  · exact fun d hd hmem => h.linked d hd (hkept hd hmem)
  · exact fun d hd hmem => h.ends d hd (hkept hd hmem)
  · intro d hd hmem t ht
    have hnone := hstable d hd (hkept hd hmem)
    rw [dangling?, referenced_settling hds h.toSettling hd, find?_eq_none] at hnone
    have hthere : s.registry.containsType t = true := by
      simpa using hnone t ht
    rcases (containsType_kept hds h.toSettling h.kept).1 hthere with hb | ⟨d', hd', htype, hkept'⟩
    · exact .inl hb
    · exact .inr ⟨d', hd', htype, (h.mem_registered hds hd').2 hkept'⟩

/-- **What is left is the largest sound set.** -/
theorem Sweeping.greatest (hds : Introduces ds) (h : Sweeping ds s) (hstable : Stable ds s) :
    IsGreatest {S | Sound ds S} (registered ds s) := by
  refine ⟨h.sound hds hstable, fun S hS name hname => ?_⟩
  obtain ⟨d, hd, rfl⟩ := hS.declared name hname
  rw [h.mem_registered hds hd]
  exact fun hfailed => h.lost _ hfailed S hS hname

/-- What a built-in type refers to is nothing. -/
theorem referenced_builtin (h : Settling ds s) {b : String × Ty} (hb : b ∈ Ty.builtins) :
    referenced s.registry b.2 = [] := by
  have hany : s.registry.definitions[0]? = some (.interface []) := by
    rw [h.definitions]
    rfl
  rw [Ty.builtins, mem_append, mem_map, mem_singleton] at hb
  rcases hb with ⟨p, -, rfl⟩ | rfl
  · rfl
  · simp only [Ty.any, referenced, hany, mentioned, flatMap_nil]

theorem Sweeping.bound (h : Sweeping ds s) {b : TypeBinding} (hb : b ∈ s.registry.bindings) :
    (∃ x ∈ Ty.builtins, x.2 = b.type) ∨ ∃ d ∈ ds, d.type = b.type ∧ d.decl.name ∉ s.failed := by
  obtain ⟨hscope, hkept⟩ := (mem_bindings_kept h.kept).1 hb
  rcases mem_scope.1 hscope with ⟨x, hx, rfl⟩ | ⟨d, hd, rfl⟩
  · exact .inl ⟨x, hx, rfl⟩
  · exact .inr ⟨d, hd, rfl, hkept⟩

theorem Sweeping.closed (h : Sweeping ds s) (hstable : Stable ds s) {b : TypeBinding}
    (hb : b ∈ s.registry.bindings) :
    ∀ t ∈ referenced s.registry b.type, s.registry.containsType t = true := by
  intro t ht
  rcases h.bound hb with ⟨x, hx, htype⟩ | ⟨d, hd, htype, hkept⟩
  · rw [← htype, referenced_builtin h.toSettling hx] at ht
    cases ht
  · have hnone := hstable d hd hkept
    rw [dangling?, htype, find?_eq_none] at hnone
    simpa using hnone t ht

theorem builtins_not_alias : ∀ b ∈ Ty.builtins, b.2.isAlias = false := by decide

theorem Sweeping.alias_ends (h : Sweeping ds s) {b : TypeBinding} (hb : b ∈ s.registry.bindings)
    (halias : b.type.isAlias = true) :
    ∃ w, w.isAlias = false ∧ ∀ span, s.registry.resolveUnderlying b.type span = .ok w := by
  rcases h.bound hb with ⟨x, hx, htype⟩ | ⟨d, hd, htype, hkept⟩
  · rw [← htype, builtins_not_alias x hx] at halias
    cases halias
  · obtain ⟨w, hw⟩ := h.ends d hd hkept (htype ▸ halias)
    refine ⟨w, hw.not_alias, fun span => ?_⟩
    rw [Registry.resolveUnderlying_eq_ok, ← htype]
    exact hw.congr h.definitions

/--
**Registration keeps exactly the sound definitions.**  The introduced types that are registered in
the end are the largest sound set, so the first declaration of a name is registered, with its type,
exactly when some sound set has the name.  The registry is closed under references, every alias in
it leads to a type that is none, and a further sweep would change nothing.
-/
theorem registered_iff_sound {types : List (Entry TypeDecl)} {s : Registration}
    (h : run {} types = .ok s) :
    IsGreatest {S | Sound (introduced types) S} (registered (introduced types) s) ∧
    (∀ decl, firstOf? decl.name types = some decl → Ty.isBuiltinName decl.name = false →
      ∃ t, ⟨decl, t⟩ ∈ introduced types ∧ (s.registry.lookup? decl.name = some t ↔
        ∃ S, Sound (introduced types) S ∧ decl.name ∈ S)) ∧
    (∀ b ∈ s.registry.bindings, ∀ t ∈ referenced s.registry b.type, s.registry.containsType
      t = true) ∧
    (∀ b ∈ s.registry.bindings, b.type.isAlias = true →
      ∃ w, w.isAlias = false ∧ ∀ span, s.registry.resolveUnderlying b.type span = .ok w) ∧
    s.declared.foldlM sweepOne s = .ok s := by
  have hds := introduces_introduced types
  obtain ⟨hsweeping, hstable⟩ := run_settled h
  have hgreatest := hsweeping.greatest hds hstable
  refine ⟨hgreatest, fun decl hfirst hfree => ?_, fun b => hsweeping.closed hstable,
    fun b => hsweeping.alias_ends, hsweeping.declared ▸ hstable.sweep_again⟩
  obtain ⟨t, ht⟩ := mem_introduced.2 ⟨hfirst, hfree⟩
  refine ⟨t, ht, fun hlookup => ⟨_, hgreatest.1, _, ht, rfl, hlookup⟩, ?_⟩
  rintro ⟨S, hS, hmem⟩
  obtain ⟨d, hd, hname, hlookup⟩ := hgreatest.2 hS hmem
  obtain rfl := hds.unique hd ht hname
  exact hlookup

/--
Declarations that refer to each other: `Loop` stands for itself, `Held` has a field of it, and
`Handle` stands for `Held`.  `Tree` has children of its own type and a `Label`, which stands for
`string`; it is declared twice.
-/
def forest : List (Entry TypeDecl) :=
  let type (name : String) : TypeExpr := .simple .nowhere name
  let field (name : String) (t : TypeExpr) : Param := ⟨⟨.root 0, .nowhere⟩, name, t⟩
  [.proper (.alias .nowhere "Loop" (type "Loop")),
   .proper (.struct .nowhere "Tree"
     [field "label" (type "Label"),
       field "children" (.generic .nowhere "list" [type "Tree"] none)]),
   .proper (.struct .nowhere "Held" [field "loop" (type "Loop")]),
   .proper (.alias .nowhere "Handle" (type "Held")),
   .proper (.alias .nowhere "Label" (type "string")),
   .proper (.struct .nowhere "Tree" [])]

/-- `Loop` is refused, with `Held` and `Handle`; `Tree` and `Label` are the largest sound set. -/
theorem registered_forest : ∃ s, run {} forest = .ok s ∧ s.failed = ["Loop", "Held", "Handle"] ∧
    IsGreatest {S | Sound (introduced forest) S} (registered (introduced forest) s) ∧
    s.registry.lookup? "Tree" = some (.struct ⟨2, "Tree"⟩) ∧
    (∃ S, Sound (introduced forest) S ∧ "Tree" ∈ S) ∧ s.declared.foldlM sweepOne s = .ok s := by
  have hrun : (run {} forest).toOption.map (fun s => (s.failed, s.registry.lookup? "Tree")) =
      some (["Loop", "Held", "Handle"], some (.struct ⟨2, "Tree"⟩)) := by decide +kernel
  rcases hs : run {} forest with f | s
  · rw [hs] at hrun
    cases hrun
  · rw [hs] at hrun
    obtain ⟨hfailed, hlookup⟩ := Prod.mk.inj (Option.some.inj hrun)
    obtain ⟨hgreatest, -, -, -, hsweep⟩ := registered_iff_sound hs
    have htree : "Tree" ∈ registered (introduced forest) s :=
      ⟨_, mem_of_getElem? (i := 1) rfl, rfl, hlookup⟩
    exact ⟨s, rfl, hfailed, hgreatest, hlookup, ⟨_, hgreatest.1, htree⟩, hsweep⟩

end TreeTyping.Registration
