/-
Every type declaration is accounted for.

Registration reports an entry when its name cannot be bound, when it does not link, when it is an
alias that stands for itself, or when it mentions a type that is gone.  No entry is reported for two
of these reasons.  An entry whose name cannot be bound introduces no type, so the later passes never
come to it, and a type that is refused in one of them is passed over from then on.  Since what is
refused is also what is not registered, an entry is charged with one error or its type is
registered, and never both.
-/
import TreeTyping.Proofs.Ledger
import TreeTyping.Proofs.Registry.Refusal

namespace TreeTyping.Registration

open List TreeTyping.Except

variable {types : List (Entry TypeDecl)} {kept : List Nat} {l l' : Ledger} {i j : Nat}
  {d : Declared} {s s' s'' : Registration}

/-! ### Entries that introduce a type -/

/-- The entry at a position introduces a type: its name is neither built in nor taken before. -/
structure IntroducedAt (types : List (Entry TypeDecl)) (i : Nat) (d : Declared) : Prop where
  entry : types[i]? = some (.proper d.decl)
  free : Ty.isBuiltinName d.decl.name = false
  fresh : ∀ d' ∈ introduced (types.take i), d'.decl.name ≠ d.decl.name
  type : d.type = nominal ((introduced (types.take i)).length + 1) d.decl

theorem IntroducedAt.lt_length (h : IntroducedAt types i d) : i < types.length :=
  (List.getElem?_eq_some_iff.1 h.entry).1

theorem IntroducedAt.append (h : IntroducedAt types i d) (more : List (Entry TypeDecl)) :
    IntroducedAt (types ++ more) i d := by
  have htake : (types ++ more).take i = types.take i :=
    take_append_of_le_length (Nat.le_of_lt h.lt_length)
  refine ⟨?_, h.free, ?_, ?_⟩
  · rw [getElem?_append_left h.lt_length, h.entry]
  · rw [htake]
    exact h.fresh
  · rw [htake]
    exact h.type

theorem exists_introduced {decl : TypeDecl} (hmem : .proper decl ∈ types)
    (hfree : Ty.isBuiltinName decl.name = false) :
    ∃ d ∈ introduced types, d.decl.name = decl.name := by
  induction types using List.reverseRecOn with
  | nil => cases hmem
  | append_singleton types entry ih =>
    rw [introduced_append]
    rcases introduce_cases (introduced types) entry with ⟨heq, htaken⟩ | ⟨first, rfl, -, -, heq⟩
    · rw [heq]
      rcases mem_append.1 hmem with hmem | hmem
      · exact ih hmem
      · have hbuiltin := htaken decl (mem_singleton.1 hmem).symm
        exact hbuiltin.resolve_left (by simp [hfree])
    · rw [heq]
      rcases mem_append.1 hmem with hmem | hmem
      · obtain ⟨d, hd, hname⟩ := ih hmem
        exact ⟨d, mem_append_left _ hd, hname⟩
      · cases mem_singleton.1 hmem
        exact ⟨_, mem_append_right _ (mem_singleton_self _), rfl⟩

/-- The position of the first entry that declares the name. -/
def entryOf (types : List (Entry TypeDecl)) (name : String) :
    Nat := positionOf (fun decl => decl.name == name) types

theorem IntroducedAt.entryOf_eq (h : IntroducedAt types i d) : entryOf types d.decl.name = i := by
  refine positionOf_eq h.entry (beq_self_eq_true _) fun j decl hj hdecl => ?_
  rw [beq_eq_false_iff_ne]
  intro hname
  have hmem : .proper decl ∈ types.take i :=
    mem_of_getElem? (i := j) (by rwa [getElem?_take_of_lt hj])
  obtain ⟨d', hd', hname'⟩ := exists_introduced hmem (by rw [hname]; exact h.free)
  exact h.fresh d' hd' (hname'.trans hname)

theorem introduced_grows (types more : List (Entry TypeDecl)) :
    introduced types <+: introduced (types ++ more) := by
  induction more using List.reverseRecOn with
  | nil => rw [append_nil]
  | append_singleton more entry ih =>
    rw [← append_assoc, introduced_append]
    rcases introduce_cases (introduced (types ++ more)) entry with ⟨heq, -⟩ | ⟨decl, -, -, -, heq⟩
    · rwa [heq]
    · rw [heq]
      exact ih.trans (prefix_append _ _)

/-- Fewer types are introduced before an entry that introduces one than before a later entry. -/
theorem IntroducedAt.length_lt (h : IntroducedAt types i d) (hj : i < j) :
    (introduced (types.take i)).length < (introduced (types.take j)).length := by
  have hentry : types.take (i + 1) = types.take i ++ [.proper d.decl] := by
    rw [take_add_one, h.entry]
    rfl
  have hone : introduced (types.take (i + 1)) = introduced (types.take i) ++ [d] := by
    rw [hentry, introduced_append, introduce, if_neg]
    · rw [← h.type]
    · simpa [h.free] using h.fresh
  obtain ⟨more, hmore⟩ : types.take (i + 1) <+: types.take j := take_prefix_take_left (by omega)
  have hle := (introduced_grows (types.take (i + 1)) more).length_le
  rw [hmore, hone, length_append] at hle
  exact hle

/--
The type of an entry is the one that is registered under its name.  It is told from the types of
other entries by its number, which is the next one behind those of the types introduced before.
-/
def RegisteredAt (types : List (Entry TypeDecl)) (r : Registry) (i : Nat) : Prop :=
  ∃ decl, types[i]? = some (.proper decl) ∧
    r.lookup? decl.name = some (nominal ((introduced (types.take i)).length + 1) decl)

/-! ### Passes with their ledgers -/

/-- A pass over introduced types; what a step reports is charged to the entry of the type. -/
def ChargedPass (types : List (Entry TypeDecl))
    (step : Registration → Declared → Except Failure Registration)
    (s s' : Registration) (l : Ledger) : Prop :=
  Charged Registration.found (fun _ d => entryOf types d.decl.name) step s s.declared s' l

/-- Sweep after sweep. -/
inductive Swept (types : List (Entry TypeDecl)) : Registration → Registration → Ledger → Prop
  | refl (s : Registration) : Swept types s s []
  | sweep {s s' s'' : Registration} {l l' : Ledger} (h : ChargedPass types sweepOne s s' l)
      (hrest : Swept types s' s'' l') : Swept types s s'' (l ++ l')

/-- Registration, pass by pass, and what its steps report, charged to the entries they are about. -/
inductive Accounted (types : List (Entry TypeDecl)) : Registration → Ledger → Prop
  | mk {s₁ s₂ s₃ s₄ s : Registration} {l₁ l₂ l₃ l₄ : Ledger}
      (hdeclare : Charged Registration.found ownPosition declare { registry := {} } types s₁ l₁)
      (hlink : ChargedPass types link s₁ s₂ l₂)
      (hfollow : ChargedPass types follow s₂ s₃ l₃)
      (hremove : s₃.removeFailed = .ok s₄)
      (hsweep : Swept types s₄ s l₄) : Accounted types s (l₁ ++ (l₂ ++ (l₃ ++ l₄)))

/-! ### Binding names -/

/-- An entry introduces a type by a good name, or it introduces none and is reported. -/
theorem clash?_cases (ds : List Declared) (entry : Entry TypeDecl) :
    (introduce ds entry = ds ∧ ∃ d, d.isError = true ∧ clash? ds entry = some d) ∨
    ∃ decl, entry = .proper decl ∧ Ty.isBuiltinName decl.name = false ∧
      (∀ d ∈ ds, d.decl.name ≠ decl.name) ∧
      introduce ds entry = ds ++ [⟨decl, nominal (ds.length + 1) decl⟩] ∧
        clash? ds entry = none := by
  rcases introduce_cases ds entry with ⟨heq, htaken⟩ | ⟨decl, rfl, hfree, hnew, heq⟩
  · refine .inl ⟨heq, ?_⟩
    cases entry with
    | foreign f => exact ⟨_, rfl, rfl⟩
    | proper decl =>
      rcases hb : (scope ds).binding? decl.name with _ | previous
      · obtain ⟨hfree, hnew⟩ := (binding?_eq_none rfl).1 hb
        rcases htaken decl rfl with hbuiltin | ⟨d, hd, hname⟩
        · cases hfree.symm.trans hbuiltin
        · exact absurd hname (hnew d hd)
      · exact ⟨_, rfl, by rw [clash?, hb]; rfl⟩
  · have hb : (scope ds).binding? decl.name = none := (binding?_eq_none rfl).2 ⟨hfree, hnew⟩
    exact .inr ⟨decl, rfl, hfree, hnew, heq, by rw [clash?, hb]; rfl⟩

/-- Every entry has introduced a type or is charged with an error. -/
structure Opened (types : List (Entry TypeDecl)) (kept : List Nat) (l : Ledger) : Prop where
  keeps : List.Forall₂ (IntroducedAt types) kept (introduced types)
  divided : Divided kept l types.length
  errors : ∀ e ∈ l, e.2.isError = true

theorem Opened.introduce (h : Opened types kept l) {decl : TypeDecl}
    (hfree : Ty.isBuiltinName decl.name = false)
    (hnew : ∀ d ∈ introduced types, d.decl.name ≠ decl.name)
    (heq : introduced (types ++ [.proper decl]) =
      introduced types ++ [⟨decl, nominal ((introduced types).length + 1) decl⟩]) :
    Opened (types ++ [.proper decl]) (kept ++ [types.length]) l := by
  refine ⟨?_, ?_, h.errors⟩
  · rw [heq]
    refine rel_append (h.keeps.imp fun i d hd => hd.append _) (.cons ⟨?_, hfree, ?_, ?_⟩ .nil)
    · exact getElem?_concat_length
    · rw [take_left]
      exact hnew
    · rw [take_left]
  · rw [length_append]
    exact h.divided.keep

theorem Opened.report (h : Opened types kept l) {entry : Entry TypeDecl}
    (heq : introduced (types ++ [entry]) = introduced types) {e : Diagnostic}
    (he : e.isError = true) :
    Opened (types ++ [entry]) kept (l ++ Ledger.charge types.length [e]) := by
  refine ⟨?_, ?_, forall_mem_append.2 ⟨h.errors, forall_mem_singleton.2 he⟩⟩
  · rw [heq]
    exact h.keeps.imp fun i d hd => hd.append _
  · rw [length_append]
    exact h.divided.charge e

/-- **The first pass charges the entries that introduce no type**, each with one error. -/
theorem declare_opened (h : types.foldlM declare { registry := {} } = .ok s) :
    ∃ l, Charged Registration.found ownPosition declare { registry := {} } types s l ∧
      Bound (introduced types) s ∧ ∃ kept, Opened types kept l := by
  refine charged_of_foldlM (P := fun done s l => Bound (introduced done) s ∧
    ∃ kept, Opened done kept l) ?_ ⟨⟨rfl, rfl, rfl⟩, [], .nil, .nil, forall_mem_nil _⟩ h
  rintro done entry rest s s' l - ⟨hs, kept, hopened⟩ hstep
  obtain ⟨_, hstep', hfound⟩ := hs.declare_total entry
  cases hstep.symm.trans hstep'
  have hbound : Bound (introduced (done ++ [entry])) s' := by
    rw [introduced_append]
    exact hs.declare hstep
  refine ⟨_, hfound, hbound, ?_⟩
  rcases clash?_cases (introduced done) entry with ⟨heq, d, hd, hclash⟩ |
    ⟨decl, rfl, hfree, hnew, heq, hclash⟩
  · rw [hclash]
    exact ⟨kept, hopened.report ((introduced_append done entry).trans heq) hd⟩
  · rw [hclash]
    refine ⟨kept ++ [done.length], ?_⟩
    show Opened _ _ (l ++ [])
    rw [append_nil]
    exact hopened.introduce hfree hnew ((introduced_append done _).trans heq)

/-! ### Refusing types -/

/-- A step leaves what is reported and refused, or it reports one error and refuses the type. -/
def Turns (s : Registration) (d : Declared) (s' : Registration) : Prop :=
  s'.declared = s.declared ∧
    (s'.found = s.found ∧ s'.failed = s.failed ∨
      ∃ e, e.isError = true ∧ s'.found = s.found ++ [e] ∧ s'.failed = s.failed ++ [d.decl.name])

theorem link_turns (h : s.link d = .ok s') : Turns s d s' := by
  unfold link at h
  dsimp only at h
  split at h
  · cases h
    exact ⟨rfl, .inl ⟨rfl, rfl⟩⟩
  · next e he _ =>
      cases h
      exact ⟨rfl, .inr ⟨e, he, rfl, rfl⟩⟩
  · cases h

theorem follow_turns (h : s.follow d = .ok s') : Turns s d s' := by
  unfold follow at h
  split at h
  · cases h
    exact ⟨rfl, .inl ⟨rfl, rfl⟩⟩
  · split at h
    · cases h
      exact ⟨rfl, .inl ⟨rfl, rfl⟩⟩
    · next e he _ =>
        split at h
        · cases h
          exact ⟨rfl, .inr ⟨e, he, rfl, rfl⟩⟩
        · cases h
    · cases h

theorem sweepOne_turns (h : s.sweepOne d = .ok s') : Turns s d s' := by
  unfold sweepOne at h
  split at h
  · cases h
    exact ⟨rfl, .inl ⟨rfl, rfl⟩⟩
  · split at h
    · cases h
      exact ⟨rfl, .inl ⟨rfl, rfl⟩⟩
    · obtain ⟨r, -, h⟩ := bind_eq_ok.1 h
      cases h
      exact ⟨rfl, .inr ⟨_, rfl, rfl, rfl⟩⟩

/-- What has been refused in between is what is charged, each type with one error. -/
structure Refused (types : List (Entry TypeDecl)) (s s' : Registration) (l : Ledger) : Prop where
  declared : s'.declared = s.declared
  found : s'.found = s.found ++ l.diagnostics
  failed : ∃ names, s'.failed = s.failed ++ names ∧ l.positions = names.map (entryOf types)
  errors : ∀ e ∈ l, e.2.isError = true

theorem Refused.nothing (hdeclared : s'.declared = s.declared) (hfound : s'.found = s.found)
    (hfailed : s'.failed = s.failed) : Refused types s s' [] :=
  ⟨hdeclared, hfound.trans (append_nil _).symm, ⟨[], hfailed.trans (append_nil _).symm, rfl⟩,
    forall_mem_nil _⟩

theorem Refused.trans (h : Refused types s s' l) (h' : Refused types s' s'' l') :
    Refused types s s'' (l ++ l') := by
  obtain ⟨names, hfailed, hpositions⟩ := h.failed
  obtain ⟨names', hfailed', hpositions'⟩ := h'.failed
  refine ⟨h'.declared.trans h.declared, ?_, ⟨names ++ names', ?_, ?_⟩,
    forall_mem_append.2 ⟨h.errors, h'.errors⟩⟩
  · rw [h'.found, h.found, Ledger.diagnostics_append, append_assoc]
  · rw [hfailed', hfailed, append_assoc]
  · rw [Ledger.positions_append, hpositions, hpositions', map_append]

theorem Turns.refused (h : Turns s d s') (types : List (Entry TypeDecl)) :
    ∃ new, Refused types s s' (Ledger.charge (entryOf types d.decl.name) new) := by
  obtain ⟨hdeclared, ⟨hfound, hfailed⟩ | ⟨e, he, hfound, hfailed⟩⟩ := h
  · exact ⟨[], .nothing hdeclared hfound hfailed⟩
  · exact ⟨[e], hdeclared, hfound, ⟨[d.decl.name], hfailed, rfl⟩, forall_mem_singleton.2 he⟩

theorem chargedPass (types : List (Entry TypeDecl))
    {step : Registration → Declared → Except Failure Registration}
    (hturns : ∀ s d s', step s d = .ok s' → Turns s d s')
    (h : s.declared.foldlM step s = .ok s') : ∃ l, ChargedPass types step s s' l ∧
      Refused types s s' l := by
  refine charged_of_foldlM (P := fun _ s' l => Refused types s s' l) ?_ (.nothing rfl rfl rfl) h
  intro done d rest next next' l _ hrefused hstep
  obtain ⟨new, hmore⟩ := (hturns next d next' hstep).refused types
  have hnew := hmore.found
  rw [Ledger.diagnostics_charge] at hnew
  exact ⟨new, hnew, hrefused.trans hmore⟩

theorem sweep_swept (types : List (Entry TypeDecl)) {fuel : Nat} (h : sweep fuel s = .ok s') :
    ∃ l, Swept types s s' l ∧ Refused types s s' l := by
  induction fuel generalizing s with
  | zero =>
    cases h
    exact ⟨[], .refl _, .nothing rfl rfl rfl⟩
  | succ fuel ih =>
    obtain ⟨next, hpass, h⟩ := bind_eq_ok.1 h
    obtain ⟨l, hcharged, hrefused⟩ := chargedPass types (fun _ _ _ => sweepOne_turns) hpass
    split at h
    · cases h
      exact ⟨l ++ [], .sweep hcharged (.refl _), hrefused.trans (.nothing rfl rfl rfl)⟩
    · obtain ⟨l', hswept, hrest⟩ := ih h
      exact ⟨l ++ l', .sweep hcharged hswept, hrefused.trans hrest⟩

theorem removeFailed_refused (types : List (Entry TypeDecl)) (h : s.removeFailed = .ok s') :
    Refused types s s' [] := by
  obtain ⟨r, -, h⟩ := bind_eq_ok.1 h
  cases h
  exact .nothing rfl rfl rfl

/-- **Registration charges the entries without a type, and then those whose types it refuses.** -/
theorem run_charges (h : run {} types = .ok s) :
    ∃ first kept second, Accounted types s (first ++ second) ∧ Opened types kept first ∧
      s.found = (first ++ second : Ledger).diagnostics ∧
      Ledger.positions second = s.failed.map (entryOf types) ∧
        ∀ e ∈ second, e.2.isError = true := by
  obtain ⟨s₂, hlinked, h⟩ := bind_eq_ok.1 h
  obtain ⟨s₁, hdeclare, hlink⟩ := bind_eq_ok.1 hlinked
  obtain ⟨s₃, hfollow, h⟩ := bind_eq_ok.1 h
  obtain ⟨s₄, hremove, hsweep⟩ := bind_eq_ok.1 h
  obtain ⟨l₁, hcharged, hbound, kept, hopened⟩ := declare_opened hdeclare
  obtain ⟨l₂, hcharged₂, hrefused₂⟩ := chargedPass types (fun _ _ _ => link_turns) hlink
  obtain ⟨l₃, hcharged₃, hrefused₃⟩ := chargedPass types (fun _ _ _ => follow_turns) hfollow
  obtain ⟨l₄, hswept, hrefused₄⟩ := sweep_swept types hsweep
  have hrefused : Refused types s₁ s (l₂ ++ (l₃ ++ l₄)) :=
    hrefused₂.trans (hrefused₃.trans ((removeFailed_refused types hremove).trans hrefused₄))
  obtain ⟨names, hfailed, hpositions⟩ := hrefused.failed
  rw [hbound.failed, nil_append] at hfailed
  refine ⟨l₁, kept, _, .mk hcharged hcharged₂ hcharged₃ hremove hswept, hopened, ?_, ?_,
    hrefused.errors⟩
  · rw [hrefused.found, hcharged.found_eq, Ledger.diagnostics_append l₁]
    rfl
  · rw [hpositions, hfailed]

/-! ### What is registered -/

/-- The types registered and not built in are those introduced and not refused. -/
theorem Sweeping.userTypes_length {ds : List Declared} (hds : Introduces ds) (h : Sweeping ds s) :
    s.registry.userTypes.length + s.failed.length = ds.length := by
  have hbuiltin : (({} : Registry).bindings.filter fun b => !Ty.isBuiltinName b.name) = [] := by
    decide
  have hown : ((ds.map Declared.binding).filter fun b => !Ty.isBuiltinName b.name) = ds.map
      Declared.binding := by
    rw [filter_eq_self, forall_mem_map]
    intro d hd
    show (!Ty.isBuiltinName d.decl.name) = true
    rw [hds.free d hd]
    rfl
  have hkept : s.registry.userTypes.length =
      (ds.filter fun d => d.decl.name ∉ s.failed).length := by
    rw [Registry.userTypes, h.kept, scope, length_map, filter_comm, filter_append, hbuiltin, hown,
      nil_append, filter_map, length_map]
    rfl
  have hfailed : ((ds.map fun d => d.decl.name).filter fun name => name ∈ s.failed).Perm
      s.failed := by
    refine (perm_ext_iff_of_nodup (hds.names.filter _) h.distinct).2 fun name => ?_
    rw [mem_filter, decide_eq_true_eq]
    refine ⟨fun hname => hname.2, fun hname => ⟨?_, hname⟩⟩
    obtain ⟨d, hd, rfl⟩ := h.names name hname
    exact mem_map_of_mem hd
  have hlength := hfailed.length_eq
  rw [filter_map, length_map] at hlength
  have hsplit := length_eq_length_filter_add (l := ds) fun d => decide (d.decl.name ∈ s.failed)
  simp only [decide_not] at hkept
  rw [hkept, ← hlength, hsplit, Nat.add_comm]
  rfl

theorem IntroducedAt.registeredAt_iff (hd : IntroducedAt types i d)
    (h : Sweeping (introduced types) s)
    (hmem : d ∈ introduced types) : RegisteredAt types s.registry i ↔ d.decl.name ∉ s.failed := by
  have hds := introduces_introduced types
  constructor
  · rintro ⟨decl, hentry, hlookup⟩
    cases hd.entry.symm.trans hentry
    exact (h.mem_registered hds hmem).1 ⟨d, hmem, rfl, by rw [hlookup, hd.type]⟩
  · intro hkept
    refine ⟨d.decl, hd.entry, ?_⟩
    rw [← hd.type]
    exact (lookup?_kept hds h.toSettling h.kept).2 (.inr ⟨d, hmem, rfl, rfl, hkept⟩)

/-- An entry that introduces no type is not registered: its name has the type of another. -/
theorem Opened.not_registeredAt (hopened : Opened types kept l) (h : Sweeping (introduced types) s)
    (hi : i ∉ kept) : ¬RegisteredAt types s.registry i := by
  rintro ⟨decl, hentry, hlookup⟩
  rcases (lookup?_kept (introduces_introduced types) h.toSettling h.kept).1 hlookup with hb |
    ⟨d, hd, hname, htype, -⟩
  · have hnumber : ∀ b ∈ Ty.builtins, idOf b.2 = 0 := by decide
    have hzero := hnumber _ hb
    rw [idOf_nominal] at hzero
    omega
  · obtain ⟨j, hj, hat⟩ := forall₂_exists hopened.keeps.flip hd
    have hnumber : (introduced (types.take j)).length = (introduced (types.take i)).length := by
      have hid := congrArg idOf (hat.type.symm.trans htype)
      rw [idOf_nominal, idOf_nominal] at hid
      omega
    -- the first entry with the name stands before this one, so fewer types were introduced before
    -- it
    have hlt : j < i := by
      have hle : j ≤ i := by
        rw [← hat.entryOf_eq, hname]
        exact positionOf_le hentry (beq_self_eq_true _)
      have hne : j ≠ i := fun heq => hi (heq ▸ hj)
      omega
    have hfewer := hat.length_lt hlt
    omega

theorem Opened.count_refused (hopened : Opened types kept l) (h : Sweeping (introduced types) s)
    (hd : IntroducedAt types i d) : (s.failed.map (entryOf types)).count i = s.failed.count
      d.decl.name := by
  rw [List.count, countP_map]
  refine countP_congr fun name hname => ?_
  obtain ⟨d', hd', rfl⟩ := h.names name hname
  obtain ⟨j, -, hat⟩ := forall₂_exists hopened.keeps.flip hd'
  simp only [Function.comp_apply, hat.entryOf_eq, beq_iff_eq]
  constructor
  · intro heq
    have hentry := hat.entry.symm.trans (heq ▸ hd.entry)
    rw [Entry.proper.inj (Option.some.inj hentry)]
  · intro heq
    rw [← hat.entryOf_eq, heq, hd.entryOf_eq]

theorem Opened.mem_of_refused (hopened : Opened types kept l) (h : Sweeping (introduced types) s)
    (hi : i ∈ s.failed.map (entryOf types)) : i ∈ kept := by
  obtain ⟨name, hname, rfl⟩ := mem_map.1 hi
  obtain ⟨d, hd, rfl⟩ := h.names name hname
  obtain ⟨j, hj, hat⟩ := forall₂_exists hopened.keeps.flip hd
  rwa [hat.entryOf_eq]

/--
The accounts of the entries are settled: an entry whose type is registered is charged with nothing,
and any other one with one error.
-/
structure Balanced (types : List (Entry TypeDecl)) (r : Registry) (l : Ledger) : Prop where
  positions : ∀ i ∈ l.positions, i < types.length
  registered : ∀ i < types.length, RegisteredAt types r i → l.errorsAt i = 0
  refused : ∀ i < types.length, ¬RegisteredAt types r i → l.errorsAt i = 1
  errors : l.errors + r.userTypes.length = types.length

/-- What the accounts come to depends on the names of types alone. -/
theorem Balanced.congr {r r' : Registry} (h : Balanced types r l) (hb : r'.bindings = r.bindings) :
    Balanced types r' l := by
  have hregistered (i : Nat) : RegisteredAt types r' i ↔ RegisteredAt types r i := by
    simp only [RegisteredAt, Registry.lookup?, Registry.binding?, hb]
  refine ⟨h.positions, fun i hi hr => ?_, fun i hi hr => ?_, ?_⟩
  · exact h.registered i hi ((hregistered i).1 hr)
  · exact h.refused i hi (mt (hregistered i).2 hr)
  · rw [Registry.userTypes, hb]
    exact h.errors

/-- **Registration charges every entry whose type is not registered once, and no other.** -/
theorem run_balanced (h : run {} types = .ok s) :
    ∃ l, Accounted types s l ∧ s.found = l.diagnostics ∧ Balanced types s.registry l := by
  obtain ⟨first, kept, second, haccounted, hopened, hfound, hsecond, herrors⟩ := run_charges h
  have hds := introduces_introduced types
  have hsettled := (run_settled h).1
  have hall : ∀ e ∈ (first ++ second : Ledger), e.2.isError = true :=
    forall_mem_append.2 ⟨hopened.errors, herrors⟩
  have hcount (i : Nat) : Ledger.errorsAt (first ++ second) i =
      first.positions.count i + (s.failed.map (entryOf types)).count i := by
    rw [Ledger.errorsAt_eq_count hall, Ledger.positions_append, count_append, hsecond]
  refine ⟨_, haccounted, hfound, ?_, ?_, ?_, ?_⟩
  · intro i hi
    rw [Ledger.positions_append, hsecond] at hi
    rcases mem_append.1 hi with hi | hi
    · exact hopened.divided.lt_of_mem (mem_append_right _ hi)
    · exact hopened.divided.lt_of_mem (mem_append_left _ (hopened.mem_of_refused hsettled hi))
  · intro i hi hregistered
    have hkept : i ∈ kept := by
      by_contra hidle
      exact hopened.not_registeredAt hsettled hidle hregistered
    obtain ⟨d, hd, hat⟩ := forall₂_exists hopened.keeps hkept
    rw [hcount, hopened.divided.count_of_kept hkept, hopened.count_refused hsettled hat,
      Nat.zero_add]
    exact count_eq_zero.2 ((hat.registeredAt_iff hsettled hd).1 hregistered)
  · intro i hi hrefused
    rw [hcount]
    by_cases hkept : i ∈ kept
    · obtain ⟨d, hd, hat⟩ := forall₂_exists hopened.keeps hkept
      rw [hopened.divided.count_of_kept hkept, hopened.count_refused hsettled hat, Nat.zero_add]
      have hfailed := not_not.1 (mt (hat.registeredAt_iff hsettled hd).2 hrefused)
      exact count_eq_one_of_mem hsettled.distinct hfailed
    · rw [hopened.divided.count_of_not_kept hi hkept]
      rw [count_eq_zero.2 fun hmem => hkept (hopened.mem_of_refused hsettled hmem)]
  · have hlength := hopened.divided.length_eq
    have hintroduced := hopened.keeps.length_eq
    have huser := hsettled.userTypes_length hds
    have hrefused : second.length = s.failed.length := by
      rw [← length_map Prod.fst]
      exact (congrArg List.length hsecond).trans (length_map _)
    rw [Ledger.errors_eq_length hall, length_append]
    omega

end TreeTyping.Registration
