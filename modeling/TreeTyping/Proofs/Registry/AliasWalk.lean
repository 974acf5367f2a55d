/-
Following aliases comes to an end.

`resolveUnderlying` recurses on a fuel of two more than there are definitions, and gives up when it
meets an alias again.  `Leads` says where the aliases lead without either: an alias leads to where
the type it stands for leads, and any other type to itself.  `Strands` is the other way to come to
an end, at an alias that has not been linked.  The walk agrees with both.  What an alias stands for
is decided by its identity alone, so a path that met an identity twice would go round for ever and
could not be finished; the identities of a finished path are therefore distinct, each has a
definition, and there are no more of them than definitions.  A walk that does not finish goes round:
it is a `Lasso`, and its names are reported.
-/
import Mathlib.Data.List.Chain
import Mathlib.Data.List.Nodup
import Mathlib.Data.Finset.Card
import Mathlib.Logic.Relation
import TreeTyping.Registry.Underlying

namespace TreeTyping

open List

theorem Ty.isAlias_eq_false {t : Ty} : t.isAlias = false ↔ ∀ n, t = .alias n → False := by
  cases t <;> simp [isAlias]

theorem Ty.isAlias_eq_true {t : Ty} : t.isAlias = true ↔ ∃ n, t = .alias n := by
  cases t <;> simp [isAlias]

namespace Registry

open Relation (ReflTransGen)

variable {r : Registry} {t w : Ty} {ids : List Nat} {chain : List String} {seen : List Nat}
  {span : Span} {fuel : Nat}

/-- Following aliases from `t`, as far as it goes, leads to `w`. -/
inductive Leads (r : Registry) : Ty → Ty → Prop
  | done {t : Ty} (h : t.isAlias = false) : Leads r t t
  | step {n : Nominal} {t w : Ty} (hn : r.underlying? n = some t) (h : Leads r t w) :
      Leads r (.alias n) w

theorem Leads.not_alias (h : r.Leads t w) : w.isAlias = false := by
  induction h with
  | done h => exact h
  | step _ _ ih => exact ih

/-- Where aliases lead depends on the definitions alone. -/
theorem Leads.congr {r' : Registry} (hdefinitions : r'.definitions = r.definitions)
    (h : r.Leads t w) : r'.Leads t w := by
  induction h with
  | done h => exact .done h
  | step hn _ ih =>
    refine .step ?_ ih
    rwa [underlying?, hdefinitions]

/-- Following aliases from `t` ends at the alias `n`, which has not been linked. -/
inductive Strands (r : Registry) : Ty → Nominal → Prop
  | here {n : Nominal} (h : r.underlying? n = none) : Strands r (.alias n) n
  | step {n m : Nominal} {t : Ty} (hn : r.underlying? n = some t) (h : Strands r t m) :
      Strands r (.alias n) m

/-! ### Paths -/

/-- From the type nothing is followed: it is no alias, or one that has not been linked. -/
def Final (r : Registry) (t : Ty) : Prop := ∀ n, t = .alias n → r.underlying? n = none

theorem final_of_not_alias (h : t.isAlias = false) : r.Final t :=
  fun n heq => absurd heq (Ty.isAlias_eq_false.1 h n)

/-- The path from `t` to its end `w` goes through aliases with the given identities. -/
inductive Path (r : Registry) : Ty → List Nat → Ty → Prop
  | done {t : Ty} (h : r.Final t) : Path r t [] t
  | step {n : Nominal} {t w : Ty} {ids : List Nat} (hn : r.underlying? n = some t)
      (h : Path r t ids w) : Path r (.alias n) (n.id :: ids) w

theorem Leads.path (h : r.Leads t w) : ∃ ids, r.Path t ids w := by
  induction h with
  | done h => exact ⟨[], .done (final_of_not_alias h)⟩
  | step hn _ ih =>
    obtain ⟨ids, hids⟩ := ih
    exact ⟨_, .step hn hids⟩

theorem Strands.path {n : Nominal} (h : r.Strands t n) : ∃ ids, r.Path t ids (.alias n) := by
  induction h with
  | @here n h =>
    refine ⟨[], .done fun m heq => ?_⟩
    cases heq
    exact h
  | step hn _ ih =>
    obtain ⟨ids, hids⟩ := ih
    exact ⟨_, .step hn hids⟩

/-- What an alias stands for is decided by its identity. -/
theorem underlying?_congr {n n' : Nominal} (h : n.id = n'.id) :
    r.underlying? n = r.underlying? n' := by
  rw [underlying?, underlying?, h]

theorem Path.unique {w' : Ty} {ids' : List Nat} (h : r.Path t ids w) (h' : r.Path t ids' w') :
    ids = ids' := by
  induction h generalizing ids' with
  | done ht =>
    cases h' with
    | done _ => rfl
    | step hn' _ => cases hn'.symm.trans (ht _ rfl)
  | step hn _ ih =>
    cases h' with
    | done ht => cases hn.symm.trans (ht _ rfl)
    | step hn' h' =>
      obtain rfl := Option.some.inj (hn.symm.trans hn')
      rw [ih h']

theorem Path.suffix (h : r.Path t ids w) {i : Nat} (hi : i ∈ ids) :
    ∃ n u before after, n.id = i ∧ r.underlying? n = some u ∧ ids = before ++ i :: after ∧
      r.Path u after w := by
  induction h with
  | done => cases hi
  | @step n u w ids hn h ih =>
    rcases mem_cons.1 hi with rfl | hi
    · exact ⟨n, u, [], ids, rfl, hn, rfl, h⟩
    · obtain ⟨n', u', before, after, hid, hn', rfl, h'⟩ := ih hi
      exact ⟨n', u', n.id :: before, after, hid, hn', rfl, h'⟩

/-- A finished path meets no identity twice. -/
theorem Path.nodup (h : r.Path t ids w) : ids.Nodup := by
  induction h with
  | done => exact nodup_nil
  | @step n u w ids hn h ih =>
    refine nodup_cons.2 ⟨fun hmem => ?_, ih⟩
    obtain ⟨n', u', before, after, hid, hn', hids, h'⟩ := h.suffix hmem
    -- from the second meeting the path goes on as from the first, so it would contain itself
    obtain rfl : u = u' := Option.some.inj (hn.symm.trans ((underlying?_congr hid.symm).trans hn'))
    have hlength := congrArg List.length (hids.symm.trans (h.unique h'))
    simp only [length_append, length_cons] at hlength
    omega

/-- An alias that has been linked has a definition. -/
theorem lt_definitions {n : Nominal} (h : r.underlying? n = some t) :
    n.id < r.definitions.length := by
  unfold underlying? at h
  split at h
  · next hd => exact (List.getElem?_eq_some_iff.1 hd).1
  · cases h

/-- There are no more distinct identities than definitions. -/
theorem length_le_definitions (hnodup : ids.Nodup) (h : ∀ i ∈ ids, i < r.definitions.length) :
    ids.length ≤ r.definitions.length := by
  rw [← toFinset_card_of_nodup hnodup, ← Finset.card_range r.definitions.length]
  exact Finset.card_le_card fun i hi => Finset.mem_range.2 (h i (mem_toFinset.1 hi))

theorem Path.lt_definitions (h : r.Path t ids w) : ∀ i ∈ ids, i < r.definitions.length := by
  induction h with
  | done => exact forall_mem_nil _
  | step hn _ ih => exact forall_mem_cons.2 ⟨Registry.lt_definitions hn, ih⟩

/-! ### The walk -/

/-- A walk that has come to a type that is no alias ends there. -/
theorem walkAliases_done (h : t.isAlias = false) (span : Span) (fuel : Nat) (seen : List Nat)
    (chain : List String) : r.walkAliases span (fuel + 1) seen chain t = .ok t := by
  rw [walkAliases]
  exact Ty.isAlias_eq_false.1 h

/-- What a walk comes to that ends at the given type. -/
def walkEnd (span : Span) : Ty → Except Failure Ty
  | .alias n => complain (.unknownType n.name) span
  | t => .ok t

theorem walkEnd_of_not_alias (h : t.isAlias = false) (span : Span) : walkEnd span t = .ok t := by
  rw [walkEnd]
  exact Ty.isAlias_eq_false.1 h

-- An alias at the end cannot have been met before: those met before are linked.
theorem walkAliases_final (h : r.Final t) (span : Span)
    (hseen : ∀ n : Nominal, n.id ∈ seen → (r.underlying? n).isSome = true) :
    r.walkAliases span (fuel + 1) seen chain t = walkEnd span t := by
  by_cases halias : t.isAlias = true
  · obtain ⟨n, rfl⟩ := Ty.isAlias_eq_true.1 halias
    have hn := h n rfl
    have hnew : n.id ∉ seen := by
      intro hmem
      have hlinked := hseen n hmem
      rw [hn] at hlinked
      cases hlinked
    rw [walkAliases, if_neg hnew, hn]
    rfl
  · have hother : t.isAlias = false := by simpa using halias
    rw [walkAliases_done hother, walkEnd_of_not_alias hother]

theorem walkAliases_of_path (h : r.Path t ids w) (span : Span)
    (hfuel : ids.length < fuel) (hfresh : ∀ i ∈ ids, i ∉ seen)
    (hseen : ∀ n : Nominal, n.id ∈ seen → (r.underlying? n).isSome = true) :
    r.walkAliases span fuel seen chain t = walkEnd span w := by
  induction h generalizing fuel seen chain with
  | done h =>
    obtain ⟨fuel, rfl⟩ := Nat.exists_eq_add_of_lt hfuel
    exact walkAliases_final h span hseen
  | @step n u w ids hn h ih =>
    obtain ⟨fuel, rfl⟩ := Nat.exists_eq_add_of_lt hfuel
    obtain ⟨hhere, -⟩ := nodup_cons.1 (Path.step hn h).nodup
    obtain ⟨hnew, hrest⟩ := forall_mem_cons.1 hfresh
    rw [walkAliases, if_neg hnew, hn]
    refine ih (by rw [length_cons]; omega) (fun i hi => ?_) fun m hm => ?_
    · rw [mem_cons, not_or]
      exact ⟨fun heq => hhere (heq ▸ hi), hrest i hi⟩
    · rcases mem_cons.1 hm with heq | hm
      · rw [underlying?_congr heq, hn]
        rfl
      · exact hseen m hm

theorem resolveUnderlying_of_path (h : r.Path t ids w) (span : Span) :
    r.resolveUnderlying t span = walkEnd span w := by
  have hlength := length_le_definitions h.nodup h.lt_definitions
  exact walkAliases_of_path h span (by omega) (fun _ _ => not_mem_nil) fun n hn => nomatch hn

theorem leads_of_walkAliases (h : r.walkAliases span fuel seen chain t = .ok w) : r.Leads t w := by
  fun_induction walkAliases r span fuel seen chain t with
  | case1 => cases h
  | case2 => cases h
  | case3 => cases h
  | case4 seen chain fuel n hfresh t hn ih => exact .step hn (ih h)
  | case5 seen chain fuel t ht =>
    cases h
    exact .done (Ty.isAlias_eq_false.2 ht)

/-- **Following aliases succeeds exactly where they lead to a type that is no alias.** -/
theorem resolveUnderlying_eq_ok : r.resolveUnderlying t span = .ok w ↔ r.Leads t w := by
  constructor
  · exact leads_of_walkAliases
  · intro h
    obtain ⟨ids, hids⟩ := h.path
    rw [resolveUnderlying_of_path hids, walkEnd_of_not_alias h.not_alias]

/-- A walk that fails has gone round, or has come to an alias that has not been linked. -/
theorem walkAliases_eq_error {f : Failure} (h : r.walkAliases span fuel seen chain t = .error f) :
    (∃ names, f = .of (.cyclicAlias names) span) ∨ ∃ n, r.Strands t n ∧
    f = .of (.unknownType n.name) span := by
  fun_induction walkAliases r span fuel seen chain t with
  | case1 => exact .inl ⟨_, (Except.error.inj h).symm⟩
  | case2 => exact .inl ⟨_, (Except.error.inj h).symm⟩
  | case3 seen chain fuel n hfresh hn => exact .inr ⟨n, .here hn, (Except.error.inj h).symm⟩
  | case4 seen chain fuel n hfresh t hn ih =>
    rcases ih h with hround | ⟨m, hm, hf⟩
    · exact .inl hround
    · exact .inr ⟨m, .step hn hm, hf⟩
  | case5 => cases h

/-- **An unknown type is found exactly where aliases end at one that is not linked.** -/
theorem resolveUnderlying_strands {n : Nominal} (h : r.Strands t n) :
    r.resolveUnderlying t span = .error (.of (.unknownType n.name) span) := by
  obtain ⟨ids, hids⟩ := h.path
  exact resolveUnderlying_of_path hids span

/-! ### How a walk ends -/

/-- The first type is an alias, and the second what it stands for. -/
def Links (r : Registry) (t u : Ty) : Prop := ∃ n, t = .alias n ∧ r.underlying? n = some u

theorem leads_iff : r.Leads t w ↔ ReflTransGen r.Links t w ∧ w.isAlias = false := by
  constructor
  · intro h
    induction h with
    | done h => exact ⟨.refl, h⟩
    | step hn _ ih => exact ⟨.head ⟨_, rfl, hn⟩ ih.1, ih.2⟩
  · rintro ⟨h, hw⟩
    induction h using ReflTransGen.head_induction_on with
    | refl => exact .done hw
    | head hlink _ ih =>
      obtain ⟨n, rfl, hn⟩ := hlink
      exact .step hn ih

theorem strands_iff {n : Nominal} :
    r.Strands t n ↔ ReflTransGen r.Links t (.alias n) ∧ r.underlying? n = none := by
  constructor
  · intro h
    induction h with
    | here h => exact ⟨.refl, h⟩
    | step hn _ ih => exact ⟨.head ⟨_, rfl, hn⟩ ih.1, ih.2⟩
  · rintro ⟨h, hn⟩
    induction h using ReflTransGen.head_induction_on with
    | refl => exact .here hn
    | head hlink _ ih =>
      obtain ⟨n, rfl, hn⟩ := hlink
      exact .step hn ih

/-- A walk from `t` along aliases that goes round: each stands for the next, and the last, but no
other, is one that was met before. -/
structure Lasso (r : Registry) (t : Ty) (walk : List Nominal) (last : Nominal) : Prop where
  /-- The walk begins at the type. -/
  starts : (walk ++ [last]).head?.map Ty.alias = some t
  /-- Each alias stands for the one after it. -/
  linked : (walk ++ [last]).IsChain fun n m => r.underlying? n = some (.alias m)
  /-- The aliases before the last are distinct. -/
  distinct : (walk.map (·.id)).Nodup
  /-- The last alias is one of those before it. -/
  closes : last.id ∈ walk.map (·.id)

-- What has been met is distinct and defined, so the fuel outlasts the definitions: a walk that
-- gives up has met an alias again, either one of its own or one that was met before it began.
theorem walkAliases_round {names : List String} (hseen : seen.Nodup)
    (hdefined : ∀ i ∈ seen, i < r.definitions.length)
    (hfuel : seen.length + fuel = r.definitions.length + 2)
    (h : r.walkAliases span fuel seen chain t = .error (.of (.cyclicAlias names) span)) :
    ∃ walk last, names = chain.reverse ++ (walk ++ [last]).map (·.name) ∧
      (walk ++ [last]).head?.map Ty.alias = some t ∧
      (walk ++ [last]).IsChain (fun n m => r.underlying? n = some (.alias m)) ∧
      (walk.map (·.id)).Nodup ∧ (∀ i ∈ walk.map (·.id), i ∉ seen) ∧
      (last.id ∈ seen ∨ last.id ∈ walk.map (·.id)) := by
  fun_induction walkAliases r span fuel seen chain t with
  | case1 seen chain t =>
    have hlength := length_le_definitions hseen hdefined
    omega
  | case2 seen chain fuel n hmet =>
    cases h
    exact ⟨[], n, by simp, rfl, isChain_singleton n, nodup_nil, forall_mem_nil _, .inl hmet⟩
  | case3 => cases h
  | case4 seen chain fuel n hfresh t hn ih =>
    have hn' := lt_definitions hn
    obtain ⟨walk, last, rfl, hstart, hlinked, hdistinct, hnew, hlast⟩ :=
      ih (nodup_cons.2 ⟨hfresh, hseen⟩) (forall_mem_cons.2 ⟨hn', hdefined⟩)
        (by rw [length_cons]; omega) h
    obtain ⟨m, hm, rfl⟩ := Option.map_eq_some_iff.1 hstart
    refine ⟨n :: walk, last, by simp, rfl, ?_, ?_, ?_, ?_⟩
    · refine isChain_cons.2 ⟨fun m' hm' => ?_, hlinked⟩
      obtain rfl := Option.some.inj (hm.symm.trans hm')
      exact hn
    · refine nodup_cons.2 ⟨fun hmem => hnew _ hmem mem_cons_self, hdistinct⟩
    · exact forall_mem_cons.2 ⟨hfresh, fun i hi hmem => hnew i hi (mem_cons_of_mem _ hmem)⟩
    · rw [map_cons, mem_cons]
      rcases hlast with hlast | hlast
      · rcases mem_cons.1 hlast with hlast | hlast
        · exact .inr (.inl hlast)
        · exact .inl hlast
      · exact .inr (.inr hlast)
  | case5 => cases h

/-- A walk that gives up names the aliases of a walk that goes round. -/
theorem lasso_of_resolveUnderlying {names : List String}
    (h : r.resolveUnderlying t span = .error (.of (.cyclicAlias names) span)) :
    ∃ walk last, r.Lasso t walk last ∧ names = (walk ++ [last]).map (·.name) := by
  obtain ⟨walk, last, hnames, hstart, hlinked, hdistinct, -, hlast⟩ :=
    walkAliases_round nodup_nil (forall_mem_nil _) (Nat.zero_add _) h
  exact ⟨walk, last, ⟨hstart, hlinked, hdistinct, hlast.resolve_left not_mem_nil⟩, hnames⟩

/-- **Following aliases from any type ends in one of three ways.**  It comes to the type that is no
alias which the links reach; or to an unknown type, the alias reached that has no link; or it goes
round, exactly where every type reached has a link, and then it names a walk that begins at the
type, goes from each alias to the one it stands for, and ends at the first alias met again. -/
theorem resolveUnderlying_ends (r : Registry) (t : Ty) (span : Span) :
    (∀ u, r.resolveUnderlying t span = .ok u ↔ ReflTransGen r.Links t u ∧ u.isAlias = false) ∧
    (∀ name, r.resolveUnderlying t span = .error (.of (.unknownType name) span) ↔
      ∃ n, ReflTransGen r.Links t (.alias n) ∧ r.underlying? n = none ∧ n.name = name) ∧
    ((∃ names, r.resolveUnderlying t span = .error (.of (.cyclicAlias names) span)) ↔
      ∀ u, ReflTransGen r.Links t u → ∃ w, r.Links u w) ∧
    (∀ names, r.resolveUnderlying t span = .error (.of (.cyclicAlias names) span) →
      ∃ walk last, r.Lasso t walk last ∧ names = (walk ++ [last]).map (·.name)) ∧
    ((∃ u, r.resolveUnderlying t span = .ok u) ∨
      (∃ name, r.resolveUnderlying t span = .error (.of (.unknownType name) span)) ∨
      ∃ names, r.resolveUnderlying t span = .error (.of (.cyclicAlias names) span)) := by
  have hok : ∀ u, r.resolveUnderlying t span = .ok u ↔ ReflTransGen r.Links t u ∧
      u.isAlias = false :=
    fun u => resolveUnderlying_eq_ok.trans leads_iff
  have hunknown : ∀ name, r.resolveUnderlying t span = .error (.of (.unknownType name) span) ↔
      ∃ n, ReflTransGen r.Links t (.alias n) ∧ r.underlying? n = none ∧ n.name = name := by
    intro name
    constructor
    · intro h
      rcases walkAliases_eq_error h with ⟨names, hf⟩ | ⟨n, hn, hf⟩
      · cases hf
      · cases hf
        obtain ⟨hreached, hmissing⟩ := strands_iff.1 hn
        exact ⟨n, hreached, hmissing, rfl⟩
    · rintro ⟨n, hreached, hmissing, rfl⟩
      exact resolveUnderlying_strands (strands_iff.2 ⟨hreached, hmissing⟩)
  have hends : (∃ u, r.resolveUnderlying t span = .ok u) ∨
      (∃ name, r.resolveUnderlying t span = .error (.of (.unknownType name) span)) ∨
      ∃ names, r.resolveUnderlying t span = .error (.of (.cyclicAlias names) span) := by
    cases h : r.resolveUnderlying t span with
    | ok u => exact .inl ⟨u, rfl⟩
    | error f =>
      rcases walkAliases_eq_error h with ⟨names, rfl⟩ | ⟨n, -, rfl⟩
      · exact .inr (.inr ⟨names, rfl⟩)
      · exact .inr (.inl ⟨n.name, rfl⟩)
  refine ⟨hok, hunknown, ?_, fun names => lasso_of_resolveUnderlying, hends⟩
  constructor
  · -- a type without a link would have ended the walk in another way
    rintro ⟨names, h⟩ u hu
    by_cases halias : u.isAlias = true
    · obtain ⟨n, rfl⟩ := Ty.isAlias_eq_true.1 halias
      cases hn : r.underlying? n with
      | some w => exact ⟨w, n, rfl, hn⟩
      | none => cases h.symm.trans ((hunknown n.name).2 ⟨n, hu, hn, rfl⟩)
    · cases h.symm.trans ((hok u).2 ⟨hu, by simpa using halias⟩)
  · intro hlinked
    rcases hends with ⟨u, h⟩ | ⟨name, h⟩ | h
    · obtain ⟨hu, hother⟩ := (hok u).1 h
      obtain ⟨w, n, rfl, -⟩ := hlinked u hu
      cases hother
    · obtain ⟨n, hn, hmissing, -⟩ := (hunknown name).1 h
      obtain ⟨w, m, hm, hlink⟩ := hlinked _ hn
      cases hm
      cases hlink.symm.trans hmissing
    · exact h

end Registry

end TreeTyping
