/-
The type that elements share does not depend on their order.

Where a place asks for nothing, the elements of a literal have to share a type.  The rule goes
through them from the first to the last and takes the first interface that suits all, so another
order may lead to another interface.  Whether there is one at all depends on the members of the list
only: `Shares` says it without an order.  And it makes no difference which one is taken.  The type
that is found is one of the elements and has room for all of them, so of two that are found each has
room for the other.  If they are not the same, both are interfaces, and what each requires the other
requires too.

All this needs is that the members of every element can be looked up, as those of all types over a
registry in use can: a question that has no answer would end the search where it is asked.
-/
import TreeTyping.Proofs.Typing.Expected
import TreeTyping.Proofs.Typing.Following

namespace TreeTyping

/-! ### Interfaces that ask for the same -/

namespace Registry

variable {r : Registry} {i j : Nominal}

/-- Two interfaces require the same names, each with a member of the same kind and type. -/
def SameRequirements (r : Registry) (i j : Nominal) : Prop :=
  ∀ name, ((r.required i).find? name).map (fun m => (m.kind, m.type)) =
    ((r.required j).find? name).map fun m => (m.kind, m.type)

theorem required_of_satisfies (h : r.satisfies (.interface i) j = .ok true)
    {name : String} {m : Member}
    (hm : (r.required j).find? name = some m) : ∃ found, (r.required i).find? name = some found ∧
      Meets found m := by
  rcases firstMismatch_eq_none.1 (satisfies_eq_true.1 h) with (hempty | hsame) |
    ⟨members, hmembers, hmet⟩
  · rw [hempty] at hm
    cases hm
  · cases hsame
    exact ⟨m, hm, rfl, rfl⟩
  · cases hmembers
    exact hmet _ (Keyed.mem_of_find? hm)

/-- **Interfaces that satisfy each other require the same.** -/
theorem sameRequirements_of_satisfies (hij : r.satisfies (.interface i) j = .ok true)
    (hji : r.satisfies (.interface j) i = .ok true) : r.SameRequirements i j := by
  intro name
  rcases hi : (r.required i).find? name with _ | m
  · rcases hj : (r.required j).find? name with _ | m'
    · rfl
    · obtain ⟨found, hfound, -⟩ := required_of_satisfies hij hj
      rw [hi] at hfound
      cases hfound
  · obtain ⟨found, hfound, hkind, htype⟩ := required_of_satisfies hji hi
    rw [hfound, Option.map_some, Option.map_some, hkind, htype]

theorem satisfies_of_assignable {t : Ty} (h : r.Assignable (.interface i) t)
    (hne : t ≠ .interface i) : r.satisfies t i = .ok true := by
  rw [Assignable, isAssignable, if_neg (Ne.symm hne)] at h
  exact h

end Registry

/-! ### Sharing a type -/

namespace Inference

variable {r : Registry} {types others : List Ty} {span : Span} {what : String}

/-- All elements have the same type, or one is of an interface type that the others satisfy. -/
def Shares (r : Registry) (types : List Ty) : Prop :=
  (∀ a ∈ types, ∀ b ∈ types, a = b) ∨
    ∃ i, .interface i ∈ types ∧ ∀ t ∈ types, t ≠ .interface i → r.satisfies t i = .ok true

theorem Shares.perm (h : Shares r types) (hperm : types.Perm others) : Shares r others := by
  rcases h with hsame | ⟨i, hi, hall⟩
  · left
    intro a ha b hb
    exact hsame a (hperm.mem_iff.2 ha) b (hperm.mem_iff.2 hb)
  · right
    refine ⟨i, hperm.mem_iff.1 hi, ?_⟩
    intro t ht hne
    exact hall t (hperm.mem_iff.2 ht) hne

/-- A candidate that all types satisfy is not passed over: something is found, there or before. -/
theorem sharedInterface?_finds (hover : ∀ t ∈ types, ∃ members, r.membersOf t = .ok members)
    {i : Nominal}
    (hall : ∀ t ∈ types, r.Assignable (.interface i) t) {candidates : List Ty}
    (hi : .interface i ∈ candidates) :
    ∃ t, (sharedInterface? r types candidates).result = .ok (some t) := by
  induction candidates with
  | nil => cases hi
  | cons c rest ih =>
    by_cases hc : ∃ j, c = .interface j
    · obtain ⟨j, rfl⟩ := hc
      obtain ⟨b, hb⟩ := allSatisfy_total (r := r) (i := j) hover
      rw [sharedInterface?, result_bind_of_ok hb]
      cases b with
      | true => exact ⟨.interface j, rfl⟩
      | false =>
        -- this candidate does not suit all, so it is another one
        have hother : Ty.interface i ≠ .interface j := by
          intro hsame
          cases hsame
          rw [allSatisfy_result.2 hall] at hb
          cases hb
        exact ih ((List.mem_cons.1 hi).resolve_left hother)
    · have hrest : .interface i ∈ rest := (List.mem_cons.1 hi).resolve_left fun hsame =>
        hc ⟨i, hsame.symm⟩
      rw [sharedInterface?]
      · exact ih hrest
      · intro j hj
        exact hc ⟨j, hj⟩

/-- Elements that share a type are found to do so. -/
theorem sharedType_finds (hne : types ≠ [])
    (hover : ∀ t ∈ types, ∃ members, r.membersOf t = .ok members)
    (h : Shares r types) : ∃ t, (sharedType r types span what).result = .ok t := by
  cases types with
  | nil => exact absurd rfl hne
  | cons first rest =>
    rw [sharedType]
    by_cases hsame : rest.all (· = first) = true
    · exact ⟨first, by rw [if_pos hsame]; rfl⟩
    · rw [if_neg hsame]
      rcases h with hequal | ⟨i, hi, hall⟩
      · have hrest : rest.all (· = first) = true := by
          rw [List.all_eq_true]
          intro s hs
          exact decide_eq_true (hequal s (List.mem_cons_of_mem _ hs) first List.mem_cons_self)
        exact absurd hrest hsame
      · have hmet : ∀ t ∈ first :: rest, r.Assignable (.interface i) t := by
          intro t ht
          by_cases hi' : t = .interface i
          · exact hi' ▸ Registry.assignable_refl t
          · exact Registry.assignable_interface (hall t ht hi')
        obtain ⟨t, ht⟩ := sharedInterface?_finds hover hmet hi
        rw [result_bind_of_ok ht]
        exact ⟨t, rfl⟩

/-- **Elements share a type exactly if their types say so**, in whatever order they stand. -/
theorem sharedType_iff (hne : types ≠ [])
    (hover : ∀ t ∈ types, ∃ members, r.membersOf t = .ok members) :
    (∃ t, (sharedType r types span what).result = .ok t) ↔ Shares r types := by
  constructor
  · rintro ⟨t, ht⟩
    obtain ⟨hmem, hsame | ⟨i, rfl, hall⟩⟩ := sharedType_result ht
    · left
      intro a ha b hb
      rw [hsame a ha, hsame b hb]
    · right
      refine ⟨i, hmem, ?_⟩
      intro s hs hne
      exact Registry.satisfies_of_assignable (hall s hs) hne
  · exact sharedType_finds hne hover

/-- Two elements that each have room for all are the same, or interfaces that require the same. -/
theorem eq_or_sameRequirements {t u : Ty} (ht : (sharedType r types span what).result = .ok t)
    (hut : r.Assignable t u) (htu : r.Assignable u t) (hu : u ∈ types)
    (hi : ∃ j, u = .interface j) :
    t = u ∨ ∃ i j, t = .interface i ∧ u = .interface j ∧ r.SameRequirements i j := by
  by_cases hsame : t = u
  · exact .inl hsame
  · right
    obtain ⟨-, hall | ⟨i, rfl, -⟩⟩ := sharedType_result ht
    · exact absurd (hall u hu).symm hsame
    · obtain ⟨j, rfl⟩ := hi
      refine ⟨i, j, rfl, rfl, Registry.sameRequirements_of_satisfies ?_ ?_⟩
      · exact Registry.satisfies_of_assignable htu hsame
      · exact Registry.satisfies_of_assignable hut (Ne.symm hsame)

/--
**The type that elements share does not depend on their order.**  They share one exactly if all have
the same type, or one of them is of an interface type that all others satisfy.  The type that is
found is that of an element, and every element can be stored under it.  In another order something
is found exactly if something is found in the first, and what is found can be stored one under the
other, both ways: it is the same, or two interfaces that require the same.
-/
theorem commonType_perm (span : Span) (what : String) (hne : types ≠ [])
    (hover : ∀ t ∈ types, ∃ members, r.membersOf t = .ok members) :
    ((∃ t, (commonType r types none span what).result = .ok t) ↔
      (∀ a ∈ types, ∀ b ∈ types, a = b) ∨
        ∃ i, .interface i ∈ types ∧ ∀ t ∈ types, t ≠ .interface i → r.satisfies t i = .ok true) ∧
    (∀ t, (commonType r types none span what).result = .ok t →
      t ∈ types ∧ ∀ s ∈ types, r.isAssignable t s = .ok true) ∧
    ∀ others : List Ty, types.Perm others →
      ((∃ t, (commonType r types none span what).result = .ok t) ↔
        ∃ u, (commonType r others none span what).result = .ok u) ∧
      ∀ t u, (commonType r types none span what).result = .ok t →
        (commonType r others none span what).result = .ok u →
        r.isAssignable t u = .ok true ∧ r.isAssignable u t = .ok true ∧
          (t = u ∨ ∃ i j, t = .interface i ∧ u = .interface j ∧ r.SameRequirements i j) := by
  refine ⟨sharedType_iff hne hover, ?_, ?_⟩
  · intro t ht
    exact ⟨(sharedType_result ht).1, commonType_stores ht⟩
  · intro others hperm
    have hne' : others ≠ [] := by
      rintro rfl
      exact hne hperm.eq_nil
    have hover' : ∀ t ∈ others, ∃ members, r.membersOf t = .ok members := by
      intro t ht
      exact hover t (hperm.mem_iff.2 ht)
    constructor
    · show (∃ t, (sharedType r types span what).result = .ok t) ↔
        ∃ u, (sharedType r others span what).result = .ok u
      rw [sharedType_iff hne hover, sharedType_iff hne' hover']
      exact ⟨fun h => h.perm hperm, fun h => h.perm hperm.symm⟩
    · intro t u ht hu
      -- each is an element, so it can be stored under the other
      have htmem : t ∈ others := hperm.mem_iff.1 (sharedType_result ht).1
      obtain ⟨humem, hwhich⟩ := sharedType_result hu
      have hut : r.Assignable t u := commonType_stores ht u (hperm.mem_iff.2 humem)
      have htu : r.Assignable u t := commonType_stores hu t htmem
      refine ⟨hut, htu, ?_⟩
      rcases hwhich with hall | ⟨j, hj, -⟩
      · exact .inl (hall t htmem)
      · exact eq_or_sameRequirements ht hut htu (hperm.mem_iff.2 humem) ⟨j, hj⟩

/-- Two interfaces that ask for a size, one as much as the other, and a struct that has one. -/
def measuring : Except Failure Registry := do
  let size : MemberDecl := .method .nowhere "size" [] (some (.simple .nowhere "int"))
  let s ← Registration.run {}
    [.proper (.interface .nowhere "Sized" [size]), .proper (.interface .nowhere "Measured" [size]),
     .proper (.struct .nowhere "Box" [])]
  s.registry.addMethod (.struct ⟨3, "Box"⟩) "size" (.function [] (some .int)) .nowhere

/-- A box and values of both interfaces share the interface that comes first, whichever it is. -/
theorem commonType_perm_measuring : ∃ r, measuring = .ok r ∧
    (commonType r [.struct ⟨3, "Box"⟩, .interface ⟨1, "Sized"⟩, .interface ⟨2, "Measured"⟩] none
      .nowhere "element").result = .ok (.interface ⟨1, "Sized"⟩) ∧
    (commonType r [.interface ⟨2, "Measured"⟩, .struct ⟨3, "Box"⟩, .interface ⟨1, "Sized"⟩] none
      .nowhere "element").result = .ok (.interface ⟨2, "Measured"⟩) ∧
    r.isAssignable (.interface ⟨1, "Sized"⟩) (.interface ⟨2, "Measured"⟩) = .ok true ∧
    r.isAssignable (.interface ⟨2, "Measured"⟩) (.interface ⟨1, "Sized"⟩) = .ok true := by
  have hrun : measuring.toOption.map (fun r =>
      (decide (∀ t ∈ [Ty.struct ⟨3, "Box"⟩, .interface ⟨1, "Sized"⟩, .interface ⟨2, "Measured"⟩],
        r.Over t),
       (commonType r [.struct ⟨3, "Box"⟩, .interface ⟨1, "Sized"⟩, .interface ⟨2, "Measured"⟩] none
         .nowhere "element").result.toOption,
       (commonType r [.interface ⟨2, "Measured"⟩, .struct ⟨3, "Box"⟩, .interface ⟨1, "Sized"⟩] none
         .nowhere "element").result.toOption)) =
      some (true, some (.interface ⟨1, "Sized"⟩), some (.interface ⟨2, "Measured"⟩)) := by
    decide +kernel
  obtain ⟨r, hr, hfound⟩ := Option.map_eq_some_iff.1 hrun
  simp only [Prod.mk.injEq, decide_eq_true_eq, Except.toOption_eq_some] at hfound
  obtain ⟨hover, hfirst, hsecond⟩ := hfound
  have hmeasuring := Except.toOption_eq_some.1 hr
  obtain ⟨s, hs, hadd⟩ := Except.bind_eq_ok.1 hmeasuring
  have hproduced : r.Produced := .declared (.registered hs) hadd
  have hmembers := fun t ht => hproduced.inOrder.membersOf_total (hover t ht)
  obtain ⟨-, -, hperm⟩ := commonType_perm .nowhere "element" (List.cons_ne_nil _ _) hmembers
  have hsame : [Ty.struct ⟨3, "Box"⟩, .interface ⟨1, "Sized"⟩, .interface ⟨2, "Measured"⟩].Perm
      [.interface ⟨2, "Measured"⟩, .struct ⟨3, "Box"⟩, .interface ⟨1, "Sized"⟩] := by decide
  obtain ⟨hout, hback, -⟩ := (hperm _ hsame).2 _ _ hfirst hsecond
  exact ⟨r, hmeasuring, hfirst, hsecond, hout, hback⟩

end Inference

end TreeTyping
