/-
Assignability is a preorder.

A value may be stored where its own type is declared, where an interface is declared that its type
satisfies, and across an abstract composed type and its backing.  These are the only ways, and
`assignable_iff` lists them.  Two steps in a row make one again.  Through an interface this is
because satisfaction compares names, kinds and types without variance.  Through a composed type it
is because composed types have no members, so the only interfaces they satisfy are those that
require nothing, and those every type satisfies.

Storing under an interface goes one way.  All else goes both ways.
-/
import TreeTyping.Proofs.Registry.Produced
import TreeTyping.Proofs.Typing.Rules

namespace TreeTyping

/-! ### Backings -/

namespace Ty

variable {a b c : Ty}

/-- One of two types is an abstract composed type and the other its backing. -/
def Backs (a b : Ty) : Prop := a.backing? = some b ∨ b.backing? = some a

theorem Backs.symm (h : Backs a b) : Backs b a := Or.symm h

theorem backing?_inj (ha : a.backing? = some c) (hb : b.backing? = some c) : a = b := by
  cases a <;> cases ha <;> cases b <;> cases hb <;> rfl

theorem backing?_backing (h : a.backing? = some b) : b.backing? = none := by
  cases a <;> cases h <;> rfl

theorem Backs.not_nominal (h : Backs a b) : a.isNominal = false := by
  rcases h with h | h
  · cases a <;> first | rfl | cases h
  · cases b <;> cases h <;> rfl

/-- There is one backing to each abstract composed type, and one such type to each backing. -/
theorem Backs.unique (hab : Backs a b) (hcb : Backs c b) : a = c := by
  rcases hab with ha | hb
  · rcases hcb with hc | hb
    · exact backing?_inj ha hc
    · rw [backing?_backing ha] at hb
      cases hb
  · rcases hcb with hc | hb'
    · rw [backing?_backing hc] at hb
      cases hb
    · exact Option.some.inj (hb.symm.trans hb')

end Ty

namespace Registry

variable {r : Registry}

/-! ### The ways to store a value -/

theorem satisfies_eq_true {t : Ty} {i : Nominal} :
    r.satisfies t i = .ok true ↔ r.firstMismatch t i = .ok none := by
  rw [satisfies, Except.bind_eq_ok]
  constructor
  · rintro ⟨m, hm, hnone⟩
    rw [hm, Option.isNone_iff_eq_none.1 (Except.ok.inj hnone)]
  · intro hm
    exact ⟨none, hm, rfl⟩

/-- Where no interface is declared, a value can be stored by its own type and across a backing. -/
theorem isAssignable_of_not_interface {target : Ty} (h : ∀ i, target ≠ .interface i) (source : Ty) :
    ∃ b, r.isAssignable target source = .ok b ∧
      (b = true ↔ target = source ∨ target.Backs source) := by
  unfold isAssignable
  by_cases hsame : target = source
  · exact ⟨true, if_pos hsame, by simp [hsame]⟩
  · rw [if_neg hsame]
    split
    · next i => exact absurd rfl (h i)
    · split
      · next backing hbacking =>
          refine ⟨_, rfl, ?_⟩
          have hsource (hback : source.backing? = some target) : False := by
            rw [Ty.backing?_backing hback] at hbacking
            cases hbacking
          simp only [decide_eq_true_eq, hsame, false_or, Ty.Backs, hbacking, Option.some.injEq]
          exact ⟨.inl, fun hback => hback.resolve_right hsource⟩
      · next hnone =>
          split
          · next backing hbacking =>
              refine ⟨_, rfl, ?_⟩
              simp [hsame, Ty.Backs, hnone, hbacking]
          · next hnone' => exact ⟨false, rfl, by simp [hsame, Ty.Backs, hnone, hnone']⟩

/-- **The ways to store a value**: by its own type, under an interface, and across a backing. -/
theorem assignable_iff {target source : Ty} : r.Assignable target source ↔
    target = source ∨ (∃ i, target = .interface i ∧ r.firstMismatch source i = .ok none) ∨
      target.Backs source := by
  by_cases hinterface : ∃ i, target = .interface i
  · obtain ⟨i, rfl⟩ := hinterface
    have hback : ¬Ty.Backs (.interface i) source := fun hback => Bool.noConfusion hback.not_nominal
    rw [Assignable, isAssignable]
    by_cases hsame : Ty.interface i = source
    · simp [hsame]
    · rw [if_neg hsame]
      show r.satisfies source i = .ok true ↔ _
      simp [satisfies_eq_true, hsame, hback]
  · have hother : ∀ i, target ≠ .interface i := not_exists.1 hinterface
    obtain ⟨b, hb, hiff⟩ := isAssignable_of_not_interface (r := r) hother source
    rw [Assignable, hb, Except.ok.injEq, hiff]
    simp [hother]

theorem assignable_interface_iff {i : Nominal} {t : Ty} :
    r.Assignable (.interface i) t ↔ r.firstMismatch t i = .ok none := by
  rw [assignable_iff]
  constructor
  · rintro (rfl | ⟨_, hi, hnone⟩ | hback)
    · exact firstMismatch_eq_none.2 (.inl (.inr rfl))
    · cases hi
      exact hnone
    · exact Bool.noConfusion hback.not_nominal
  · exact fun hnone => .inr (.inl ⟨i, rfl, hnone⟩)

/-! ### Two steps in a row -/

theorem assignable_interface_trans {i j : Nominal} {t : Ty} (hi : r.Assignable (.interface i) t)
    (hj : r.Assignable (.interface j) (.interface i)) : r.Assignable (.interface j) t := by
  rw [assignable_interface_iff] at hi hj ⊢
  exact firstMismatch_trans hi hj

/-- A composed type satisfies only the interfaces that require nothing. -/
theorem InOrder.required_eq_nil (h : r.InOrder) {t : Ty} (ht : t.isNominal = false) {i : Nominal}
    (hi : r.firstMismatch t i = .ok none) : r.required i = [] := by
  rcases firstMismatch_eq_none.1 hi with (hempty | hsame) | ⟨ms, hms, hmet⟩
  · exact hempty
  · rw [hsame] at ht
    cases ht
  · rw [h.membersOf_eq_nil ht] at hms
    cases hms
    refine List.eq_nil_iff_forall_not_mem.2 fun e he => ?_
    obtain ⟨m, hm, -⟩ := hmet e he
    cases hm

theorem InOrder.assignable_trans (h : r.InOrder) {a b c : Ty} (hab : r.Assignable b a)
    (hbc : r.Assignable c b) : r.Assignable c a := by
  rcases assignable_iff.1 hbc with rfl | ⟨i, rfl, hi⟩ | hback
  · exact hab
  · rcases assignable_iff.1 hab with rfl | ⟨j, rfl, hj⟩ | hback
    · exact hbc
    · exact assignable_iff.2 (.inr (.inl ⟨i, rfl, firstMismatch_trans hj hi⟩))
    · -- what a composed type satisfies requires nothing
      have hempty := h.required_eq_nil hback.not_nominal hi
      exact assignable_iff.2 (.inr (.inl ⟨i, rfl, firstMismatch_eq_none.2 (.inl (.inl hempty))⟩))
  · rcases assignable_iff.1 hab with rfl | ⟨j, rfl, -⟩ | hback'
    · exact hbc
    · exact Bool.noConfusion hback.symm.not_nominal
    · rw [hback.unique hback'.symm]
      exact assignable_refl a

theorem InOrder.isAssignable_total (h : r.InOrder) {target source : Ty} (hsource : r.Over source) :
    ∃ b, r.isAssignable target source = .ok b := by
  by_cases hinterface : ∃ i, target = .interface i
  · obtain ⟨i, rfl⟩ := hinterface
    obtain ⟨ms, hms⟩ := h.membersOf_total hsource
    unfold isAssignable
    split
    · exact ⟨true, rfl⟩
    · show ∃ b, r.satisfies source i = .ok b
      rw [satisfies, firstMismatch]
      split
      · exact ⟨_, rfl⟩
      · rw [hms]
        exact ⟨_, rfl⟩
  · obtain ⟨b, hb, -⟩ := isAssignable_of_not_interface (r := r) (not_exists.1 hinterface) source
    exact ⟨b, hb⟩

/-- Where no interface is declared, values can be stored both ways or neither. -/
theorem isAssignable_comm {a b : Ty} (ha : ∀ i, a ≠ .interface i) (hb : ∀ i, b ≠ .interface i) :
    r.isAssignable a b = r.isAssignable b a := by
  obtain ⟨v, hv, hviff⟩ := isAssignable_of_not_interface (r := r) ha b
  obtain ⟨w, hw, hwiff⟩ := isAssignable_of_not_interface (r := r) hb a
  have hiff : v = true ↔ w = true := by
    rw [hviff, hwiff, eq_comm, or_congr_right ⟨Ty.Backs.symm, Ty.Backs.symm⟩]
  rw [hv, hw, Bool.eq_iff_iff.2 hiff]

/--
**Assignability is a preorder on the types over a registry**, and symmetric on those that are no
interface.  It is decided for all of them, and the answer of the registry is what an inference
concludes.
-/
theorem assignable_preorder (h : r.Produced) :
    (∀ a, r.Over a → r.isAssignable a a = .ok true) ∧
    (∀ a b c, r.Over a → r.Over b → r.Over c →
      r.isAssignable b a = .ok true → r.isAssignable c b = .ok true →
        r.isAssignable c a = .ok true) ∧
    (∀ a b, r.Over a → r.Over b → (∀ i, a ≠ .interface i) → (∀ i, b ≠ .interface i) →
      r.isAssignable b a = r.isAssignable a b) ∧
    (∀ a b, r.Over a → r.Over b → ∃ v, r.isAssignable b a = .ok v) ∧
    ∀ a b, (Inference.assignable r b a).result = r.isAssignable b a := by
  refine ⟨fun a _ => assignable_refl a, ?_, ?_, ?_, ?_⟩
  · intro a b c _ _ _ hab hbc
    exact h.inOrder.assignable_trans hab hbc
  · intro a b _ _ ha hb
    exact isAssignable_comm hb ha
  · intro a b ha _
    exact h.inOrder.isAssignable_total ha
  · intro a b
    exact Inference.assignable_result b a

/--
A box is labelled and so it has a size; the alias of the box has no method of its own and is
neither.  A list of boxes can be stored as an array of them and back.
-/
theorem assignable_preorder_shelf : ∃ r : Registry, r.Produced ∧
    r.isAssignable (.interface ⟨2, "Labelled"⟩) (.struct ⟨3, "Box"⟩) = .ok true ∧
    r.isAssignable (.interface ⟨1, "Sized"⟩) (.interface ⟨2, "Labelled"⟩) = .ok true ∧
    r.isAssignable (.interface ⟨1, "Sized"⟩) (.struct ⟨3, "Box"⟩) = .ok true ∧
    r.isAssignable (.interface ⟨2, "Labelled"⟩) (.interface ⟨1, "Sized"⟩) = .ok false ∧
    r.isAssignable (.interface ⟨1, "Sized"⟩) (.alias ⟨4, "Crate"⟩) = .ok false ∧
    r.isAssignable (.list (.struct ⟨3, "Box"⟩)) (.array (.struct ⟨3, "Box"⟩) none) = .ok true ∧
    r.isAssignable (.array (.struct ⟨3, "Box"⟩) none) (.list (.struct ⟨3, "Box"⟩)) = .ok true := by
  have hrun : shelved.toOption.map (fun r =>
      (decide (r.Over (.struct ⟨3, "Box"⟩) ∧ r.Over (.interface ⟨2, "Labelled"⟩) ∧
        r.Over (.interface ⟨1, "Sized"⟩)),
       (r.isAssignable (.interface ⟨2, "Labelled"⟩) (.struct ⟨3, "Box"⟩)).toOption,
       (r.isAssignable (.interface ⟨1, "Sized"⟩) (.interface ⟨2, "Labelled"⟩)).toOption,
       (r.isAssignable (.interface ⟨2, "Labelled"⟩) (.interface ⟨1, "Sized"⟩)).toOption,
       (r.isAssignable (.interface ⟨1, "Sized"⟩) (.alias ⟨4, "Crate"⟩)).toOption)) =
      some (true, some true, some true, some false, some false) := by decide +kernel
  obtain ⟨r, hr, hanswers⟩ := Option.map_eq_some_iff.1 hrun
  have hproduced : r.Produced := shelved_produced (Except.toOption_eq_some.1 hr)
  simp only [Prod.mk.injEq, decide_eq_true_eq, Except.toOption_eq_some] at hanswers
  obtain ⟨⟨hbox, hlabelled, hsized⟩, hstored, hwidened, hnarrowed, hcrate⟩ := hanswers
  obtain ⟨-, htrans, hsymm, -, -⟩ := assignable_preorder hproduced
  have hlist : r.isAssignable (.list (.struct ⟨3, "Box"⟩)) (.array (.struct ⟨3, "Box"⟩) none) = .ok
      true := by
    simp [isAssignable, Ty.backing?]
  exact ⟨r, hproduced, hstored, hwidened, htrans _ _ _ hbox hlabelled hsized hstored hwidened,
    hnarrowed, hcrate, hlist,
    (hsymm (.list (.struct ⟨3, "Box"⟩)) (.array (.struct ⟨3, "Box"⟩) none) hbox hbox (by simp)
      (by simp)).trans hlist⟩

end Registry

end TreeTyping
