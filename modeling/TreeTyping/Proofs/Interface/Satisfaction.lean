/-
What a question about an interface comes to.

`FirstUnmet` says without running through the requirements which of them is the first that is not
met: all before it are, it is not, and what is found under its name is found by looking there.
Where no requirement is unmet there is nothing to report.  This fixes the answer, and `firstUnmet`
gives it.

Some questions are answered without looking at members.  In a registry in order this makes no
difference, as an interface exposes what it requires, and nothing is missing where nothing is
required.  So each question about types over such a registry has the answer that the members give.
-/
import TreeTyping.Proofs.Registry.Produced

namespace TreeTyping.Registry

variable {r : Registry} {members requirements : Keyed Member}

/-! ### The first requirement that is not met -/

/-- What is required under a name is there, with the same kind and the same type. -/
def Provides (members : Keyed Member) (e : String × Member) : Prop :=
  ∃ found, members.find? e.1 = some found ∧ found.kind = e.2.kind ∧ found.type = e.2.type

/-- The first requirement that is not met, if any, with the member found in its place. -/
def FirstUnmet (members requirements : Keyed Member) : Option MemberMismatch → Prop
  | none => ∀ e ∈ requirements, Provides members e
  | some m => ∃ before rest, requirements = before ++ (m.required.name, m.required) :: rest ∧
      (∀ e ∈ before, Provides members e) ∧ ¬Provides members (m.required.name, m.required) ∧
      m.found = members.find? m.required.name

/-- A requirement that is met can be left out in front. -/
theorem firstUnmet_cons_of_provides {e : String × Member} (he : Provides members e)
    {a : Option MemberMismatch} :
    FirstUnmet members (e :: requirements) a ↔ FirstUnmet members requirements a := by
  cases a with
  | none => simp [FirstUnmet, he]
  | some m =>
    constructor
    · rintro ⟨before, rest, hsplit, hbefore, hunmet, hfound⟩
      cases before with
      | nil =>
        obtain ⟨rfl, -⟩ := List.cons.inj hsplit
        exact absurd he hunmet
      | cons first before =>
        obtain ⟨-, hrest⟩ := List.cons.inj hsplit
        exact ⟨before, rest, hrest, (List.forall_mem_cons.1 hbefore).2, hunmet, hfound⟩
    · rintro ⟨before, rest, rfl, hbefore, hunmet, hfound⟩
      exact ⟨e :: before, rest, rfl, List.forall_mem_cons.2 ⟨he, hbefore⟩, hunmet, hfound⟩

theorem firstUnmet_cons_of_not_provides {m : Member} (hm : ¬Provides members (m.name, m))
    {a : Option MemberMismatch} :
    FirstUnmet members ((m.name, m) :: requirements) a ↔ a = some ⟨m, members.find? m.name⟩ := by
  cases a with
  | none => simp [FirstUnmet, hm]
  | some mismatch =>
    constructor
    · rintro ⟨before, rest, hsplit, hbefore, -, hfound⟩
      cases before with
      | nil =>
        obtain ⟨required, found⟩ := mismatch
        obtain ⟨hrequired, -⟩ := List.cons.inj hsplit
        cases (Prod.mk.inj hrequired).2
        dsimp only at hfound
        rw [hfound]
      | cons first before =>
        obtain ⟨rfl, -⟩ := List.cons.inj hsplit
        exact absurd (List.forall_mem_cons.1 hbefore).1 hm
    · intro hsame
      cases hsame
      exact ⟨[], requirements, rfl, List.forall_mem_nil _, hm, rfl⟩

/-- **Running through the requirements finds the first that is not met, and that alone.** -/
theorem firstUnmet_iff (hown : ∀ e ∈ requirements, e.2.name = e.1) {a : Option MemberMismatch} :
    FirstUnmet members requirements a ↔ a = firstUnmet members requirements := by
  induction requirements with
  | nil =>
    cases a with
    | none => simp [FirstUnmet, firstUnmet]
    | some m => simp [FirstUnmet, firstUnmet]
  | cons e rest ih =>
    obtain ⟨name, m⟩ := e
    obtain ⟨hname, hrest⟩ := List.forall_mem_cons.1 hown
    dsimp only at hname
    subst hname
    by_cases hprovides : Provides members (m.name, m)
    · rw [firstUnmet_cons_of_provides hprovides, ih hrest]
      obtain ⟨found, hfound, hmeets⟩ := hprovides
      have hmeets : Meets found m := hmeets
      simp [firstUnmet, hfound, hmeets]
    · rw [firstUnmet_cons_of_not_provides hprovides, firstUnmet]
      rcases hfound : members.find? m.name with _ | found
      · rfl
      · have hunmet : ¬Meets found m := fun hmeets => hprovides ⟨found, hfound, hmeets⟩
        simp [hunmet]

theorem provides_own (h : Member.OwnNames members) : ∀ e ∈ members, Provides members e :=
  fun e he => ⟨e.2, Keyed.find?_of_mem h.distinct he, rfl, rfl⟩

/-! ### Answers -/

/-- The members of a type give this answer to the question whether it satisfies an interface. -/
def Answers (r : Registry) (t : Ty) (i : Nominal) (a : Option MemberMismatch) : Prop :=
  ∃ members, r.membersOf t = .ok members ∧ FirstUnmet members (r.required i) a

namespace InOrder

variable (h : r.InOrder)

include h

theorem answers_unique {t : Ty} {i : Nominal} {a b : Option MemberMismatch} (ha : r.Answers t i a)
    (hb : r.Answers t i b) : a = b := by
  obtain ⟨members, hmembers, ha⟩ := ha
  obtain ⟨members', hmembers', hb⟩ := hb
  cases hmembers.symm.trans hmembers'
  have hown := (h.required i).own
  rw [(firstUnmet_iff hown).1 ha, (firstUnmet_iff hown).1 hb]

/-- **A question about a type over the registry has an answer, the one that its members give.** -/
theorem firstMismatch_answers {t : Ty} (ht : r.Over t) (i : Nominal) :
    ∃ a, r.firstMismatch t i = .ok a ∧ r.Answers t i a := by
  obtain ⟨members, hmembers⟩ := h.membersOf_total ht
  rw [firstMismatch]
  by_cases htrivial : r.isTrivial t i = true
  · rw [if_pos htrivial]
    refine ⟨none, rfl, members, hmembers, ?_⟩
    rcases isTrivial_iff.1 htrivial with hempty | rfl
    · rw [hempty]
      exact List.forall_mem_nil _
    · cases hmembers
      exact provides_own (h.required i)
  · rw [if_neg htrivial, hmembers]
    exact ⟨_, rfl, members, hmembers, (firstUnmet_iff (h.required i).own).2 rfl⟩

end InOrder

end TreeTyping.Registry
