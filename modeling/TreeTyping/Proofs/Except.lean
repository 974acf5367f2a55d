/-
Results of computations that may fail.

A computation in steps succeeds exactly when its steps do, one after the other.  Over a list this
gives an invariant of the run from one of its steps, where the invariant may speak about the items
that have been dealt with.

Two computations agree when they succeed with related results or fail in the same way.  Computations
in steps agree when their steps do.
-/
import Mathlib.Data.List.Forall2

namespace TreeTyping.Except

open List

variable {ε α β : Type}

theorem bind_eq_ok {x : Except ε α} {f : α → Except ε β} {b : β} :
    x >>= f = .ok b ↔ ∃ a, x = .ok a ∧ f a = .ok b := by
  cases x with
  | error e => exact ⟨nofun, fun ⟨_, h, _⟩ => nomatch h⟩
  | ok a =>
    constructor
    · exact fun h => ⟨a, rfl, h⟩
    · rintro ⟨_, ha, hb⟩
      cases ha
      exact hb

theorem bind_eq_error {x : Except ε α} {f : α → Except ε β} {e : ε} :
    x >>= f = .error e ↔ x = .error e ∨ ∃ a, x = .ok a ∧ f a = .error e := by
  cases x with
  | ok a => exact ⟨fun h => .inr ⟨a, rfl, h⟩, by rintro (h | ⟨_, h, hf⟩) <;> cases h; exact hf⟩
  | error e' => exact ⟨fun h => .inl (by cases h; rfl), by rintro (h | ⟨_, h, -⟩) <;> cases h; rfl⟩

theorem map_eq_ok {x : Except ε α} {f : α → β} {b : β} :
    x.map f = .ok b ↔ ∃ a, x = .ok a ∧ f a = b := by
  cases x <;> simp [Except.map]

theorem map_eq_error {x : Except ε α} {f : α → β} {e : ε} : x.map f = .error e ↔ x = .error e := by
  cases x <;> simp [Except.map]

/-- A result that is known without its failure. -/
theorem toOption_eq_some {x : Except ε α} {a : α} : x.toOption = some a ↔ x = .ok a := by
  cases x <;> simp [Except.toOption]

theorem mapM_eq_ok {f : α → Except ε β} {xs : List α} {ys : List β} :
    xs.mapM f = .ok ys ↔ List.Forall₂ (fun x y => f x = .ok y) xs ys := by
  induction xs generalizing ys with
  | nil =>
    rw [mapM_nil, forall₂_nil_left_iff]
    exact ⟨fun h => (Except.ok.inj h).symm, fun h => h ▸ rfl⟩
  | cons x rest ih =>
    rw [mapM_cons, bind_eq_ok, forall₂_cons_left_iff]
    constructor
    · rintro ⟨y, hy, h⟩
      obtain ⟨out, hrest, hout⟩ := bind_eq_ok.1 h
      exact ⟨y, out, hy, ih.1 hrest, (Except.ok.inj hout).symm⟩
    · rintro ⟨y, out, hy, hrest, rfl⟩
      exact ⟨y, hy, bind_eq_ok.2 ⟨out, ih.2 hrest, rfl⟩⟩

/-- Of two lists side by side, what is in the first has something in the second beside it. -/
theorem forall₂_exists {R : α → β → Prop} {xs : List α} {ys : List β} (h : List.Forall₂ R xs ys)
    {x : α} (hx : x ∈ xs) : ∃ y ∈ ys, R x y := by
  induction h with
  | nil => cases hx
  | cons hxy _ ih =>
    rcases mem_cons.1 hx with rfl | hx
    · exact ⟨_, mem_cons_self, hxy⟩
    · obtain ⟨y, hy, hxy⟩ := ih hx
      exact ⟨y, mem_cons_of_mem _ hy, hxy⟩

/-- A run over a list succeeds where all its items do. -/
theorem mapM_total {f : α → Except ε β} {xs : List α} (h : ∀ x ∈ xs, ∃ y, f x = .ok y) :
    ∃ ys, xs.mapM f = .ok ys := by
  induction xs with
  | nil => exact ⟨[], rfl⟩
  | cons x rest ih =>
    obtain ⟨⟨y, hy⟩, hrest⟩ := forall_mem_cons.1 h
    obtain ⟨ys, hys⟩ := ih hrest
    rw [mapM_cons, hy, hys]
    exact ⟨y :: ys, rfl⟩

/-- What a run over a list comes to are the results of its items. -/
theorem mapM_mem {f : α → Except ε β} {xs : List α} {ys : List β} (h : xs.mapM f = .ok ys) :
    ∀ y ∈ ys, ∃ x ∈ xs, f x = .ok y := by
  intro y hy
  exact forall₂_exists (mapM_eq_ok.1 h).flip hy

/-- A run over a list comes to the images of what another comes to, where each of its items does. -/
theorem mapM_map {γ : Type} {f : α → Except ε β} {g : α → Except ε γ} {k : β → γ} {xs : List α}
    (h : ∀ x ∈ xs, g x = (f x).map k) : xs.mapM g = (xs.mapM f).map (List.map k) := by
  induction xs with
  | nil => rfl
  | cons x rest ih =>
    obtain ⟨hx, hrest⟩ := forall_mem_cons.1 h
    rw [mapM_cons, mapM_cons, hx, ih hrest]
    rcases f x with e | y
    · rfl
    · rcases rest.mapM f with e | ys <;> rfl

/-- A run over a list fails where the first item fails that does. -/
theorem mapM_eq_error_iff {f : α → Except ε β} {xs : List α} {e : ε} :
    xs.mapM f = .error e ↔ ∃ before x after, xs = before ++ x :: after ∧
      (∀ y ∈ before, ∃ b, f y = .ok b) ∧ f x = .error e := by
  constructor
  · intro h
    induction xs with
    | nil => cases h
    | cons x rest ih =>
      rw [mapM_cons] at h
      rcases bind_eq_error.1 h with hx | ⟨y, hy, h⟩
      · exact ⟨[], x, rest, rfl, forall_mem_nil _, hx⟩
      · rcases bind_eq_error.1 h with hrest | ⟨ys, -, h⟩
        · obtain ⟨before, z, after, rfl, hbefore, hz⟩ := ih hrest
          exact ⟨x :: before, z, after, rfl, forall_mem_cons.2 ⟨⟨y, hy⟩, hbefore⟩, hz⟩
        · cases h
  · rintro ⟨before, x, after, rfl, hbefore, hx⟩
    obtain ⟨ys, hys⟩ := mapM_total hbefore
    rw [mapM_append, mapM_cons, hys, hx]
    rfl

/-- A run over a list that fails does so at one of its items. -/
theorem mapM_eq_error {f : α → Except ε β} {xs : List α} {e : ε} (h : xs.mapM f = .error e) :
    ∃ x ∈ xs, f x = .error e := by
  obtain ⟨before, x, after, rfl, -, hx⟩ := mapM_eq_error_iff.1 h
  exact ⟨x, mem_append_right _ mem_cons_self, hx⟩

/-- What holds at the start and is kept by every step holds at the end. -/
theorem foldlM_invariant {f : β → α → Except ε β} {P : List α → β → Prop} {xs : List α}
    (hstep : ∀ done a rest b b', xs = done ++ a :: rest → P done b → f b a = .ok b' →
      P (done ++ [a]) b')
    {init out : β} (h0 : P [] init) (h : xs.foldlM f init = .ok out) : P xs out := by
  suffices ∀ rest done b, xs = done ++ rest → P done b → rest.foldlM f b = .ok out → P xs out from
    this xs [] init rfl h0 h
  intro rest
  induction rest with
  | nil =>
    intro done b hxs hb h
    cases h
    rwa [hxs, append_nil]
  | cons a rest ih =>
    intro done b hxs hb h
    rw [foldlM_cons] at h
    obtain ⟨b', hb', h⟩ := bind_eq_ok.1 h
    exact ih (done ++ [a]) b' (by rw [hxs, append_cons]) (hstep done a rest b b' hxs hb hb') h

/-- Steps that succeed wherever the invariant holds come to an end, where it holds too. -/
theorem foldlM_total {f : β → α → Except ε β} {P : List α → β → Prop} {xs : List α}
    (hstep : ∀ done a rest b, xs = done ++ a :: rest → P done b →
      ∃ b', f b a = .ok b' ∧ P (done ++ [a]) b')
    {init : β} (h0 : P [] init) : ∃ out, xs.foldlM f init = .ok out ∧ P xs out := by
  suffices ∀ rest done b, xs = done ++ rest → P done b → ∃ out, rest.foldlM f b = .ok out ∧
    P xs out from this xs [] init rfl h0
  intro rest
  induction rest with
  | nil =>
    intro done b hxs hb
    exact ⟨b, rfl, by rwa [hxs, append_nil]⟩
  | cons a rest ih =>
    intro done b hxs hb
    obtain ⟨b', hb', hP⟩ := hstep done a rest b hxs hb
    obtain ⟨out, hout, hend⟩ := ih (done ++ [a]) b' (by rw [hxs, append_cons]) hP
    refine ⟨out, ?_, hend⟩
    rw [foldlM_cons, hb']
    exact hout

/-! ### What a computation comes to -/

/-- Whatever a computation comes to has the property; it may also fail. -/
def Yields (x : Except ε α) (P : α → Prop) : Prop := ∀ a, x = .ok a → P a

namespace Yields

variable {P : α → Prop} {Q : β → Prop} {x : Except ε α}

theorem ok {a : α} (h : P a) : Yields (.ok a : Except ε α) P := by
  intro _ ha
  cases ha
  exact h

theorem error (e : ε) : Yields (.error e : Except ε α) P := by
  intro _ ha
  cases ha

theorem bind (hx : Yields x P) {f : α → Except ε β} (hf : ∀ a, P a → Yields (f a) Q) :
    Yields (x >>= f) Q := by
  intro b hb
  obtain ⟨a, ha, hb⟩ := bind_eq_ok.1 hb
  exact hf a (hx a ha) b hb

/-- A step whose result does not matter. -/
theorem skip {f : α → Except ε β} (hf : ∀ a, Yields (f a) Q) : Yields (x >>= f) Q := by
  intro b hb
  obtain ⟨a, -, hb⟩ := bind_eq_ok.1 hb
  exact hf a b hb

theorem mapM {f : α → Except ε β} {xs : List α} (h : ∀ x ∈ xs, Yields (f x) Q) :
    Yields (xs.mapM f) fun ys => ∀ y ∈ ys, Q y := by
  intro ys hys y hy
  obtain ⟨x, hx, hy⟩ := mapM_mem hys y hy
  exact h x hx y hy

end Yields

/-! ### Computations in step -/

/-- Two computations succeed with related results, or fail in the same way. -/
inductive Agree (R : α → β → Prop) : Except ε α → Except ε β → Prop
  | ok {a : α} {b : β} (h : R a b) : Agree R (.ok a) (.ok b)
  | error (e : ε) : Agree R (.error e) (.error e)

namespace Agree

variable {γ δ : Type} {R : α → β → Prop} {Q : γ → δ → Prop} {x : Except ε α} {y : Except ε β}

theorem bind (h : Agree R x y) {f : α → Except ε γ} {g : β → Except ε δ}
    (hf : ∀ a b, R a b → Agree Q (f a) (g b)) : Agree Q (x >>= f) (y >>= g) := by
  cases h with
  | ok hab => exact hf _ _ hab
  | error e => exact .error e

/-- Where the first succeeds so does the second. -/
theorem exists_ok (h : Agree R x y) {a : α} (hx : x = .ok a) : ∃ b, y = .ok b ∧ R a b := by
  cases h with
  | ok hab =>
    cases hx
    exact ⟨_, rfl, hab⟩
  | error e => cases hx

/-- Two computations that choose alike agree where both choices do. -/
theorem ite (b : Prop) [Decidable b] {x₁ x₂ : Except ε α} {y₁ y₂ : Except ε β} (h₁ : Agree R x₁ y₁)
    (h₂ : Agree R x₂ y₂) : Agree R (if b then x₁ else x₂) (if b then y₁ else y₂) := by
  split
  · exact h₁
  · exact h₂

/-- A computation agrees with one that comes to the image of its result. -/
theorem of_map {f : α → β} (h : y = x.map f) : Agree (fun a b => b = f a) x y := by
  rw [h]
  cases x with
  | ok a => exact .ok rfl
  | error e => exact .error e

theorem foldlM {ι : Type} {f : α → ι → Except ε α} {g : β → ι → Except ε β}
    (hstep : ∀ a b i, R a b → Agree R (f a i) (g b i)) {a : α} {b : β} (h : R a b)
    (items : List ι) :
    Agree R (items.foldlM f a) (items.foldlM g b) := by
  induction items generalizing a b with
  | nil => exact .ok h
  | cons i rest ih =>
    rw [foldlM_cons, foldlM_cons]
    exact (hstep a b i h).bind fun _ _ => ih

theorem mapM {ι κ : Type} {f : ι → Except ε α} {g : κ → Except ε β} {k : ι → κ} {items : List ι}
    (h : ∀ i, Agree R (f i) (g (k i))) : Agree (List.Forall₂ R) (items.mapM f)
      ((items.map k).mapM g) := by
  induction items with
  | nil => exact .ok .nil
  | cons i rest ih =>
    rw [map_cons, mapM_cons, mapM_cons]
    exact (h i).bind fun _ _ hab => ih.bind fun _ _ hrest => .ok (.cons hab hrest)

end Agree

end TreeTyping.Except
