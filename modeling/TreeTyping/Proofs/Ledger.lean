/-
Accounts of what is reported.

A pass takes items one after the other, and each of its steps may report something.  A ledger lists
what has been reported in order, each diagnostic under the position that it is charged to: the
item's own, or that of the entry which the item comes from.  `Charged` is a run of a pass together
with its ledger, step by step, so a ledger that belongs to a run lists all that was reported and
nothing else.
-/
import Mathlib.Data.List.Nodup
import TreeTyping.Failure
import TreeTyping.Proofs.Except
import TreeTyping.Syntax.Basic

namespace TreeTyping

open List

/-- Diagnostics in order, each with the position it is charged to. -/
abbrev Ledger := List (Nat × Diagnostic)

namespace Ledger

/-- Several diagnostics, charged to one position. -/
def charge (i : Nat) (ds : List Diagnostic) : Ledger := ds.map fun d => (i, d)

/-- What has been reported, whatever it is charged to. -/
def diagnostics (l : Ledger) : List Diagnostic := l.map Prod.snd

/-- The positions that something is charged to, one for each diagnostic. -/
def positions (l : Ledger) : List Nat := l.map Prod.fst

/-- The number of errors. -/
def errors (l : Ledger) : Nat := l.countP fun e => e.2.isError

/-- The number of errors that are charged to a position. -/
def errorsAt (l : Ledger) (i : Nat) : Nat := l.countP fun e => e.1 == i && e.2.isError

@[simp] theorem diagnostics_append (l l' : Ledger) :
    diagnostics (l ++ l') = diagnostics l ++ diagnostics l' := map_append

@[simp] theorem diagnostics_charge (i : Nat) (ds : List Diagnostic) :
    diagnostics (charge i ds) = ds := by
  simp [diagnostics, charge, Function.comp_def]

@[simp] theorem positions_append (l l' : Ledger) :
    positions (l ++ l') = positions l ++ positions l' :=
  map_append

theorem errorsAt_append (l l' : Ledger) (i : Nat) :
    errorsAt (l ++ l') i = errorsAt l i + errorsAt l' i :=
  countP_append

theorem errorsAt_charge_self (i : Nat) (ds : List Diagnostic) :
    errorsAt (charge i ds) i = (ds.filter Diagnostic.isError).length := by
  rw [errorsAt, charge, countP_map, countP_eq_length_filter]
  simp [Function.comp_def]

theorem errorsAt_eq_zero {l : Ledger} {i : Nat} (h : i ∉ positions l) : errorsAt l i = 0 := by
  rw [errorsAt, countP_eq_zero]
  intro e he hi
  have hhere : e.1 = i ∧ e.2.isError = true := by simpa using hi
  exact h (hhere.1 ▸ mem_map_of_mem he)

theorem eq_of_mem_positions_charge {i j : Nat} {ds : List Diagnostic}
    (h : i ∈ positions (charge j ds)) : i = j := by
  obtain ⟨e, he, rfl⟩ := mem_map.1 h
  obtain ⟨d, -, rfl⟩ := mem_map.1 he
  rfl

theorem errorsAt_charge_ne {i j : Nat} (h : i ≠ j) (ds : List Diagnostic) :
    errorsAt (charge j ds) i = 0 :=
  errorsAt_eq_zero fun hmem => h (eq_of_mem_positions_charge hmem)

/-- A ledger of errors alone charges a position with as many as it has diagnostics. -/
theorem errorsAt_eq_count {l : Ledger} (h : ∀ e ∈ l, e.2.isError = true) (i : Nat) :
    errorsAt l i = (positions l).count i := by
  rw [errorsAt, positions, List.count, countP_map]
  refine countP_congr fun e he => ?_
  simp [h e he]

theorem errors_eq_length {l : Ledger} (h : ∀ e ∈ l, e.2.isError = true) : errors l = l.length :=
  countP_eq_length.2 h

end Ledger

/-! ### Entries -/

/-- Whether an entry is a declaration that passes a test. -/
def Entry.passes {α : Type} (test : α → Bool) : Entry α → Bool
  | .proper a => test a
  | .foreign _ => false

/-- The position of the first entry that passes a test. -/
def positionOf {α : Type} (test : α → Bool) (entries : List (Entry α)) :
    Nat := entries.findIdx (Entry.passes test)

section PositionOf

variable {α : Type} {test : α → Bool} {entries : List (Entry α)} {i : Nat} {a : α}

theorem positionOf_eq (hi : entries[i]? = some (.proper a)) (ha : test a = true)
    (hfirst : ∀ j b, j < i → entries[j]? = some (.proper b) → test b = false) :
    positionOf test entries = i := by
  obtain ⟨hlt, hentry⟩ := List.getElem?_eq_some_iff.1 hi
  rw [positionOf, findIdx_eq hlt]
  refine ⟨by simp [hentry, Entry.passes, ha], fun j hj => ?_⟩
  rcases hother : entries[j] with b | f
  · exact hfirst j b hj (List.getElem?_eq_some_iff.2 ⟨by omega, hother⟩)
  · rfl

theorem positionOf_le (hi : entries[i]? = some (.proper a)) (ha : test a = true) :
    positionOf test entries ≤ i := by
  obtain ⟨hlt, hentry⟩ := List.getElem?_eq_some_iff.1 hi
  refine Nat.le_of_not_lt fun hbefore => ?_
  have hnot := not_of_lt_findIdx hbefore
  simp [hentry, Entry.passes, ha] at hnot

end PositionOf

/-! ### Entries that are kept or charged -/

/-- Of so many entries, those at the positions `kept` are kept, and each other is charged once. -/
def Divided (kept : List Nat) (l : Ledger) (n : Nat) :
    Prop := (kept ++ l.positions).Perm (List.range n)

namespace Divided

variable {kept : List Nat} {l : Ledger} {n i : Nat}

theorem nil : Divided [] [] 0 := List.Perm.nil

theorem keep (h : Divided kept l n) : Divided (kept ++ [n]) l (n + 1) := by
  rw [Divided, range_succ, append_assoc]
  refine (List.Perm.append_left kept perm_append_comm).trans ?_
  rw [← append_assoc]
  exact h.append_right _

theorem charge (h : Divided kept l n) (d : Diagnostic) :
    Divided kept (l ++ Ledger.charge n [d]) (n + 1) := by
  rw [Divided, range_succ, Ledger.positions_append, ← append_assoc]
  exact h.append_right _

theorem nodup (h : Divided kept l n) : (kept ++ l.positions).Nodup := h.nodup_iff.2 nodup_range

theorem lt_of_mem (h : Divided kept l n) (hi : i ∈ kept ++ l.positions) : i < n :=
  mem_range.1 (h.mem_iff.1 hi)

theorem count_of_kept (h : Divided kept l n) (hi : i ∈ kept) : l.positions.count i = 0 :=
  count_eq_zero.2 fun hmem => disjoint_of_nodup_append h.nodup hi hmem

theorem count_of_not_kept (h : Divided kept l n) (hi : i < n) (hkept : i ∉ kept) :
    l.positions.count i = 1 := by
  have hmem : i ∈ kept ++ l.positions := h.mem_iff.2 (mem_range.2 hi)
  exact count_eq_one_of_mem (nodup_append.1 h.nodup).2.1 ((mem_append.1 hmem).resolve_left hkept)

theorem count_le_one (h : Divided kept l n) (i : Nat) : kept.count i + l.positions.count i ≤ 1 := by
  rw [← count_append]
  exact nodup_iff_count_le_one.1 h.nodup i

theorem length_eq (h : Divided kept l n) : kept.length + l.length = n := by
  have hlength := List.Perm.length_eq h
  rwa [length_append, length_range, Ledger.positions, length_map] at hlength

end Divided

/-! ### Runs with their ledgers -/

section Charged

variable {S α : Type} {found : S → List Diagnostic} {owner : Nat → α → Nat}
  {step : S → α → Except Failure S} {init : S}

/--
The items have been dealt with, and what each step reported is charged to the owner of its item,
which may depend on the item and on its position.
-/
inductive Charged (found : S → List Diagnostic) (owner : Nat → α → Nat)
    (step : S → α → Except Failure S) (init : S) : List α → S → Ledger → Prop
  | nil : Charged found owner step init [] init []
  | snoc {done : List α} {a : α} {s s' : S} {l : Ledger} {new : List Diagnostic}
      (h : Charged found owner step init done s l) (hstep : step s a = .ok s')
      (hnew : found s' = found s ++ new) :
      Charged found owner step init (done ++ [a]) s' (l ++ Ledger.charge (owner done.length a) new)

/-- Each item is charged itself. -/
def ownPosition (i : Nat) (_ : α) : Nat := i

theorem mapIdx_ownPosition (items : List α) :
    items.mapIdx ownPosition = List.range items.length := by
  refine ext_getElem (by simp) fun i h₁ h₂ => ?_
  simp [ownPosition]

theorem mapIdx_of_item (f : α → Nat) (items : List α) :
    items.mapIdx (fun _ a => f a) = items.map f := by
  refine ext_getElem (by simp) fun i h₁ h₂ => ?_
  simp

theorem Charged.found_eq {items : List α} {s : S} {l : Ledger}
    (h : Charged found owner step init items s l) : found s = found init ++ l.diagnostics := by
  induction h with
  | nil => exact (append_nil _).symm
  | snoc h hstep hnew ih =>
    rw [hnew, ih, Ledger.diagnostics_append, Ledger.diagnostics_charge, append_assoc]

/-- **A run has a ledger**, of which holds whatever every step keeps. -/
theorem charged_of_foldlM {P : List α → S → Ledger → Prop} {items : List α} {out : S}
    (hstep : ∀ done a rest s s' l, items = done ++ a :: rest → P done s l → step s a = .ok s' →
      ∃ new, found s' = found s ++ new ∧ P (done ++ [a])
        s' (l ++ Ledger.charge (owner done.length a) new))
    (h0 : P [] init []) (h : items.foldlM step init = .ok out) :
    ∃ l, Charged found owner step init items out l ∧ P items out l := by
  refine Except.foldlM_invariant (P := fun done s => ∃ l, Charged found owner step init done s l ∧
    P done s l) ?_ ⟨[], .nil, h0⟩ h
  rintro done a rest s s' hsplit ⟨l, hl, hP⟩ hs
  obtain ⟨new, hnew, hP'⟩ := hstep done a rest s s' l hsplit hP hs
  exact ⟨_, .snoc hl hs hnew, hP'⟩

/-- Where a step adds one error at most, an owner is charged with at most one for each item. -/
theorem charged_once (owner : Nat → α → Nat) {items : List α} {out : S}
    (hone : ∀ s a s', step s a = .ok s' →
      ∃ new, found s' = found s ++ new ∧ (new.filter Diagnostic.isError).length ≤ 1)
    (h : items.foldlM step init = .ok out) :
    ∃ l, Charged found owner step init items out l ∧ l.positions ⊆ items.mapIdx owner ∧
      ∀ i, l.errorsAt i ≤ (items.mapIdx owner).count i := by
  refine charged_of_foldlM (P := fun done _ l => l.positions ⊆ done.mapIdx owner ∧
    ∀ i, l.errorsAt i ≤ (done.mapIdx owner).count i) ?_ ⟨nil_subset _, fun i => Nat.le_refl _⟩ h
  rintro done a rest s s' l - ⟨hpositions, herrors⟩ hs
  obtain ⟨new, hnew, hle⟩ := hone s a s' hs
  refine ⟨new, hnew, ?_, fun i => ?_⟩
  · rw [Ledger.positions_append, mapIdx_concat]
    refine append_subset.2 ⟨subset_append_of_subset_left _ hpositions, fun i hi => ?_⟩
    rw [Ledger.eq_of_mem_positions_charge hi]
    exact mem_append_right _ (mem_singleton_self _)
  · rw [Ledger.errorsAt_append, mapIdx_concat, count_append]
    refine Nat.add_le_add (herrors i) ?_
    by_cases hi : i = owner done.length a
    · subst hi
      rw [Ledger.errorsAt_charge_self]
      simpa using hle
    · rw [Ledger.errorsAt_charge_ne hi]
      exact Nat.zero_le _

end Charged

end TreeTyping
