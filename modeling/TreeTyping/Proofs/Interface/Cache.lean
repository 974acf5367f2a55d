/-
Remembered answers are right, and are counted right.

What is remembered is what the registry answers: this holds at the start, and storing an answer of
the registry keeps it.  When questions are asked one after the other, a question is a miss the first
time and a hit from then on.  So there are as many misses as answers that are remembered, one for
each of the questions that need members, and hits and misses together are as many as such questions
were asked.
-/
import Mathlib.Data.List.Dedup
import Mathlib.Data.List.Perm.Basic
import TreeTyping.Interface.Cache
import TreeTyping.Proofs.Registry.Reissue

namespace TreeTyping

open List

/-- The questions that need members: the interface requires something and is not the type itself. -/
def Question.counted (r : Registry) (questions : List Question) : List Question :=
  questions.filter fun q => r.required q.interface ≠ [] ∧ q.concrete ≠ .interface q.interface

namespace SatisfactionCache

variable {r : Registry} {c : SatisfactionCache}

/-- What is remembered is what the registry answers. -/
def Right (r : Registry) (c : SatisfactionCache) : Prop :=
  ∀ q a, c.find? q = some a → r.firstMismatch q.concrete q.interface = .ok a

theorem right_empty : Right r {} := by
  intro q a h
  cases h

/-- Taking out the answers to one question leaves the others to be found. -/
theorem find?_others (answers : List (Question × Option MemberMismatch)) (q q' : Question) :
    (answers.filter fun x => x.1 ≠ q).find? (fun x => x.1 = q') =
      if q' = q then none else answers.find? fun x => x.1 = q' := by
  rw [find?_filter]
  split
  · next heq =>
      subst heq
      rw [find?_eq_none]
      simp
  · next hne =>
      congr 1
      funext x
      by_cases hx : x.1 = q'
      · simp [hx, hne]
      · simp [hx]

theorem find?_store (q q' : Question) (a : Option MemberMismatch) :
    (c.store q a).find? q' = if q' = q then some a else c.find? q' := by
  rw [find?, find?, store, find?_append, find?_others, find?_singleton]
  by_cases h : q' = q
  · simp [h]
  · have hne : ¬q = q' := fun heq => h heq.symm
    simp [h, hne]

theorem Right.store (h : c.Right r) {q : Question} {a : Option MemberMismatch}
    (ha : r.firstMismatch q.concrete q.interface = .ok a) : (c.store q a).Right r := by
  intro q' a' hfind
  rw [find?_store] at hfind
  split at hfind
  · next heq =>
      cases hfind
      exact heq ▸ ha
  · exact h q' a' hfind

theorem Right.ask (h : c.Right r) (q : Question) : (c.ask r q).2.Right r := by
  rw [SatisfactionCache.ask]
  split
  · exact h
  · split
    · exact h
    · split
      · next a ha => exact Right.store (c := { c with misses := c.misses + 1 }) h ha
      · exact h

theorem Right.replay (h : c.Right r) (questions : List Question) :
    (c.replay r questions).Right r := by
  induction questions generalizing c with
  | nil => exact h
  | cons q rest ih => exact ih (h.ask q)

/-! ### Counting -/

theorem find?_isSome_iff {q : Question} :
    (c.find? q).isSome = true ↔ q ∈ c.answers.map Prod.fst := by
  rw [find?, Option.isSome_map, find?_isSome, mem_map]
  simp only [decide_eq_true_eq]

/-- The answer to a new question goes to the end. -/
theorem store_of_find?_eq_none {q : Question} (h : c.find? q = none) (a : Option MemberMismatch) :
    c.store q a = { c with answers := c.answers ++ [(q, a)] } := by
  have hothers : c.answers.filter (fun x => x.1 ≠ q) = c.answers := by
    rw [filter_eq_self]
    intro x hx
    have hnew : q ∉ c.answers.map Prod.fst := by
      rw [← find?_isSome_iff, h]
      exact Bool.false_ne_true
    exact decide_eq_true fun hsame => hnew (hsame ▸ mem_map_of_mem hx)
  rw [store, hothers]

/-- The questions that were asked are remembered once each, and were counted. -/
structure Counted (r : Registry) (c : SatisfactionCache) (asked : List Question) : Prop where
  distinct : (c.answers.map Prod.fst).Nodup
  remembered : ∀ q, q ∈ c.answers.map Prod.fst ↔ q ∈ Question.counted r asked
  misses : c.misses = c.answers.length
  total : c.hits + c.misses = (Question.counted r asked).length

theorem counted_empty : Counted r {} [] := ⟨nodup_nil, fun _ => Iff.rfl, rfl, rfl⟩

theorem counted_append_of_trivial {q : Question} (h : r.isTrivial q.concrete q.interface = true)
    (asked : List Question) : Question.counted r (asked ++ [q]) = Question.counted r asked := by
  rw [Question.counted, filter_append, filter_singleton]
  rcases Registry.isTrivial_iff.1 h with hempty | hsame
  · simp [Question.counted, hempty]
  · simp [Question.counted, hsame]

theorem counted_append_of_not_trivial {q : Question}
    (h : ¬r.isTrivial q.concrete q.interface = true) (asked : List Question) :
    Question.counted r (asked ++ [q]) = Question.counted r asked ++ [q] := by
  obtain ⟨hrequires, hother⟩ := not_or.1 (mt Registry.isTrivial_iff.2 h)
  rw [Question.counted, filter_append, filter_singleton]
  simp [Question.counted, hrequires, hother]

/-- **One more question is one more hit or one more miss.** -/
theorem Counted.ask {asked : List Question} (h : c.Counted r asked) {q : Question}
    (hanswer : ∃ a, r.firstMismatch q.concrete q.interface = .ok a) :
    (c.ask r q).2.Counted r (asked ++ [q]) := by
  rw [SatisfactionCache.ask]
  by_cases htrivial : r.isTrivial q.concrete q.interface = true
  · rw [if_pos htrivial]
    refine ⟨h.distinct, ?_, h.misses, ?_⟩
    · rw [counted_append_of_trivial htrivial]
      exact h.remembered
    · rw [counted_append_of_trivial htrivial]
      exact h.total
  · rw [if_neg htrivial]
    have hlength : (Question.counted r (asked ++ [q])).length =
        (Question.counted r asked).length + 1 := by
      rw [counted_append_of_not_trivial htrivial, length_append, length_singleton]
    have htotal := h.total
    rcases hfind : c.find? q with _ | a
    · -- a miss: the question is new, and so is its answer
      obtain ⟨a, ha⟩ := hanswer
      have hnew : q ∉ c.answers.map Prod.fst := by
        rw [← find?_isSome_iff, hfind]
        exact Bool.false_ne_true
      have hmisses := h.misses
      simp only [ha]
      rw [store_of_find?_eq_none (c := { c with misses := c.misses + 1 }) hfind]
      refine ⟨?_, fun q' => ?_, ?_, ?_⟩
      · simp only [map_append, map_singleton]
        rw [← concat_eq_append]
        exact List.Nodup.concat hnew h.distinct
      · simp only [map_append, map_singleton]
        rw [counted_append_of_not_trivial htrivial, mem_append, mem_append, h.remembered q']
      · simp only [length_append, length_singleton]
        omega
      · rw [hlength]
        dsimp only
        omega
    · -- a hit: the question was asked before
      have hold : q ∈ Question.counted r asked := by
        rw [← h.remembered, ← find?_isSome_iff, hfind]
        rfl
      refine ⟨h.distinct, fun q' => ?_, h.misses, ?_⟩
      · rw [counted_append_of_not_trivial htrivial, mem_append, mem_singleton, h.remembered q']
        exact ⟨.inl, fun hq' => hq'.elim id fun hsame => hsame ▸ hold⟩
      · rw [hlength]
        dsimp only
        omega

theorem Counted.replay {asked : List Question} (h : c.Counted r asked) {questions : List Question}
    (hanswers : ∀ q ∈ questions, ∃ a, r.firstMismatch q.concrete q.interface = .ok a) :
    (c.replay r questions).Counted r (asked ++ questions) := by
  induction questions generalizing c asked with
  | nil =>
    rw [append_nil]
    exact h
  | cons q rest ih =>
    obtain ⟨hq, hrest⟩ := forall_mem_cons.1 hanswers
    rw [append_cons]
    exact ih (h.ask hq) hrest

/-- As many answers are remembered as there are different questions among those counted. -/
theorem Counted.size {asked : List Question} (h : c.Counted r asked) :
    c.answers.length = (Question.counted r asked).dedup.length := by
  have hperm : (c.answers.map Prod.fst).Perm (Question.counted r asked).dedup := by
    rw [perm_ext_iff_of_nodup h.distinct (nodup_dedup _)]
    intro q
    rw [mem_dedup, h.remembered]
  rw [← hperm.length_eq, length_map]

end SatisfactionCache

end TreeTyping
