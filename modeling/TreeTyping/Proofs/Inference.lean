/-
What inferences conclude and what they record.

An inference leaves a list of facts, and the facts about types fill a table.  Two judgments follow
an inference through its steps.  `Ensures` is about one that succeeds: given a table that holds
every type it recorded, what it concludes has some property.  `Records` is about any inference, also
one that fails: no place gets a type more often than it occurs in a given list, only places in the
list get a backing or a first write, and whatever the inference asks it asks one registry.

A table that is read off a list of facts keeps the type recorded last.  When no place is recorded
twice nothing is ever replaced, so the table holds every recorded type.
-/
import TreeTyping.Fact.Tables
import TreeTyping.Inference

namespace TreeTyping

open List

/-- A type for some places of a tree. -/
abbrev TypeTable := Place → Option Ty

/-- The table holds every type that is recorded. -/
def TypeTable.Holds (table : TypeTable) (facts : List Fact) : Prop :=
  ∀ p t, Fact.typed p t ∈ facts → table p = some t

theorem TypeTable.Holds.mono {table : TypeTable} {some all : List Fact} (h : table.Holds all)
    (hsub : some ⊆ all) : table.Holds some :=
  fun p t hmem => h p t (hsub hmem)

namespace Fact

/-- The table of the recorded types. -/
def table (facts : List Fact) : TypeTable := fun p => typeAt? p facts

/-- The place a fact gives a type. -/
def typedPlace? : Fact → Option Place
  | .typed p _ => some p
  | _ => none

/-- The places that facts give a type, as often as they do. -/
def recorded (facts : List Fact) : List Place := facts.filterMap typedPlace?

theorem recorded_append (a b : List Fact) : recorded (a ++ b) = recorded a ++ recorded b :=
  filterMap_append

theorem mem_recorded {p : Place} {t : Ty} {facts : List Fact} (h : .typed p t ∈ facts) :
    p ∈ recorded facts :=
  mem_filterMap.2 ⟨_, h, rfl⟩

/-- What a fact marks, if anything but by an assignment or with a type, is one of the places. -/
def Marks (places : List Place) : Fact → Prop
  | .backed o _ => o.place ∈ places
  | .wrote d w => w.kind = .assignment ∨ d.origin.place ∈ places
  | _ => True

theorem Marks.mono {places more : List Place} {fact : Fact} (h : fact.Marks places)
    (hsub : places ⊆ more) : fact.Marks more := by
  cases fact with
  | backed o b => exact hsub h
  | wrote d w => exact Or.imp_right (@hsub _) h
  | _ => trivial

theorem typeAt?_eq_none {p : Place} {facts : List Fact} (h : p ∉ recorded facts) :
    typeAt? p facts = none := by
  induction facts with
  | nil => rfl
  | cons fact rest ih =>
    have hrest : p ∉ recorded rest := fun hp => h (by
      rw [← singleton_append, recorded_append]
      exact mem_append_right _ hp)
    cases fact with
    | typed q t =>
      have hq : q ≠ p := by
        rintro rfl
        exact h (mem_recorded mem_cons_self)
      rw [typeAt?, ih hrest, if_neg hq, Option.or_none]
    | _ => exact ih hrest

/-- **When no place is recorded twice, the table has every recorded type.** -/
theorem table_holds {facts : List Fact} (h : (recorded facts).Nodup) :
    (table facts).Holds facts := by
  intro p t hmem
  show typeAt? p facts = some t
  induction facts with
  | nil => cases hmem
  | cons fact rest ih =>
    cases fact with
    | typed q s =>
      obtain ⟨hq, hrest⟩ := nodup_cons.1 h
      rcases mem_cons.1 hmem with heq | hmem
      · obtain ⟨rfl, rfl⟩ := Fact.typed.inj heq
        rw [typeAt?, typeAt?_eq_none hq, if_pos rfl, Option.none_or]
      · rw [typeAt?, ih hrest hmem, Option.some_or]
    | _ => exact ih h ((mem_cons.1 hmem).resolve_left (by simp))

end Fact

namespace Inference

variable {α β : Type} {table : TypeTable} {x : Inference α} {f : α → Inference β} {P : α → Prop}

/-! ### What a successful inference concludes -/

/-- Whatever `x` concludes has the property, given a table that holds all that `x` records. -/
def Ensures (table : TypeTable) (x : Inference α) (P : α → Prop) : Prop :=
  ∀ a, x.result = .ok a → table.Holds x.log → P a

namespace Ensures

theorem bind {Q : β → Prop}
    (hx : Ensures table x P) (hf : ∀ a, P a → Ensures table (f a) Q) :
    Ensures table (x >>= f) Q := by
  intro b hb htable
  obtain ⟨a, ha, hfa⟩ := bind_result_eq_ok.1 hb
  rw [log_bind_of_ok ha] at htable
  have hfirst : P a := hx a ha (htable.mono (subset_append_left _ _))
  exact hf a hfirst b hfa (htable.mono (subset_append_right _ _))

theorem pure {a : α} (h : P a) : Ensures table (Pure.pure a : Inference α) P := by
  intro b hb _
  rwa [← Except.ok.inj hb]

theorem of_result (h : ∀ a, x.result = .ok a → P a) : Ensures table x P :=
  fun a ha _ => h a ha

theorem lift {x : Except Failure α} : Ensures table (lift x) (fun a => x = .ok a) :=
  of_result fun _ h => h

theorem fail {f : Failure} : Ensures table (fail f) P :=
  of_result fun _ h => nomatch h

theorem complain {cause : Cause} {span : Span} {h : cause.kind?.isSome = true} :
    Ensures table (complain cause span h) P :=
  fail

theorem faulty {f : Fault} : Ensures table (faulty f) P :=
  fail

theorem record {p : Place} {t : Ty} :
    Ensures table (record (.typed p t)) (fun _ => table p = some t) :=
  fun _ _ h => h p t mem_cons_self

theorem mono {P Q : α → Prop} (h : Ensures table x P) (hPQ : ∀ a, P a → Q a) : Ensures table x Q :=
  fun a ha htable => hPQ a (h a ha htable)

/-- A step whose conclusion does not matter. -/
theorem skip {Q : β → Prop} (hf : ∀ a, Ensures table (f a) Q) : Ensures table (x >>= f) Q :=
  bind (of_result fun _ _ => trivial) fun a _ => hf a

end Ensures

/-! ### What any inference records and asks -/

/-- Every question is put to the given registry, whatever was answered before. -/
def Asks (r : Registry) : Inference α → Prop
  | .done _ => True
  | .establish _ rest => rest.Asks r
  | .ask q answer rest => answer = r.firstMismatch q.concrete q.interface ∧ ∀ a, (rest a).Asks r

theorem Asks.bind {r : Registry} (hx : x.Asks r) (hf : ∀ a, (f a).Asks r) : (x >>= f).Asks r := by
  show (x.bind f).Asks r
  induction x with
  | done result =>
    cases result with
    | ok a => exact hf a
    | error e => trivial
  | establish fact rest ih => exact ih hx
  | ask q answer rest ih => exact ⟨hx.1, fun a => ih a (hx.2 a)⟩

/--
No place is recorded more often than it occurs in the first list, all marks are on places in the
second, and questions go to the given registry.
-/
structure Tracks (r : Registry) (x : Inference α) (places marked : List Place) : Prop where
  types : ∀ p, (Fact.recorded x.log).count p ≤ places.count p
  marks : ∀ fact ∈ x.log, fact.Marks marked
  asks : x.Asks r

/-- No place is recorded more often, none is marked beside the list; the registry is asked. -/
abbrev Records (r : Registry) (x : Inference α) (places : List Place) :
    Prop := Tracks r x places places

namespace Tracks

variable {r : Registry} {marked places : List Place}

/-- One inference after another records what both do. -/
theorem bind {first second : List Place} (hx : Tracks r x first marked)
    (hf : ∀ a, Tracks r (f a) second marked) : Tracks r (x >>= f) (first ++ second) marked := by
  refine ⟨fun p => ?_, ?_, hx.asks.bind fun a => (hf a).asks⟩
  · rw [count_append]
    rcases hr : x.result with e | a
    · rw [log_bind_of_error hr]
      exact Nat.le_trans (hx.types p) (Nat.le_add_right _ _)
    · rw [log_bind_of_ok hr, Fact.recorded_append, count_append]
      exact Nat.add_le_add (hx.types p) ((hf a).types p)
  · rcases hr : x.result with e | a
    · rw [log_bind_of_error hr]
      exact hx.marks
    · rw [log_bind_of_ok hr]
      exact forall_mem_append.2 ⟨hx.marks, (hf a).marks⟩

theorem mono {more around : List Place} (h : Tracks r x places marked)
    (hle : ∀ p, places.count p ≤ more.count p) (hsub : marked ⊆ around) : Tracks r x more around :=
  ⟨fun p => Nat.le_trans (h.types p) (hle p), fun fact hfact => (h.marks fact hfact).mono hsub,
    h.asks⟩

/-- A place that is not listed gets no type. -/
theorem not_recorded (h : Tracks r x places marked) {p : Place} (hp : p ∉ places) :
    p ∉ Fact.recorded x.log := by
  have hcount := h.types p
  rw [count_eq_zero.2 hp] at hcount
  exact count_eq_zero.1 (Nat.le_zero.1 hcount)

/-- A fact that is not about types fills no place. -/
theorem record_other {fact : Fact} (h : fact.typedPlace? = none) (hmark : fact.Marks marked) :
    Tracks r (Inference.record fact) places marked := by
  have hnone : [fact].filterMap Fact.typedPlace? = [] := by
    rw [filterMap_cons_none h, filterMap_nil]
  refine ⟨fun p => ?_, forall_mem_singleton.2 hmark, trivial⟩
  show ([fact].filterMap Fact.typedPlace?).count p ≤ _
  rw [hnone]
  exact Nat.zero_le _

theorem record {p : Place} {t : Ty} : Tracks r (record (.typed p t)) [p] marked :=
  ⟨fun _ => Nat.le_refl _, forall_mem_singleton.2 trivial, trivial⟩

theorem of_silent (h : Records r x []) : Tracks r x places marked :=
  mono h (fun _ => Nat.zero_le _) (nil_subset _)

/-- A step that records and marks nothing, before another. -/
theorem skip (hx : Records r x []) (hf : ∀ a, Tracks r (f a) places marked) :
    Tracks r (x >>= f) places marked :=
  bind (of_silent hx : Tracks r x [] marked) hf

/-- A step before another that records nothing. -/
theorem last (hx : Tracks r x places marked)
    (hf : ∀ a, Tracks r (f a) [] marked) : Tracks r (x >>= f) places marked := by
  have h := bind hx hf
  rwa [append_nil] at h

end Tracks

namespace Records

variable {r : Registry} {places : List Place}

theorem mono {more : List Place} (h : Records r x places)
    (hle : ∀ p, places.count p ≤ more.count p) : Records r x more := by
  refine Tracks.mono h hle fun p hp => ?_
  have hpos : 0 < more.count p := Nat.lt_of_lt_of_le (count_pos_iff.2 hp) (hle p)
  exact count_pos_iff.1 hpos

theorem within {marked : List Place} (h : Records r x places) (hsub : places ⊆ marked) :
    Tracks r x places marked :=
  Tracks.mono h (fun _ => Nat.le_refl _) hsub

/-- One inference after another records what both do. -/
theorem bind {first second : List Place} (hx : Records r x first)
    (hf : ∀ a, Records r (f a) second) : Records r (x >>= f) (first ++ second) :=
  Tracks.bind (hx.within (subset_append_left _ _)) fun a => (hf a).within (subset_append_right _ _)

/-- An inference that leaves questions and notes only. -/
theorem of_log (h : Fact.recorded x.log = []) (hmarks : ∀ fact ∈ x.log, fact.Marks [])
    (ha : x.Asks r) : Records r x places := by
  refine ⟨fun p => ?_, fun fact hfact => (hmarks fact hfact).mono (nil_subset _), ha⟩
  rw [h]
  exact Nat.zero_le _

theorem pure {a : α} : Records r (Pure.pure a : Inference α) places :=
  of_log rfl (forall_mem_nil _) trivial

theorem lift {x : Except Failure α} : Records r (lift x) places :=
  of_log rfl (forall_mem_nil _) trivial

theorem record {p : Place} {t : Ty} : Records r (record (.typed p t)) [p] :=
  Tracks.record

theorem note {n : Note} : Records r (Inference.record (.noted n)) places :=
  Tracks.record_other rfl trivial

/-- A step that records nothing, before another. -/
theorem skip (hx : Records r x []) (hf : ∀ a, Records r (f a) places) :
    Records r (x >>= f) places :=
  hx.bind hf

theorem mark {fact : Fact} {f : Unit → Inference β} (h : fact.typedPlace? = none)
    (hmark : fact.Marks places)
    (hf : ∀ a, Records r (f a) places) : Records r (Inference.record fact >>= f) places :=
  Tracks.bind (.record_other h hmark : Tracks r (Inference.record fact) [] places) hf

/-- A step before another that records nothing. -/
theorem last (hx : Records r x places) (hf : ∀ a, Records r (f a) []) :
    Records r (x >>= f) places :=
  Tracks.last hx fun a => (hf a).of_silent

theorem parts_first {p : Place} {parts : List Place} (h : Records r x (parts ++ [p])) :
    Records r x (p :: parts) :=
  h.mono fun q => by
    simp only [count_append, count_cons, count_nil]
    omega

end Records

end Inference

end TreeTyping
