/-
What lists of facts say.

A table is a view of the list of all facts, and what it has for a node is decided by the facts about
that node, in order: the last type and the last backing, and all writes.  So a list can be taken
apart.  Two lists agree on a node where they differ only in facts that say nothing about it, or in
assignments to it, and two lists that have the same types and backings in the same order give every
node the same type and the same backing.
-/
import TreeTyping.Proofs.Inference
import TreeTyping.Proofs.Ty.Renaming

namespace TreeTyping

open List

/-! ### Facts about a node -/

namespace Fact

theorem typeAt?_append (q : Place) (a b : List Fact) :
    typeAt? q (a ++ b) = (typeAt? q b).or (typeAt? q a) := by
  induction a with
  | nil => exact (Option.or_none).symm
  | cons fact rest ih =>
    cases fact with
    | typed p t => rw [cons_append, typeAt?, typeAt?, ih, Option.or_assoc]
    | _ => exact ih

theorem mem_of_typeAt? {q : Place} {t : Ty} {facts : List Fact} (h : typeAt? q facts = some t) :
    .typed q t ∈ facts := by
  fun_induction typeAt? q facts with
  | case1 => cases h
  | case2 p u rest ih =>
    rcases Option.or_eq_some_iff.1 h with h | ⟨-, h⟩
    · exact mem_cons_of_mem _ (ih h)
    · split at h
      · next hp =>
          cases h
          rw [hp]
          exact mem_cons_self
      · cases h
  | case3 fact rest hfact ih => exact mem_cons_of_mem _ (ih h)

/-- The backing under a place in a table. -/
def backingIn? (q : Place) (table : List (Origin × Backing)) : Option Backing :=
  (table.find? fun entry => entry.1.place = q).map Prod.snd

theorem backingIn?_insertBacking (q : Place) (o : Origin) (b : Backing)
    (table : List (Origin × Backing)) :
    backingIn? q (insertBacking o b table) = (if o.place = q then some b else none).or
      (backingIn? q table) := by
  induction table with
  | nil =>
    rw [insertBacking, backingIn?, find?_singleton]
    split <;> simp_all [backingIn?]
  | cons entry rest ih =>
    rw [insertBacking]
    split
    · next hsame =>
        by_cases hq : o.place = q
        · simp [backingIn?, hsame, hq]
        · simp [backingIn?, hsame, hq]
    · next hother =>
        by_cases hq : entry.1.place = q
        · have ho : o.place ≠ q := fun h => hother (hq.trans h.symm)
          simp [backingIn?, hq, ho]
        · have hskip (more : List (Origin × Backing)) :
              backingIn? q (entry :: more) = backingIn? q more := by
            rw [backingIn?, find?_cons_of_neg (by simpa using hq), backingIn?]
          rw [hskip, hskip, ih]

/-- The table of backings after one more fact. -/
def addBacking (table : List (Origin × Backing)) : Fact → List (Origin × Backing)
  | .backed o b => insertBacking o b table
  | _ => table

theorem backingIn?_foldl (q : Place) (facts : List Fact) (table : List (Origin × Backing)) :
    backingIn? q (facts.foldl addBacking table) = (backingAt? q facts).or (backingIn? q table) := by
  have hview : backingAt? q facts = backingIn? q (facts.foldl addBacking []) := rfl
  rw [hview]
  clear hview
  induction facts generalizing table with
  | nil => rfl
  | cons fact rest ih =>
    rw [foldl_cons, foldl_cons, ih, ih (addBacking [] fact), Option.or_assoc]
    cases fact with
    | backed o b =>
      rw [addBacking, addBacking, backingIn?_insertBacking, backingIn?_insertBacking q o b []]
      simp [backingIn?]
    | _ => rfl

theorem backingAt?_append (q : Place) (a b : List Fact) :
    backingAt? q (a ++ b) = (backingAt? q b).or (backingAt? q a) := by
  have hview : backingAt? q (a ++ b) = backingIn? q ((a ++ b).foldl addBacking []) := rfl
  rw [hview, foldl_append, backingIn?_foldl]
  rfl

theorem backingAt?_cons (q : Place) (fact : Fact) (rest : List Fact) :
    backingAt? q (fact :: rest) = (backingAt? q rest).or (backingAt? q [fact]) :=
  backingAt?_append q [fact] rest

theorem backingAt?_backed (q : Place) (o : Origin) (b : Backing) :
    backingAt? q [.backed o b] = if o.place = q then some b else none := by
  have hview : backingAt? q [.backed o b] = backingIn? q (insertBacking o b []) := rfl
  rw [hview, backingIn?_insertBacking]
  exact Option.or_none

theorem mem_of_backingAt? {q : Place} {b : Backing} {facts : List Fact}
    (h : backingAt? q facts = some b) : ∃ o, .backed o b ∈ facts ∧ o.place = q := by
  induction facts with
  | nil => cases h
  | cons fact rest ih =>
    rw [backingAt?_cons] at h
    rcases Option.or_eq_some_iff.1 h with h | ⟨-, h⟩
    · obtain ⟨o, ho, hq⟩ := ih h
      exact ⟨o, mem_cons_of_mem _ ho, hq⟩
    · cases fact with
      | backed o b' =>
        rw [backingAt?_backed] at h
        obtain ⟨hq, hb⟩ := Option.ite_none_right_eq_some.1 h
        cases hb
        exact ⟨o, mem_cons_self, hq⟩
      | _ => cases h

theorem writesAt_append (q : Place) (a b : List Fact) :
    writesAt q (a ++ b) = writesAt q a ++ writesAt q b :=
  filterMap_append

theorem backingAt?_eq_none {q : Place} {facts : List Fact} {places : List Place}
    (h : ∀ fact ∈ facts, fact.Marks places) (hq : q ∉ places) : backingAt? q facts = none := by
  induction facts with
  | nil => rfl
  | cons fact rest ih =>
    obtain ⟨hfact, hrest⟩ := forall_mem_cons.1 h
    rw [backingAt?_cons, ih hrest, Option.none_or]
    cases fact with
    | backed o b =>
      have ho : o.place ≠ q := fun heq => hq (heq ▸ hfact)
      rw [backingAt?_backed, if_neg ho]
    | _ => rfl

theorem assignments_of_marks {q : Place} {facts : List Fact} {places : List Place}
    (h : ∀ fact ∈ facts, fact.Marks places) (hq : q ∉ places) :
    ∀ w ∈ writesAt q facts, w.kind = .assignment := by
  intro w hw
  obtain ⟨fact, hfact, hwrite⟩ := mem_filterMap.1 hw
  cases fact with
  | wrote d write =>
    dsimp only at hwrite
    split at hwrite
    · next hplace =>
        cases hwrite
        exact (h _ hfact).resolve_right (hplace ▸ hq)
    · cases hwrite
  | _ => cases hwrite

/--
Two lists of facts agree on a place, but for assignments: `mine` and `mine'` are the facts in which
the lists differ, and all writes to the place in them are assignments.
-/
structure AgreeAt (q : Place) (facts facts' mine mine' : List Fact) : Prop where
  types : typeAt? q facts = typeAt? q facts'
  backings : backingAt? q facts = backingAt? q facts'
  writes : ∃ earlier later, writesAt q facts = earlier ++ writesAt q mine ++ later ∧
    writesAt q facts' = earlier ++ writesAt q mine' ++ later
  assignments : ∀ w ∈ writesAt q mine ++ writesAt q mine', w.kind = .assignment

/-- Where the differing facts agree on a place, so do lists that have the same facts around them. -/
theorem AgreeAt.around {q : Place} {mine mine' : List Fact}
    (htypes : typeAt? q mine = typeAt? q mine') (hbackings : backingAt? q mine = backingAt? q mine')
    (hwrites : ∀ w ∈ writesAt q mine ++ writesAt q mine', w.kind = .assignment)
    (earlier later : List Fact) :
    AgreeAt q (earlier ++ mine ++ later) (earlier ++ mine' ++ later) mine mine' := by
  refine ⟨?_, ?_, ⟨writesAt q earlier, writesAt q later, ?_, ?_⟩, hwrites⟩
  · simp only [typeAt?_append, htypes]
  · simp only [backingAt?_append, hbackings]
  · simp only [writesAt_append]
  · simp only [writesAt_append]

/-- Facts that fill and mark no places but the given ones, assignments apart. -/
structure Confined (places : List Place) (facts : List Fact) : Prop where
  types : ∀ q, q ∉ places → q ∉ recorded facts
  marks : ∀ fact ∈ facts, fact.Marks places

theorem Confined.nil (places : List Place) : Confined places [] :=
  ⟨fun _ _ => not_mem_nil, forall_mem_nil _⟩

theorem Confined.note {places : List Place} {facts : List Fact} (h : Confined places facts)
    (n : Note) : Confined places (facts ++ [.noted n]) := by
  refine ⟨fun q hq => ?_, forall_mem_append.2 ⟨h.marks, forall_mem_singleton.2 trivial⟩⟩
  have hnote : recorded (facts ++ [.noted n]) = recorded facts := by
    rw [recorded_append]
    exact append_nil _
  rw [hnote]
  exact h.types q hq

end Fact

/-! ### Findings up to identities -/

/-- A layout with the identities in it renamed. -/
def Layout.rename (σ : Renaming) (l : Layout) :
    Layout := { l with elementType := l.elementType.rename σ }

/-- A backing with the identities in it renamed. -/
def Backing.rename (σ : Renaming) (b : Backing) : Backing :=
  ⟨b.concrete.rename σ, b.abstract.rename σ, b.layout.map (Layout.rename σ)⟩

@[simp] theorem Backing.rename_refl (b : Backing) : b.rename (Equiv.refl Nat) = b := by
  obtain ⟨concrete, abstract, layout⟩ := b
  rcases layout with _ | l
  · simp [rename]
  · simp [rename, Layout.rename]

theorem Backing.ofType?_rename (σ : Renaming) (t : Ty) :
    ofType? (t.rename σ) = (ofType? t).map (Backing.rename σ) := by
  rw [ofType?, ofType?, Ty.backing?_rename, Ty.abstract?_rename]
  rcases t.backing? with _ | backing
  · rcases t.abstract? with _ | abstract <;> rfl
  · rfl

namespace Fact

/-- Whether a fact is about the type or the backing of a node. -/
def isFinding : Fact → Bool
  | .typed _ _ | .backed _ _ => true
  | _ => false

/-- A fact about a type or a backing with the identities in it renamed. -/
def rename (σ : Renaming) : Fact → Fact
  | .typed p t => .typed p (t.rename σ)
  | .backed o b => .backed o (b.rename σ)
  | fact => fact

@[simp] theorem rename_refl (fact : Fact) : fact.rename (Equiv.refl Nat) = fact := by
  cases fact <;> simp [rename]

/-- The same types and backings were found at the same nodes, up to identities. -/
def SameFindings (σ : Renaming) (facts facts' : List Fact) : Prop :=
  facts'.filter isFinding = (facts.filter isFinding).map (rename σ)

namespace SameFindings

variable {σ : Renaming} {facts facts' more more' : List Fact}

theorem append (h : SameFindings σ facts facts') (hmore : SameFindings σ more more') :
    SameFindings σ (facts ++ more) (facts' ++ more') := by
  rw [SameFindings, filter_append, filter_append, map_append, h, hmore]

theorem refl (facts : List Fact) : SameFindings (Equiv.refl Nat) facts facts := by
  rw [SameFindings]
  exact (map_id'' rename_refl _).symm

theorem none (h : ∀ fact ∈ facts, fact.isFinding = false)
    (h' : ∀ fact ∈ facts', fact.isFinding = false) : SameFindings σ facts facts' := by
  have hfilter {facts : List Fact} (h : ∀ fact ∈ facts, fact.isFinding = false) :
      facts.filter isFinding = [] := by
    simpa [filter_eq_nil_iff] using h
  rw [SameFindings, hfilter h, hfilter h']
  rfl

/-- Notes on both sides find nothing more. -/
theorem note (h : SameFindings σ facts facts') (n n' : Note) :
    SameFindings σ (facts ++ [.noted n]) (facts' ++ [.noted n']) :=
  h.append (none (forall_mem_singleton.2 rfl) (forall_mem_singleton.2 rfl))

theorem noted (h : SameFindings σ facts facts') (n : Note) :
    SameFindings σ facts (facts' ++ [.noted n]) := by
  rw [← append_nil facts]
  exact h.append (none (forall_mem_nil _) (forall_mem_singleton.2 rfl))

/-- What has been found up to the last fact decides the type of a node. -/
theorem typeAt?_eq (h : SameFindings σ facts facts') (p : Place) :
    typeAt? p facts' = (typeAt? p facts).map (Ty.rename σ) := by
  have hfilter (facts : List Fact) : typeAt? p (facts.filter isFinding) = typeAt? p facts := by
    induction facts with
    | nil => rfl
    | cons fact rest ih =>
      cases fact with
      | typed q t => rw [filter_cons_of_pos rfl, typeAt?, typeAt?, ih]
      | backed o b =>
        rw [filter_cons_of_pos rfl, typeAt?, typeAt?, ih] <;> exact fun _ _ h => Fact.noConfusion h
      | _ => exact ih
  have hrename (facts : List Fact) : typeAt? p (facts.map (rename σ)) = (typeAt? p facts).map
      (Ty.rename σ) := by
    induction facts with
    | nil => rfl
    | cons fact rest ih =>
      cases fact with
      | typed q t =>
        rw [map_cons, rename, typeAt?, typeAt?, ih, Option.map_or]
        by_cases hq : q = p
        · rw [if_pos hq, if_pos hq]
          rfl
        · rw [if_neg hq, if_neg hq]
          rfl
      | _ => exact ih
  rw [← hfilter facts', h, hrename, hfilter]

/-- What has been found up to the last fact decides the backing of a node. -/
theorem backingAt?_eq (h : SameFindings σ facts facts') (p : Place) :
    backingAt? p facts' = (backingAt? p facts).map (Backing.rename σ) := by
  have hfilter (facts : List Fact) :
      backingAt? p (facts.filter isFinding) = backingAt? p facts := by
    induction facts with
    | nil => rfl
    | cons fact rest ih =>
      cases fact with
      | typed q t => rw [filter_cons_of_pos rfl, backingAt?_cons, ih, ← backingAt?_cons]
      | backed o b => rw [filter_cons_of_pos rfl, backingAt?_cons, ih, ← backingAt?_cons]
      | _ => exact ih
  have hrename (facts : List Fact) :
      backingAt? p (facts.map (rename σ)) = (backingAt? p facts).map (Backing.rename σ) := by
    induction facts with
    | nil => rfl
    | cons fact rest ih =>
      rw [map_cons, backingAt?_cons, ih, backingAt?_cons p fact, Option.map_or]
      cases fact with
      | backed o b =>
        rw [rename, backingAt?_backed, backingAt?_backed]
        by_cases ho : o.place = p
        · rw [if_pos ho, if_pos ho]
          rfl
        · rw [if_neg ho, if_neg ho]
          rfl
      | _ => rfl
  rw [← hfilter facts', h, hrename, hfilter]

theorem typeAt?_refl (h : SameFindings (Equiv.refl Nat) facts facts') (p : Place) :
    typeAt? p facts' = typeAt? p facts := by
  have hid : Ty.rename (Equiv.refl Nat) = id := funext Ty.rename_refl
  rw [h.typeAt?_eq, hid, Option.map_id]
  rfl

theorem backingAt?_refl (h : SameFindings (Equiv.refl Nat) facts facts') (p : Place) :
    backingAt? p facts' = backingAt? p facts := by
  have hid : Backing.rename (Equiv.refl Nat) = id := funext Backing.rename_refl
  rw [h.backingAt?_eq, hid, Option.map_id]
  rfl

end SameFindings

end Fact

end TreeTyping
