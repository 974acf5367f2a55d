/-
The syntax that is read from a tree, and the nodes of the tree.

Reading a tree gives every expression and statement the place of its node.  Two things follow.
Whatever the tree holds, the places of the syntax are places of nodes, each counted no more often,
so syntax that was read from a tree never uses a place twice.  And of a well-formed tree nothing is
lost: every node of an expression is the place of an expression that was read.
-/
import TreeTyping.Proofs.Syntax.Places
import TreeTyping.Proofs.Tree.Place
import TreeTyping.Proofs.Tree.WellFormed
import TreeTyping.Syntax.OfTree

namespace TreeTyping

open List TreeTyping.Tree

/-! ### Places of the syntax are places of nodes -/

/-- No place is listed more often than there are nodes at it. -/
def Counted (places : List Place) (nodes : List (Place × NodeClass)) : Prop :=
  ∀ q, places.count q ≤ (nodes.map Prod.fst).count q

namespace Counted

variable {a b : List Place} {m n : List (Place × NodeClass)}

theorem nil : Counted [] n := fun _ => Nat.zero_le _

theorem append (ha : Counted a m) (hb : Counted b n) : Counted (a ++ b) (m ++ n) := by
  intro q
  rw [map_append, count_append, count_append]
  exact Nat.add_le_add (ha q) (hb q)

/-- Nodes in front that are not listed. -/
theorem skip (h : Counted a n) : Counted a (m ++ n) := nil.append h

/-- Nodes behind that are not listed. -/
theorem keep (h : Counted a m) : Counted a (m ++ n) := by
  rw [← append_nil a]
  exact h.append nil

theorem node {cls : NodeClass} {s : Span} {fields : List Tree} {p : Place}
    (h : Counted a (nodesOfFields p cls.fields fields)) :
    Counted (p :: a) ((Tree.node cls s fields).nodes p) := by
  intro q
  rw [nodes, map_cons, count_cons, count_cons]
  exact Nat.add_le_add_right (h q) _

theorem below {cls : NodeClass} {s : Span} {fields : List Tree} {p : Place}
    (h : Counted a (nodesOfFields p cls.fields fields)) :
    Counted a ((Tree.node cls s fields).nodes p) := by
  rw [nodes, ← singleton_append]
  exact h.skip

/-- What is listed of the items of a list, one after the other. -/
theorem items {f : Nat → List Tree → List Place} {items : List Tree} {p : Place}
    (hnil : ∀ i, f i [] = [])
    (hcons : ∀ i rest, ∀ t ∈ items, ∃ a, Counted a (t.nodes (p.item i)) ∧
      f i (t :: rest) = a ++ f (i + 1) rest) (i : Nat) :
    Counted (f i items) (nodesOfItems p i items) := by
  induction items generalizing i with
  | nil => exact hnil i ▸ nil
  | cons t rest ih =>
    obtain ⟨a, ha, hread⟩ := hcons i rest t mem_cons_self
    rw [hread, nodesOfItems]
    exact ha.append (ih (fun i rest t ht => hcons i rest t (mem_cons_of_mem _ ht)) (i + 1))

end Counted

namespace Expr

/-- The places of the tree's expression, wherever it stands, are places of its nodes. -/
abbrev CountedIn (t : Tree) : Prop := ∀ p, Counted (ofTree p t).places (t.nodes p)

theorem items_counted (items : List Tree) (h : ∀ t ∈ items, CountedIn t) (p : Place) (i : Nat) :
    Counted (placesOfAll (ofItems p i items)) (nodesOfItems p i items) :=
  .items (f := fun i items => placesOfAll (ofItems p i items)) (fun _ => rfl)
    (fun _ _ t ht => ⟨_, h t ht _, rfl⟩) i

theorem entries_counted (entries : List (String × Tree)) (h : ∀ e ∈ entries, CountedIn e.2)
    (p : Place) : Counted (placesOfFields (ofEntries p entries)) (nodesOfEntries p entries) := by
  induction entries with
  | nil => exact .nil
  | cons e rest ih =>
    obtain ⟨he, hrest⟩ := forall_mem_cons.1 h
    exact (he _).append (ih hrest)

theorem mapEntries_counted (items : List Tree)
    (h : ∀ t ∈ items, ∀ c, sizeOf c < sizeOf t → CountedIn c)
    (p : Place) (i : Nat) : Counted (placesOfEntries (ofMapEntries p i items))
      (nodesOfItems p i items) := by
  refine .items (f := fun i items => placesOfEntries (ofMapEntries p i items)) (fun _ => rfl)
    (fun i rest t ht => ?_) i
  rw [ofMapEntries.eq_def p i (t :: rest)]
  split
  · next heq => cases heq
  · next s key value _ heq =>
      cases heq
      have hkey := h _ ht key (sizeOf_field (by simp))
      have hvalue := h _ ht value (sizeOf_field (by simp))
      exact ⟨_, .below (.append (hkey _) (.keep (hvalue _))), (append_assoc ..).symm⟩
  · next heq =>
      cases heq
      exact ⟨[], .nil, rfl⟩

/-- **The places of an expression are places of nodes of its tree.** -/
theorem places_counted (t : Tree) : CountedIn t := by
  induction t using Tree.induction with
  | step t ih =>
    intro p
    unfold ofTree
    split
    · exact .node .nil
    · exact .node .nil
    · next left op right =>
        have hl := ih left (sizeOf_field (by simp))
        have hr := ih right (sizeOf_field (by simp))
        exact .node (.append (hl _) (.skip (.keep (hr _))))
    · next op operand =>
        have he := ih operand (sizeOf_field (by simp))
        exact .node (.skip (.keep (he _)))
    · next callee args =>
        have hc := ih callee (sizeOf_field (by simp))
        have hargs := items_counted args fun c hc => ih c (sizeOf_listed hc (by simp))
        exact .node (.append (hc _) (.keep (hargs _ _)))
    · next object method args =>
        have ho := ih object (sizeOf_field (by simp))
        have hargs := items_counted args fun c hc => ih c (sizeOf_listed hc (by simp))
        exact .node (.append (ho _) (.skip (.keep (hargs _ _))))
    · next object name =>
        have ho := ih object (sizeOf_field (by simp))
        exact .node (.keep (ho _))
    · next object i =>
        have ho := ih object (sizeOf_field (by simp))
        have hi := ih i (sizeOf_field (by simp))
        exact .node (.append (ho _) (.keep (hi _)))
    · next target operand =>
        have he := ih operand (sizeOf_field (by simp))
        exact .node (.skip (.keep (he _)))
    · next elements =>
        have hs := items_counted elements fun c hc => ih c (sizeOf_listed hc (by simp))
        exact .node (.keep (hs _ _))
    · next entries =>
        have hs := mapEntries_counted entries fun t ht c hc =>
          ih c (Nat.lt_trans hc (sizeOf_listed ht (by simp)))
        exact .node (.keep (hs _ _))
    · next elements =>
        have hs := items_counted elements fun c hc => ih c (sizeOf_listed hc (by simp))
        exact .node (.keep (hs _ _))
    · next typeName fields =>
        have hs := entries_counted fields fun e he =>
          ih e.2 (Nat.lt_trans (sizeOf_entry he) (sizeOf_field (by simp)))
        exact .node (.skip (.keep (hs _)))
    · split <;> exact .nil
    · exact .nil

theorem places?_counted (t : Tree) (p : Place) : Counted (placesOf? (ofTree? p t)) (t.nodes p) := by
  unfold ofTree?
  split
  · exact .nil
  · exact places_counted t p

theorem listed_counted (items : List Tree) (p : Place) (i : Nat) :
    Counted (placesOfAll (ofItems p i items)) (nodesOfItems p i items) :=
  items_counted items (fun c _ => places_counted c) p i

end Expr

namespace Stmt

/-- The places of the tree's statement, wherever it stands, are places of its nodes. -/
abbrev CountedIn (t : Tree) : Prop := ∀ p, Counted (ofTree p t).places (t.nodes p)

theorem items_counted (items : List Tree) (h : ∀ t ∈ items, CountedIn t) (p : Place) (i : Nat) :
    Counted (placesOfAll (ofItems p i items)) (nodesOfItems p i items) :=
  .items (f := fun i items => placesOfAll (ofItems p i items)) (fun _ => rfl)
    (fun _ _ t ht => ⟨_, h t ht _, rfl⟩) i

theorem block_counted (t : Tree) (h : ∀ c, sizeOf c < sizeOf t → CountedIn c) (p : Place) :
    Counted (placesOfAll (ofBlock p t)) (t.nodes p) := by
  unfold ofBlock
  split
  · exact .below (.keep (items_counted _ (fun c hc => h c (sizeOf_listed hc (by simp))) _ _))
  · exact .nil

theorem block?_counted (t : Tree) (h : ∀ c, sizeOf c < sizeOf t → CountedIn c) (p : Place) :
    Counted (placesOfBlock? (ofBlock? p t)) (t.nodes p) := by
  unfold ofBlock?
  split
  · exact .nil
  · exact .below (.keep (items_counted _ (fun c hc => h c (sizeOf_listed hc (by simp))) _ _))
  · exact .nil

theorem branches_counted (items : List Tree)
    (h : ∀ t ∈ items, ∀ c, sizeOf c < sizeOf t → CountedIn c)
    (p : Place) (i : Nat) : Counted (placesOfBranches (ofBranches p i items))
      (nodesOfItems p i items) := by
  refine .items (f := fun i items => placesOfBranches (ofBranches p i items)) (fun _ => rfl)
    (fun i rest t ht => ?_) i
  rw [ofBranches.eq_def p i (t :: rest)]
  split
  · next heq => cases heq
  · next s condition body _ heq =>
      cases heq
      have hbody := block_counted body fun c hc =>
        h _ ht c (Nat.lt_trans hc (sizeOf_field (by simp)))
      refine ⟨_, .below (.append (Expr.places_counted condition _) (.keep (hbody _))),
        (append_assoc ..).symm⟩
  · next heq =>
      cases heq
      exact ⟨[], .nil, rfl⟩

theorem cases_counted (items : List Tree) (h : ∀ t ∈ items, ∀ c, sizeOf c < sizeOf t → CountedIn c)
    (p : Place) (i : Nat) : Counted (placesOfCases (ofCases p i items))
      (nodesOfItems p i items) := by
  refine .items (f := fun i items => placesOfCases (ofCases p i items)) (fun _ => rfl)
    (fun i rest t ht => ?_) i
  rw [ofCases.eq_def p i (t :: rest)]
  split
  · next heq => cases heq
  · next s values body _ heq =>
      cases heq
      have hbody := block_counted body fun c hc =>
        h _ ht c (Nat.lt_trans hc (sizeOf_field (by simp)))
      refine ⟨_, .below (.append (Expr.listed_counted values _ _) (.keep (hbody _))),
        (append_assoc ..).symm⟩
  · next heq =>
      cases heq
      exact ⟨[], .nil, rfl⟩

theorem declare_counted {p : Place} {s : Span} {fields : List Tree} {d : VarDecl}
    (h : VarDecl.ofFields? p s fields = some d) :
    Counted (Stmt.declare d).places ((Tree.node .varDecl s fields).nodes p) := by
  unfold VarDecl.ofFields? at h
  split at h
  · next init =>
      cases h
      exact .node (.skip (.skip (.keep (Expr.places?_counted init _))))
  · cases h

/-- **The places of a statement are places of nodes of its tree.** -/
theorem places_counted (t : Tree) : CountedIn t := by
  induction t using Tree.induction with
  | step t ih =>
    intro p
    unfold ofTree
    split
    · split
      · next hd => exact declare_counted hd
      · exact .nil
    · next target value =>
        exact .below (.append (Expr.places_counted target _) (.keep (Expr.places_counted value _)))
    · next e => exact .below (.keep (Expr.places_counted e _))
    · next value => exact .below (.keep (Expr.places?_counted value _))
    · next message => exact .below (.keep (Expr.places?_counted message _))
    · exact .nil
    · exact .nil
    · exact .nil
    · next condition body branches otherwise =>
        have hbody := block_counted body fun c hc => ih c (Nat.lt_trans hc (sizeOf_field (by simp)))
        have hmore := branches_counted branches fun t ht c hc =>
          ih c (Nat.lt_trans hc (sizeOf_listed ht (by simp)))
        have hlast := block?_counted otherwise fun c hc =>
          ih c (Nat.lt_trans hc (sizeOf_field (by simp)))
        exact .below (.append (Expr.places_counted condition _) (.append (hbody _)
          (.append (hmore _ _) (.keep (hlast _)))))
    · next subject arms otherwise =>
        have harms := cases_counted arms fun t ht c hc =>
          ih c (Nat.lt_trans hc (sizeOf_listed ht (by simp)))
        have hlast := block?_counted otherwise fun c hc =>
          ih c (Nat.lt_trans hc (sizeOf_field (by simp)))
        exact .below (.append (Expr.places_counted subject _)
          (.append (harms _ _) (.keep (hlast _))))
    · next condition body =>
        have hbody := block_counted body fun c hc => ih c (Nat.lt_trans hc (sizeOf_field (by simp)))
        exact .below (.append (Expr.places_counted condition _) (.keep (hbody _)))
    · next name iterable body =>
        have hbody := block_counted body fun c hc => ih c (Nat.lt_trans hc (sizeOf_field (by simp)))
        exact .node (.skip (.append (Expr.places_counted iterable _) (.keep (hbody _))))
    · next statements =>
        have hs := items_counted statements fun c hc => ih c (sizeOf_listed hc (by simp))
        exact .below (.keep (hs _ _))
    · split <;> exact .nil
    · exact .nil

end Stmt

/-! ### No place is used twice -/

namespace Counted

variable {a : List Place} {n : List (Place × NodeClass)}

theorem mem (h : Counted a n) {q : Place} (hq : q ∈ a) : ∃ m ∈ n, m.1 = q := by
  have hpos : 0 < (n.map Prod.fst).count q := Nat.lt_of_lt_of_le (count_pos_iff.2 hq) (h q)
  exact mem_map.1 (count_pos_iff.1 hpos)

theorem nodup (h : Counted a n) (hn : (n.map Prod.fst).Nodup) : a.Nodup :=
  nodup_iff_count_le_one.2 fun q => Nat.le_trans (h q) (nodup_iff_count_le_one.1 hn q)

end Counted

/-- The places are different, and all of them are below `p`. -/
structure Place.Spread (p : Place) (places : List Place) : Prop where
  nodup : places.Nodup
  above : ∀ q ∈ places, p.Above q

namespace Place.Spread

variable {p : Place} {places : List Place}

theorem nil : p.Spread [] := ⟨nodup_nil, nofun⟩

theorem self : p.Spread [p] := ⟨nodup_singleton p, fun _ hq => mem_singleton.1 hq ▸ .refl p⟩

theorem of_counted {t : Tree} (hk : t.keysDistinct = true) (h : Counted places (t.nodes p)) :
    p.Spread places where
  nodup := h.nodup (nodes_nodup hk)
  above q hq := by
    obtain ⟨n, hn, rfl⟩ := h.mem hq
    exact nodes_above hn

/-- Below a step, and so below where the step starts. -/
theorem of_under {s : Step} (h : (p.under s).Spread places) : p.Spread places :=
  ⟨h.nodup, fun q hq => (h.above q hq).of_under⟩

/-- What is below one step, and then what is below others. -/
theorem append {s : Step} {others : List Place} (h : (p.under s).Spread places)
    (ho : p.Spread others)
    (hne : ∀ q ∈ others, ∃ s', s' ≠ s ∧ (p.under s').Above q) : p.Spread (places ++ others) where
  nodup := by
    refine nodup_append'.2 ⟨h.nodup, ho.nodup, fun q hq hq' => ?_⟩
    obtain ⟨s', hs', habove⟩ := hne q hq'
    exact hs' (step_eq_of_above habove (h.above q hq))
  above q hq := (mem_append.1 hq).elim (fun hq => (h.above q hq).of_under) (ho.above q)

/-- The places of the items of a list, each below its own number. -/
theorem items {α : Type} {f : α → List Place} {g : Nat → Tree → α} {l : List Tree}
    (h : ∀ i, ∀ t ∈ l, (p.under (.item i)).Spread (f (g i t))) :
    p.Spread ((l.mapIdx g).flatMap f) := by
  -- Numbering from `k` on, so that the numbers left over stay larger than the one just used.
  suffices hfrom : ∀ k, (∀ i, ∀ t ∈ l, (p.under (.item (i + k))).Spread (f (g (i + k) t))) →
      p.Spread ((l.mapIdx fun i => g (i + k)).flatMap f) ∧
      ∀ q ∈ (l.mapIdx fun i => g (i + k)).flatMap f, ∃ j, k ≤ j ∧ (p.under (.item j)).Above q from
    (hfrom 0 h).1
  clear h
  induction l with
  | nil => exact fun k _ => ⟨nil, nofun⟩
  | cons t rest ih =>
    intro k h
    have hshift : (rest.mapIdx fun i => g (i + 1 + k)) = rest.mapIdx fun i => g (i + (k + 1)) := by
      simp only [Nat.add_assoc, Nat.add_comm 1 k]
    have hfirst : (p.under (.item k)).Spread (f (g k t)) := by
      simpa using h 0 t mem_cons_self
    obtain ⟨hrest, hlarger⟩ := ih (k + 1) fun i t ht => by
      have hi := h (i + 1) t (mem_cons_of_mem _ ht)
      rwa [Nat.add_assoc, Nat.add_comm 1 k] at hi
    rw [mapIdx_cons, flatMap_cons, hshift, Nat.zero_add]
    refine ⟨hfirst.append hrest fun q hq => ?_, fun q hq => ?_⟩
    · obtain ⟨j, hj, habove⟩ := hlarger q hq
      refine ⟨_, fun heq => ?_, habove⟩
      have hjk : j = k := Step.item.inj heq
      omega
    · rcases mem_append.1 hq with hq | hq
      · exact ⟨k, Nat.le_refl k, hfirst.above q hq⟩
      · obtain ⟨j, hj, habove⟩ := hlarger q hq
        exact ⟨j, Nat.le_of_succ_le hj, habove⟩

end Place.Spread

theorem Tree.keysDistinctAll_iff {items : List Tree} :
    keysDistinctAll items = true ↔ ∀ t ∈ items, t.keysDistinct = true := by
  induction items with
  | nil => simp [keysDistinctAll]
  | cons t rest ih => simp [keysDistinctAll, ih]

/-- Any value may be read as a parameter, and has the place it was read at. -/
theorem Param.place_ofTree (p : Place) (t : Tree) : (ofTree p t).origin.place = p := by
  unfold ofTree
  split <;> rfl

theorem Param.spread_ofItems (p : Place) (items : List Tree) :
    p.Spread ((ofItems p items).map fun param => param.origin.place) := by
  rw [ofItems, map_eq_flatMap]
  refine .items fun i t _ => ?_
  rw [place_ofTree]
  exact .self

theorem Param.spread_ofTree? (p : Place) (t : Tree) :
    p.Spread ((ofTree? p t).toList.map fun param => param.origin.place) := by
  unfold ofTree?
  split
  · exact .nil
  · rw [Option.toList_some, map_singleton, place_ofTree]
    exact .self

theorem Stmt.block_spread {t : Tree} (hk : t.keysDistinct = true) (p : Place) :
    p.Spread (placesOfAll (ofBlock p t)) :=
  .of_counted hk (block_counted t (fun c _ => places_counted c) p)

/-- **A function that was read from a tree uses no place twice.** -/
theorem FunctionDef.spread_ofTree? {p : Place} {t : Tree} {f : FunctionDef}
    (hk : t.keysDistinct = true) (h : ofTree? p t = some f) : p.Spread f.places := by
  unfold ofTree? at h
  split at h
  · next s name params returns body receiver =>
      cases h
      have hbody : body.keysDistinct = true := keysDistinctAll_iff.1 hk body (by simp)
      have hp : (p.under (.field "parameters")).Spread _ := Param.spread_ofItems _ params
      have hb : (p.under (.field "body")).Spread _ := Stmt.block_spread hbody _
      have hr : (p.under (.field "receiver")).Spread _ := Param.spread_ofTree? _ receiver
      have htail := hb.append hr.of_under fun q hq => ⟨_, by decide, hr.above q hq⟩
      refine hp.append htail fun q hq => ?_
      rcases mem_append.1 hq with hq | hq
      · exact ⟨_, by decide, hb.above q hq⟩
      · exact ⟨_, by decide, hr.above q hq⟩
  · cases h

theorem VarDecl.spread_ofTree {p : Place} {t : Tree} (hk : t.keysDistinct = true) :
    p.Spread (placesOfEntry (VarDecl.ofTree p t)) := by
  unfold VarDecl.ofTree
  split
  · split
    · next hfields => exact .of_counted hk (Stmt.declare_counted hfields)
    · exact .nil
  · exact .nil

theorem FunctionDef.spread_ofTree {p : Place} {t : Tree} (hk : t.keysDistinct = true) :
    p.Spread (placesOfEntry (FunctionDef.ofTree p t)) := by
  unfold FunctionDef.ofTree
  split
  · next hread => exact spread_ofTree? hk hread
  · exact .nil

/-- **A module that was read from a tree uses no place twice.** -/
theorem Module.places_nodup {p : Place} {t : Tree} {m : Module} (hk : t.keysDistinct = true)
    (h : Module.ofTree? p t = some m) : m.places.Nodup := by
  unfold Module.ofTree? at h
  split at h
  · next s name types vars functions =>
      cases h
      have hvars : keysDistinctAll vars = true := keysDistinctAll_iff.1 hk (.list vars) (by simp)
      have hfunctions : keysDistinctAll functions = true :=
        keysDistinctAll_iff.1 hk (.list functions) (by simp)
      have hv : (p.under (.field "variables")).Spread ((vars.mapIdx fun i t =>
          VarDecl.ofTree ((p.field "variables").item i) t).flatMap VarDecl.placesOfEntry) :=
        .items fun i t ht => VarDecl.spread_ofTree (keysDistinctAll_iff.1 hvars t ht)
      have hf : (p.under (.field "functions")).Spread ((functions.mapIdx fun i t =>
          FunctionDef.ofTree ((p.field "functions").item i) t).flatMap FunctionDef.placesOfEntry) :=
        .items fun i t ht => FunctionDef.spread_ofTree (keysDistinctAll_iff.1 hfunctions t ht)
      exact (hv.append hf.of_under fun q hq => ⟨_, by decide, hf.above q hq⟩).nodup
  · cases h

end TreeTyping
