/-
Nodes of a tree have different places.

The place of a node is its path from the root, so everything below a node has a path that continues
the node's own, and what is below one field of a node is never below another: the two paths part at
the step after the node.  Fields of a class have different names and items of a list different
numbers.  That leaves the keys of objects.  A tree put together by hand might use a key twice, so
that no two keys of an object are the same is asked for here; a document or dictionary cannot do
otherwise.
-/
import Mathlib.Data.List.Nodup
import TreeTyping.Tree.Place

namespace TreeTyping

open List

namespace Place

/-- The place one step further. -/
def under (p : Place) (s : Step) : Place := ⟨p.tree, s :: p.path⟩

/-- The path to `q` leads through `p`. -/
def Above (p q : Place) : Prop := q.tree = p.tree ∧ p.path <:+ q.path

theorem Above.refl (p : Place) : p.Above p := ⟨rfl, suffix_refl _⟩

theorem Above.of_under {p q : Place} {s : Step} (h : (p.under s).Above q) : p.Above q :=
  ⟨h.1, (suffix_cons s p.path).trans h.2⟩

theorem not_under_above (p : Place) (s : Step) : ¬(p.under s).Above p := by
  rintro ⟨-, hsuffix⟩
  have hlength : p.path.length + 1 ≤ p.path.length := hsuffix.length_le
  omega

/-- From one place, different steps lead to different parts of a tree. -/
theorem step_eq_of_above {p q : Place} {s s' : Step} (h : (p.under s).Above q)
    (h' : (p.under s').Above q) : s = s' := by
  have hsame : s :: p.path <:+ s' :: p.path := suffix_of_suffix_length_le h.2 h'.2 (Nat.le_refl _)
  exact (List.cons.inj (hsame.eq_of_length rfl)).1

end Place

namespace Tree

mutual

/-- Whether every object, at every depth, uses each of its keys once. -/
def keysDistinct : Tree → Bool
  | .node _ _ fields => keysDistinctAll fields
  | .list items => keysDistinctAll items
  | .object entries => decide (entries.map Prod.fst).Nodup && keysDistinctEntries entries
  | _ => true

def keysDistinctAll : List Tree → Bool
  | [] => true
  | t :: rest => t.keysDistinct && keysDistinctAll rest

def keysDistinctEntries : List (String × Tree) → Bool
  | [] => true
  | (_, t) :: rest => t.keysDistinct && keysDistinctEntries rest

end

/-! ### Nodes are below the place they are counted from -/

mutual

theorem nodes_above : ∀ {t : Tree} {p : Place} {n : Place × NodeClass}, n ∈ t.nodes p → p.Above n.1
  | .node cls s fields, p, n, h => by
      rw [nodes] at h
      rcases mem_cons.1 h with rfl | h
      · exact .refl p
      · obtain ⟨spec, -, habove⟩ := nodesOfFields_above h
        exact habove.of_under
  | .list items, p, n, h => by
      rw [nodes] at h
      obtain ⟨i, -, habove⟩ := nodesOfItems_above h
      exact habove.of_under
  | .object entries, p, n, h => by
      rw [nodes] at h
      obtain ⟨key, -, habove⟩ := nodesOfEntries_above h
      exact habove.of_under
  | .null, _, _, h | .bool _, _, _, h | .int _, _, _, h | .float _, _, _, h | .text _, _, _, h
  | .operator _, _, _, h | .literalKind _, _, _, h | .location _, _, _, h => nomatch h

theorem nodesOfFields_above : ∀ {specs : List FieldSpec} {fields : List Tree} {p : Place}
    {n : Place × NodeClass}, n ∈ nodesOfFields p specs fields →
      ∃ spec ∈ specs, (p.under (.field spec.name)).Above n.1
  | spec :: specs, t :: rest, p, n, h => by
      rw [nodesOfFields] at h
      rcases mem_append.1 h with h | h
      · exact ⟨spec, mem_cons_self, nodes_above h⟩
      · obtain ⟨spec', hmem, habove⟩ := nodesOfFields_above h
        exact ⟨spec', mem_cons_of_mem _ hmem, habove⟩
  | [], [], _, _, h | [], _ :: _, _, _, h | _ :: _, [], _, _, h => nomatch h

theorem nodesOfItems_above : ∀ {items : List Tree} {i : Nat} {p : Place} {n : Place × NodeClass},
    n ∈ nodesOfItems p i items → ∃ j, i ≤ j ∧ (p.under (.item j)).Above n.1
  | t :: rest, i, p, n, h => by
      rw [nodesOfItems] at h
      rcases mem_append.1 h with h | h
      · exact ⟨i, Nat.le_refl i, nodes_above h⟩
      · obtain ⟨j, hj, habove⟩ := nodesOfItems_above h
        exact ⟨j, Nat.le_of_succ_le hj, habove⟩
  | [], _, _, _, h => nomatch h

theorem nodesOfEntries_above :
    ∀ {entries : List (String × Tree)} {p : Place} {n : Place × NodeClass},
    n ∈ nodesOfEntries p entries → ∃ key ∈ entries.map Prod.fst, (p.under (.key key)).Above n.1
  | (key, t) :: rest, p, n, h => by
      rw [nodesOfEntries] at h
      rcases mem_append.1 h with h | h
      · exact ⟨key, mem_cons_self, nodes_above h⟩
      · obtain ⟨key', hmem, habove⟩ := nodesOfEntries_above h
        exact ⟨key', mem_cons_of_mem _ hmem, habove⟩
  | [], _, _, h => nomatch h

end

/-! ### No place occurs twice -/

theorem fieldNames_nodup (cls : NodeClass) : (cls.fields.map FieldSpec.name).Nodup := by
  cases cls <;> decide

theorem nodup_append_of_steps {a b : List (Place × NodeClass)} {p : Place} {s : Step}
    (ha : (a.map Prod.fst).Nodup) (hb : (b.map Prod.fst).Nodup)
    (hfirst : ∀ n ∈ a, (p.under s).Above n.1)
    (hsecond : ∀ n ∈ b, ∃ s', s' ≠ s ∧ (p.under s').Above n.1) : ((a ++ b).map Prod.fst).Nodup := by
  rw [map_append]
  refine nodup_append'.2 ⟨ha, hb, fun q hqa hqb => ?_⟩
  obtain ⟨n, hn, rfl⟩ := mem_map.1 hqa
  obtain ⟨n', hn', heq⟩ := mem_map.1 hqb
  obtain ⟨s', hne, habove⟩ := hsecond n' hn'
  exact hne (Place.step_eq_of_above (heq ▸ habove) (hfirst n hn))

mutual

/-- **No two nodes of a tree have the same place**, if no object uses a key twice. -/
theorem nodes_nodup : ∀ {t : Tree} {p : Place}, t.keysDistinct = true →
    ((t.nodes p).map Prod.fst).Nodup
  | .node cls s fields, p, h => by
      rw [nodes, map_cons]
      refine nodup_cons.2 ⟨fun hmem => ?_, nodesOfFields_nodup (fieldNames_nodup cls) h⟩
      obtain ⟨n, hn, heq⟩ := mem_map.1 hmem
      obtain ⟨spec, -, habove⟩ := nodesOfFields_above hn
      exact Place.not_under_above p _ (heq ▸ habove)
  | .list items, p, h => nodesOfItems_nodup h
  | .object entries, p, h => by
      obtain ⟨hkeys, hvalues⟩ := Bool.and_eq_true_iff.1 h
      exact nodesOfEntries_nodup (of_decide_eq_true hkeys) hvalues
  | .null, _, _ | .bool _, _, _ | .int _, _, _ | .float _, _, _ | .text _, _, _ | .operator _, _, _
  | .literalKind _, _, _ | .location _, _, _ => nodup_nil

theorem nodesOfFields_nodup : ∀ {specs : List FieldSpec} {fields : List Tree} {p : Place},
    (specs.map FieldSpec.name).Nodup → keysDistinctAll fields = true →
      ((nodesOfFields p specs fields).map Prod.fst).Nodup
  | spec :: specs, t :: rest, p, hnames, h => by
      obtain ⟨ht, hrest⟩ := Bool.and_eq_true_iff.1 h
      obtain ⟨hfresh, hspecs⟩ := nodup_cons.1 hnames
      rw [nodesOfFields]
      refine nodup_append_of_steps (nodes_nodup ht) (nodesOfFields_nodup hspecs hrest)
        (fun n hn => nodes_above hn) fun n hn => ?_
      obtain ⟨spec', hmem, habove⟩ := nodesOfFields_above hn
      refine ⟨_, fun heq => hfresh ?_, habove⟩
      exact mem_map.2 ⟨spec', hmem, Step.field.inj heq⟩
  | [], [], _, _, _ | [], _ :: _, _, _, _ | _ :: _, [], _, _, _ => nodup_nil

theorem nodesOfItems_nodup : ∀ {items : List Tree} {i : Nat} {p : Place},
    keysDistinctAll items = true → ((nodesOfItems p i items).map Prod.fst).Nodup
  | t :: rest, i, p, h => by
      obtain ⟨ht, hrest⟩ := Bool.and_eq_true_iff.1 h
      rw [nodesOfItems]
      refine nodup_append_of_steps (nodes_nodup ht) (nodesOfItems_nodup hrest)
        (fun n hn => nodes_above hn) fun n hn => ?_
      obtain ⟨j, hj, habove⟩ := nodesOfItems_above hn
      refine ⟨_, fun heq => ?_, habove⟩
      have hij : j = i := Step.item.inj heq
      omega
  | [], _, _, _ => nodup_nil

theorem nodesOfEntries_nodup : ∀ {entries : List (String × Tree)} {p : Place},
    (entries.map Prod.fst).Nodup → keysDistinctEntries entries = true →
      ((nodesOfEntries p entries).map Prod.fst).Nodup
  | (key, t) :: rest, p, hkeys, h => by
      obtain ⟨ht, hrest⟩ := Bool.and_eq_true_iff.1 h
      obtain ⟨hfresh, hkeys⟩ := nodup_cons.1 hkeys
      rw [nodesOfEntries]
      refine nodup_append_of_steps (nodes_nodup ht) (nodesOfEntries_nodup hkeys hrest)
        (fun n hn => nodes_above hn) fun n hn => ?_
      obtain ⟨key', hmem, habove⟩ := nodesOfEntries_above hn
      exact ⟨_, fun heq => hfresh (Step.key.inj heq ▸ hmem), habove⟩
  | [], _, _, _ => nodup_nil

end

end Tree

end TreeTyping
