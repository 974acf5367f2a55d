/-
Places of nodes.

Every node of a tree is reached from the root by a path: a field of a node, an item of a list, a
value of an object.  What checking finds out about a node is recorded under its place, that is, its
path and the number of the tree it belongs to, so the tree itself is never changed.  `Tree.nodes`
lists the nodes of a tree with their paths, a node before what is below it.
-/
import TreeTyping.Tree.Basic

namespace TreeTyping

/-- One step from a node or value to what it holds. -/
inductive Step where
  | field (name : String)
  | item (index : Nat)
  | key (name : String)
deriving DecidableEq, Repr

/-- The steps from the root to a node, last step first. -/
abbrev Path := List Step

namespace Path

/-- The path followed by a name: a dot divides them unless the path is empty. -/
def dotted (front name : String) : String := if front == "" then name else front ++ "." ++ name

def text : Path → String
  | [] => ""
  | .field name :: above => dotted (text above) name
  | .item index :: above => text above ++ "[" ++ toString index ++ "]"
  | .key name :: above => dotted (text above) name

end Path

structure Place where
  tree : Nat
  path : Path
deriving DecidableEq, Repr

namespace Place

def root (tree : Nat) : Place := ⟨tree, []⟩

def field (p : Place) (name : String) : Place := ⟨p.tree, .field name :: p.path⟩

def item (p : Place) (index : Nat) : Place := ⟨p.tree, .item index :: p.path⟩

def key (p : Place) (name : String) : Place := ⟨p.tree, .key name :: p.path⟩

end Place

namespace Tree

mutual

/-- The nodes of a tree, each with its place and class, in preorder. -/
def nodes (p : Place) : Tree → List (Place × NodeClass)
  | .node cls _ fields => (p, cls) :: nodesOfFields p cls.fields fields
  | .list items => nodesOfItems p 0 items
  | .object entries => nodesOfEntries p entries
  | _ => []

/-- The nodes of field values, under the names of the fields. -/
def nodesOfFields (p : Place) : List FieldSpec → List Tree → List (Place × NodeClass)
  | spec :: specs, t :: rest => nodes (p.field spec.name) t ++ nodesOfFields p specs rest
  | _, _ => []

/-- The nodes of the items of a list, numbered from `index` on. -/
def nodesOfItems (p : Place) (index : Nat) : List Tree → List (Place × NodeClass)
  | [] => []
  | t :: rest => nodes (p.item index) t ++ nodesOfItems p (index + 1) rest

def nodesOfEntries (p : Place) : List (String × Tree) → List (Place × NodeClass)
  | [] => []
  | (key, t) :: rest => nodes (p.key key) t ++ nodesOfEntries p rest

end

end Tree

end TreeTyping
