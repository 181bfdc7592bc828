/-! # Syntax trees

The tree that a parser makes of a source file. Nodes know their kind, the bytes they cover and
their role in the node above. A cursor is a node together with what stands around it. -/

namespace CallAtlas

/-- A node of a syntax tree: its kind, the bytes from `start` to `stop`, its role in the node above,
and the nodes below. -/
inductive Tree where
  | node (kind : String) (start stop : Int) (role : Option String) (children : List Tree)
  deriving Repr

instance : Inhabited Tree := ⟨.node "" 0 0 none []⟩

namespace Tree

def kind : Tree → String
  | node k _ _ _ _ => k

def start : Tree → Int
  | node _ s _ _ _ => s

def stop : Tree → Int
  | node _ _ e _ _ => e

def role : Tree → Option String
  | node _ _ _ r _ => r

def children : Tree → List Tree
  | node _ _ _ _ cs => cs

/-- The first child with a role. -/
def child? (t : Tree) (role : String) : Option Tree := t.children.find? fun c => c.role == some role

/-- The first child of a kind. -/
def ofKind? (t : Tree) (kind : String) : Option Tree := t.children.find? fun c => c.kind == kind

mutual
/-- A node and all nodes below it, each before those below it. -/
def preorder : Tree → List Tree
  | t@(node _ _ _ _ cs) => t :: preorderAll cs
def preorderAll : List Tree → List Tree
  | [] => []
  | t :: ts => preorder t ++ preorderAll ts
end

/-- The nodes of a kind in a tree. -/
def ofKind (kind : String) (t : Tree) : List Tree := t.preorder.filter fun n => n.kind == kind

end Tree

/-- A node with the nodes above it, the nearest first, and the nodes before it under the same node,
the nearest first. -/
structure Cursor where
  tree : Tree
  above : List Tree
  before : List Tree

namespace Cursor

mutual
/-- Cursors at a node and at all nodes below it, each before those below it. -/
def walk (above before : List Tree) : Tree → List Cursor
  | t@(.node _ _ _ _ cs) => ⟨t, above, before⟩ :: walkAll (t :: above) [] cs
def walkAll (above before : List Tree) : List Tree → List Cursor
  | [] => []
  | t :: ts => walk above before t ++ walkAll above (t :: before) ts
end

/-- Cursors at all nodes of a tree. -/
def all (root : Tree) : List Cursor := walk [] [] root

/-- Cursors at the nodes of a kind in a tree. -/
def ofKind (kind : String) (root : Tree) : List Cursor :=
  (all root).filter fun c => c.tree.kind == kind

mutual
theorem map_tree_walk (above before : List Tree) :
    (t : Tree) → (walk above before t).map tree = t.preorder
  | .node k s e r cs => by
    rw [walk, Tree.preorder, List.map_cons, map_tree_walkAll (.node k s e r cs :: above) [] cs]
theorem map_tree_walkAll (above before : List Tree) :
    (ts : List Tree) → (walkAll above before ts).map tree = Tree.preorderAll ts
  | [] => by rw [walkAll, Tree.preorderAll, List.map_nil]
  | t :: ts => by
    rw [walkAll, Tree.preorderAll, List.map_append, map_tree_walk above before t,
      map_tree_walkAll above (t :: before) ts]
end

/-- Cursors stand at the nodes of the tree, in the same order. -/
@[simp]
theorem map_tree_all (root : Tree) : (all root).map tree = root.preorder := map_tree_walk [] [] root

end Cursor

end CallAtlas
