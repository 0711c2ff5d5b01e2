import TypedTree.Tree

/-!
# Views

A `View` is a node of a tree as it was at some generation, together with the path to it. It stays
readable after the tree has changed, but is stale then. Further nodes are reached from a view only
while it is fresh; a stale view can be brought up to date through its path.

## Main definitions

* `View`: a node, its path, and when it was taken.
* `Tree.rootView`, `Tree.view`: views of the nodes of a tree.
* `Tree.childOf`, `Tree.childBehind`, `Tree.childrenOf`: from a view to views of its children.
* `Tree.resync`: the view of the same path, taken anew.
-/

namespace TypedTree

/-- A node as it was at a generation of a tree. -/
structure View extends Node where
  /-- The identity of the tree. -/
  tree : Nat
  generation : Nat
  path : Path

namespace View

/-- Whether a node has no children. -/
def isLeaf (v : View) : Bool :=
  v.childCount == 0

/-- Whether a view is of another tree or of an earlier generation. -/
def isStale (v : View) (t : Tree) : Bool :=
  v.tree != t.id || v.generation != t.generation

/-- Refuse a view that is not fresh. -/
def checkFresh (v : View) (t : Tree) : Except TreeError Unit :=
  if v.tree != t.id then .error (.foreignView v.path)
  else if v.isStale t then .error (.staleView v.path v.generation t.generation)
  else .ok ()

end View

namespace Tree

variable (r : Registry)

/-- A view, taken now. -/
def take (t : Tree) (p : Path) (n : Node) : View :=
  ⟨n, t.id, t.generation, p⟩

/-- The view of the root. -/
def rootView (t : Tree) : View :=
  t.take [] t.rootNode

/-- The view of the node that a path leads to. -/
def view (t : Tree) (p : Path) : Except TreeError View :=
  (t.node r p).map (t.take p)

/-- The view of the child at an index of a fresh view. -/
def childOf (t : Tree) (v : View) (i : Nat) : Except TreeError View := do
  v.checkFresh t
  match v.child? i with
  | some c =>
    let n ← Node.enter r c
    .ok (t.take (v.path ++ [c.step]) n)
  | none =>
    .error (.blocked v.path (.index (saturate i)) (.childCount v.type.name v.childCount))

/-- The view of the child behind a step of a fresh view. -/
def childBehind (t : Tree) (v : View) (s : Step) : Except TreeError View := do
  v.checkFresh t
  let (_, n) ← v.step r v.path s
  .ok (t.take (v.path ++ [s]) n)

/-- The views of the children of a view, whether it is fresh or not. -/
def below (t : Tree) (v : View) : Except TreeError (List View) :=
  (v.children r).map fun cs => cs.map fun c => t.take (v.path ++ [c.1]) c.2

/-- The views of all children of a fresh view. -/
def childrenOf (t : Tree) (v : View) : Except TreeError (List View) := do
  v.checkFresh t
  t.below r v

/-- The view of the same path, taken anew. -/
def resync (t : Tree) (v : View) : Except TreeError View :=
  t.view r v.path

end Tree

end TypedTree
