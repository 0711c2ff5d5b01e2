import TypedTree.Tree.Walk

/-!
# Forests

A `Forest` is a number of trees over one registry together with what was taken from them and
kept under a name: snapshots of roots and views of nodes. A snapshot can be installed in any
tree, and a view can be offered to any tree, so both belong to the forest.

## Main definitions

* `Forest`: trees, snapshots, views.
* `Forest.sharers`: how many roots and snapshots are one edition.
-/

namespace TypedTree

/-- Trees, and what was taken from them. The identity of a tree is its position. -/
structure Forest where
  trees : List Tree
  /-- Named root editions; no name stands twice. -/
  snapshots : List (String × Edition)
  /-- Named views; no name stands twice. -/
  views : List (String × View)

namespace Forest

/-- No trees. -/
def empty : Forest := ⟨[], [], []⟩

/-- The identity of the next tree. -/
def nextId (f : Forest) : Nat :=
  f.trees.length

/-- Add a tree. -/
def addTree (f : Forest) (t : Tree) : Forest :=
  { f with trees := f.trees ++ [t] }

/-- The tree at a position. -/
def tree? (f : Forest) (i : Nat) : Option Tree :=
  f.trees[i]?

/-- Put a changed tree in its position. -/
def setTree (f : Forest) (i : Nat) (t : Tree) : Forest :=
  { f with trees := f.trees.set i t }

/-- The snapshot under a name. -/
def snapshot? (f : Forest) (name : String) : Option Edition :=
  f.snapshots.lookup name

/-- Keep a snapshot under a name, in place of the one that was there. -/
def keepSnapshot (f : Forest) (name : String) (e : Edition) : Forest :=
  { f with snapshots := (name, e) :: f.snapshots.filter (·.1 != name) }

/-- The view under a name. -/
def view? (f : Forest) (name : String) : Option View :=
  f.views.lookup name

/-- Keep a view under a name, in place of the one that was there. -/
def keepView (f : Forest) (name : String) (v : View) : Forest :=
  { f with views := (name, v) :: f.views.filter (·.1 != name) }

/-- How many roots and snapshots are a given edition. -/
def sharers (f : Forest) (e : Edition) : Nat :=
  f.trees.countP (·.root.isSame e) + f.snapshots.countP (·.2.isSame e)

end Forest

end TypedTree
