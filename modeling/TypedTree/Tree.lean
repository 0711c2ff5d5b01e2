import TypedTree.Tree.Node

/-!
# Value trees

A `Tree` is a value of a type, seen as nodes that paths lead to. It is changed one node at a
time. Every change that succeeds gives the tree a new generation; one that fails leaves it as it
was.

The root of a tree is an `Edition`: a value that remembers which change installed it. A snapshot
is the edition of some moment. It can be installed again later, also in another tree, and is then
the same edition there.

## Main definitions

* `Edition`: a root value and where it comes from.
* `Tree`: a type, the edition of its root, and a generation.
* `Tree.ofValue`, `Tree.ofDefault`, `Tree.ofRef`: new trees.
* `Tree.node`, `Tree.typeAt`, `Tree.valueAt`: reading.
* `Change`, `Tree.change`, `Tree.replaceRoot`, `Tree.restore`: writing.
-/

namespace TypedTree

/-- A root value with the tree and the generation for which it was first installed. -/
structure Edition where
  value : Value
  tree : Nat
  generation : Nat
  deriving DecidableEq

/-- Whether two editions are one. -/
def Edition.isSame (a b : Edition) : Bool :=
  a.tree == b.tree && a.generation == b.generation

/-- A value of a type, to be read and changed node by node. -/
structure Tree where
  /-- The identity of the tree. -/
  id : Nat
  type : Ty
  root : Edition
  /-- How many changes the tree has seen. -/
  generation : Nat

/-- A change to the value of one node. -/
inductive Change where
  /-- Set it. -/
  | set (v : Value)
  /-- Compute it from the node. -/
  | modify (f : Node → Except TypeError Value)
  /-- Carry out an edit that the type of the node offers. -/
  | edit (e : Edit)

/-- The new value for a node. An error names the path `whole`. -/
def Change.apply (r : Registry) (whole : Path) (n : Node) : Change → Except TreeError Value
  | .set v => .ok v
  | .modify f => (f n).mapError .type
  | .edit e =>
    match n.type.edit? n.value e with
    | some x => (x.answer r.oracle).mapError .type
    | none => .error (.kindMismatch whole e.kindName n.type.kind.name)

namespace Tree

variable (r : Registry)

/-- A new tree that holds a value. -/
def plant (id : Nat) (type : Ty) (v : Value) : Tree :=
  ⟨id, type, ⟨v, id, 0⟩, 0⟩

/-- A new tree that holds a given value, which has to be valid. -/
def ofValue (id : Nat) (type : Ty) (v : Value) : Except TreeError Tree := do
  Node.admits r ⟨type, v⟩ v
  .ok (plant id type v)

/-- A new tree that holds the default of its type. -/
def ofDefault (id : Nat) (type : Ty) : Except TreeError Tree :=
  match type.default.answer r.oracle with
  | .ok v => .ok (plant id type v)
  | .error e => .error (.type e)

/-- A new tree that holds the default of the type of a reference. -/
def ofRef (policy : FailurePolicy) (id : Nat) (ref : TypeRef) : Except TreeError Tree :=
  match r.resolveBy policy ref with
  | .ok t => ofDefault r id t
  | .error e => .error (.type e)

/-! ## Reading -/

/-- The root node. -/
def rootNode (t : Tree) : Node :=
  ⟨t.type, t.root.value⟩

/-- The node that a path leads to. -/
def node (t : Tree) (p : Path) : Except TreeError Node :=
  t.rootNode.descend r p p

/-- The type of the node that a path leads to. -/
def typeAt (t : Tree) (p : Path) : Except TreeError Ty :=
  (t.node r p).map (·.type)

/-- The value of the node that a path leads to. -/
def valueAt (t : Tree) (p : Path) : Except TreeError Value :=
  (t.node r p).map (·.value)

/-! ## Writing -/

/-- The tree after a change that gave it the root value `v`. -/
def advance (t : Tree) (v : Value) : Tree :=
  { t with root := ⟨v, t.id, t.generation + 1⟩, generation := t.generation + 1 }

/-- Change the node that a path leads to. -/
def change (t : Tree) (p : Path) (c : Change) : Except TreeError Tree := do
  let v ← t.rootNode.modifyAt r (fun n => c.apply r p n) p p
  .ok (t.advance v)

/-- Install another root value, which has to be valid. -/
def replaceRoot (t : Tree) (v : Value) : Except TreeError Tree := do
  t.rootNode.admits r v
  .ok (t.advance v)

/-- Install an edition, whose value has to be valid. -/
def restore (t : Tree) (e : Edition) : Except TreeError Tree := do
  t.rootNode.admits r e.value
  .ok { t with root := e, generation := t.generation + 1 }

end Tree

end TypedTree
