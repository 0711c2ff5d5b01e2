import TypedTree.Subtyping.Memory
import TypedTree.Tree.Error
import TypedTree.Ty.Child
import TypedTree.Ty.Display
import TypedTree.Ty.Edit

/-!
# Nodes

A node of a value tree is a type with a value of it. A step leads from a node to a child, and a
path from a node to one of its descendants. What a step leads to depends on the value, so types
along a path are resolved on the way down.

A change to a descendant is carried upwards: the new value of the descendant is checked against
its own type and put in place of the old one in every node above. Nodes above are not checked
again.

## Main definitions

* `Node`: a type and a value.
* `Node.step`, `Node.descend`: the node behind a step or path.
* `Node.children`: the nodes behind all steps.
* `Node.modifyAt`: the value of a node after a change to a descendant.
-/

namespace TypedTree

/-- A type and a value of it. -/
structure Node where
  type : Ty
  value : Value

namespace Node

/-- How many children a node has. -/
def childCount (n : Node) : Nat :=
  n.type.childCount n.value

/-- The child at an index, not yet resolved. -/
def child? (n : Node) (i : Nat) : Option Child :=
  n.type.child? n.value i

/-- The index of the child behind a step and the child itself, not yet resolved. -/
def behind? (n : Node) (step : Step) : Option (Nat × Child) := do
  let i ← n.type.childIndex? n.value step
  let c ← n.child? i
  some (i, c)

variable (r : Registry)

/-- The node of a child. -/
def enter (c : Child) : Except TreeError Node :=
  match r.resolve c.ref with
  | .ok t => .ok ⟨t, c.value⟩
  | .error e => .error (.type e)

/-- The node behind a step and its index. An error names the path `whole`. -/
def step (whole : Path) (n : Node) (s : Step) : Except TreeError (Nat × Node) :=
  match n.behind? s with
  | none => .error (.blocked whole s (.noChild n.type.name))
  | some (i, c) => do
    let m ← enter r c
    .ok (i, m)

/-- The node that a path leads to. An error names the path `whole`. -/
def descend (whole : Path) : Node → Path → Except TreeError Node
  | n, [] => .ok n
  | n, s :: rest => do
    let (_, m) ← n.step r whole s
    m.descend whole rest

/-- The nodes of several children with the steps to them, up to the first that does not
resolve. -/
def enterAll : List Child → Except TreeError (List (Step × Node))
  | [] => .ok []
  | c :: rest => do
    let m ← enter r c
    let ms ← enterAll rest
    .ok ((c.step, m) :: ms)

/-- The children of a node with the steps to them. -/
def children (n : Node) : Except TreeError (List (Step × Node)) :=
  enterAll r (n.type.children n.value)

theorem value_of_enter {c : Child} {n : Node} (h : enter r c = .ok n) : n.value = c.value := by
  unfold enter at h
  split at h
  · obtain rfl := Except.ok.inj h
    rfl
  · simp at h

theorem exists_mem_of_mem_enterAll {cs : List Child} {ms : List (Step × Node)} {m : Step × Node}
    (h : enterAll r cs = .ok ms) (hm : m ∈ ms) : ∃ c ∈ cs, m.2.value = c.value := by
  induction cs generalizing ms with
  | nil =>
    obtain rfl := Except.ok.inj h
    simp at hm
  | cons c cs ih =>
    cases hn : enter r c with
    | error e => simp [enterAll, hn, bind, Except.bind] at h
    | ok n =>
      cases hs : enterAll r cs with
      | error e => simp [enterAll, hn, hs, bind, Except.bind] at h
      | ok ns =>
        simp only [enterAll, hn, hs, bind, Except.bind, Except.ok.injEq] at h
        subst h
        rcases List.mem_cons.1 hm with rfl | hm
        · exact ⟨c, List.mem_cons_self, value_of_enter r hn⟩
        · obtain ⟨c', hc', he⟩ := ih hs hm
          exact ⟨c', List.mem_cons_of_mem _ hc', he⟩

/-- Refuse a value that is not valid for the type of the node. -/
def admits (n : Node) (v : Value) : Except TreeError Unit :=
  ((n.type.check v).answer r.oracle).mapError .type

/-- The node with another child at an index. -/
def withChild (n : Node) (i : Nat) (child : Value) : Except TreeError Value :=
  (n.type.withChild n.value i child).mapError .type

/-- The value of a node after the descendant at a path was changed by `f`. An error names the
path `whole`. -/
def modifyAt (f : Node → Except TreeError Value) (whole : Path) : Node → Path → Except TreeError Value
  | n, [] => do
    let v ← f n
    n.admits r v
    .ok v
  | n, s :: rest => do
    let (i, m) ← n.step r whole s
    let v ← m.modifyAt f whole rest
    n.withChild i v

/-- How the value of a node is shown. -/
def display (n : Node) : String :=
  (n.type.display n.value).answer r.oracle

end Node

end TypedTree
