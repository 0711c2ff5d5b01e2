import TypedTree.Tree.View

/-!
# Walks

A walk visits the nodes of a tree, parents before children and earlier children before later
ones. It looks up the children of a node before it visits the node, and ends at the first node
whose children cannot be looked up.

## Main definitions

* `Walk`: the views of the visited nodes, and the error that ended the walk early.
* `Tree.walk`: the walk over all nodes.
-/

namespace TypedTree

/-- What a walk has visited, and the error that ended it early, if one did. -/
structure Walk where
  visited : List View
  failure? : Option TreeError

namespace Walk

/-- A walk that ended before the first node. -/
def stop (e : TreeError) : Walk := ⟨[], some e⟩

/-- A walk that visits a node first. -/
def visit (v : View) (w : Walk) : Walk := ⟨v :: w.visited, w.failure?⟩

/-- Several walks one after another, up to the first that ended early. -/
def concat : List Walk → Walk
  | [] => ⟨[], none⟩
  | w :: rest =>
    match w.failure? with
    | some e => ⟨w.visited, some e⟩
    | none => ⟨w.visited ++ (concat rest).visited, (concat rest).failure?⟩

end Walk

namespace Tree

variable (r : Registry)

/-- The view of a child is of a smaller value. -/
theorem sizeOf_lt_of_mem_below {t : Tree} {v c : View} {cs : List View}
    (h : t.below r v = .ok cs) (hc : c ∈ cs) : sizeOf c.value < sizeOf v.value := by
  unfold below at h
  cases hn : v.children r with
  | error e => simp [hn, Except.map] at h
  | ok ns =>
    simp only [hn, Except.map, Except.ok.injEq] at h
    subst h
    obtain ⟨n, hm, rfl⟩ := List.mem_map.1 hc
    obtain ⟨child, hchild, hv⟩ := Node.exists_mem_of_mem_enterAll r hn hm
    rw [show (t.take (v.path ++ [n.1]) n.2).value = child.value from hv]
    exact Ty.sizeOf_lt_of_mem_children hchild

/-- The walk over a viewed node and everything below it. -/
def walkFrom (t : Tree) (v : View) : Walk :=
  match h : t.below r v with
  | .error e => .stop e
  | .ok cs =>
    .visit v (.concat (cs.attach.map fun c =>
      have := sizeOf_lt_of_mem_below r h c.2
      t.walkFrom c.1))
termination_by sizeOf v.value

/-- The walk over all nodes. -/
def walk (t : Tree) : Walk :=
  t.walkFrom r t.rootView

/-- A walk visits a node and then goes on below each child in turn. -/
theorem walkFrom_eq (t : Tree) (v : View) :
    t.walkFrom r v =
      match t.below r v with
      | .error e => .stop e
      | .ok cs => .visit v (.concat (cs.map (t.walkFrom r))) := by
  rw [walkFrom]
  split <;> rename_i h <;> simp [h]

end Tree

end TypedTree
