import TypedTree.Proofs.Runs

/-!
# Reading after writing

Setting the node at a path of a tree changes that node and nothing beside it. What is found below
the path is found in the new value, what is found beside the path is found as before, setting what
is there changes nothing, and of two values set one after the other the second remains.

A step of a path is found anew in every tree, as an index among the children of the moment, and the
nodes above are rebuilt by index. The laws hold because a write leaves the labels of all children
alone, so a step has the same index before and after.

## Main statements

* `Node.step_rebuilt`, `Node.step_beside`: steps from a rebuilt node.
* `Node.descend_rebuilt`, `Node.descend_beside`: paths from a rebuilt node.
* `Tree.set_spec`: the laws for reachable trees.
-/

namespace TypedTree

namespace Node

variable {r : Registry} {n m : Node} {p q whole whole' : Path} {s s' : Step} {i : Nat}
  {v w x : Value}

/-! ## One step -/

/-- The step to a child leads to the new child once it is written. -/
theorem step_rebuilt (hs : n.step r whole s = .ok (i, m))
    (hw : n.type.setChild? n.value i w = some v) :
    (⟨n.type, v⟩ : Node).step r whole' s = .ok (i, ⟨m.type, w⟩) := by
  obtain ⟨c, behind, resolve, -⟩ := step_eq_ok.1 hs
  obtain ⟨index, child⟩ := behind?_eq_some.1 behind
  refine step_eq_ok.2 ⟨{ c with value := w }, behind?_eq_some.2 ⟨?_, ?_⟩, resolve, rfl⟩
  · exact (Ty.childIndex?_setChild? hw s).trans index
  · exact Ty.child?_setChild? hw child

/-- Any other step leads to where it led before. -/
theorem step_beside (hs : n.step r whole s = .ok (i, m))
    (hw : n.type.setChild? n.value i w = some v) (other : s ≠ s') :
    (⟨n.type, v⟩ : Node).step r whole' s' = n.step r whole' s' := by
  obtain ⟨c, behind, -⟩ := step_eq_ok.1 hs
  obtain ⟨index, -⟩ := behind?_eq_some.1 behind
  have same : (⟨n.type, v⟩ : Node).behind? s' = n.behind? s' := by
    ext ⟨j, d⟩
    simp only [behind?_eq_some, Ty.childIndex?_setChild? hw]
    refine and_congr_right ?_
    intro index'
    have hij : i ≠ j := fun same => other (Ty.childIndex?_inj index (same ▸ index'))
    rw [Ty.child?_setChild?_of_ne hw hij]
  unfold step
  rw [same]

/-! ## Paths -/

/-- Below a changed node, paths lead on from the new value. -/
theorem descend_rebuilt (hd : n.descend r whole p = .ok m)
    (hm : n.modifyAt r (fun _ => .ok v) whole p = .ok x) :
    (⟨n.type, x⟩ : Node).descend r whole' (p ++ q) = (⟨m.type, v⟩ : Node).descend r whole' q := by
  induction p generalizing n x with
  | nil =>
    obtain ⟨made, -⟩ := modifyAt_nil_eq_ok.1 hm
    obtain rfl := Except.ok.inj made
    obtain rfl := Except.ok.inj hd
    rfl
  | cons s p ih =>
    obtain ⟨i, k, hs, hd⟩ := descend_cons_eq_ok.1 hd
    obtain ⟨i', k', w, hs', changed, written⟩ := modifyAt_cons_eq_ok.1 hm
    obtain ⟨rfl, rfl⟩ := Prod.mk.inj (Except.ok.inj (hs.symm.trans hs'))
    rw [List.cons_append, descend, step_rebuilt hs written, Outcome.ok_bind]
    exact ih hd changed

/-- Beside a changed node, paths lead to where they led before, or fail as they did. -/
theorem descend_beside (hm : n.modifyAt r (fun _ => .ok v) whole p = .ok x)
    (hpq : ¬ p <+: q) (hqp : ¬ q <+: p) :
    (⟨n.type, x⟩ : Node).descend r whole' q = n.descend r whole' q := by
  induction p generalizing n x q with
  | nil => exact absurd List.nil_prefix hpq
  | cons s p ih =>
    cases q with
    | nil => exact absurd List.nil_prefix hqp
    | cons s' q =>
      obtain ⟨i, k, w, hs, changed, written⟩ := modifyAt_cons_eq_ok.1 hm
      by_cases other : s = s'
      · subst other
        simp only [List.cons_prefix_cons, true_and] at hpq hqp
        have before : n.step r whole' s = .ok (i, k) := step_eq_ok.2 (step_eq_ok.1 hs)
        rw [descend, step_rebuilt hs written, Outcome.ok_bind, descend, before, Outcome.ok_bind]
        exact ih changed hpq hqp
      · rw [descend, step_beside hs written other, descend]

/-- Setting what is there changes nothing. -/
theorem modifyAt_value {home : Nat} (h : n.Valid (.core home))
    (hd : n.descend (.core home) whole p = .ok m) :
    n.modifyAt (.core home) (fun _ => .ok m.value) whole p = .ok n.value := by
  induction p generalizing n with
  | nil =>
    obtain rfl := Except.ok.inj hd
    exact modifyAt_nil_eq_ok.2 ⟨rfl, h.accepted⟩
  | cons s p ih =>
    obtain ⟨i, k, hs, hd⟩ := descend_cons_eq_ok.1 hd
    refine modifyAt_cons_eq_ok.2 ⟨i, k, k.value, hs, ih (h.step hs) hd, ?_⟩
    obtain ⟨c, behind, -, value⟩ := step_eq_ok.1 hs
    rw [← value]
    exact Ty.setChild?_value (behind?_eq_some.1 behind).2

/-- Setting twice is setting the second time. -/
theorem modifyAt_modifyAt (hv : n.modifyAt r (fun _ => .ok v) whole p = .ok x) {y : Value}
    (hw : (⟨n.type, x⟩ : Node).modifyAt r (fun _ => .ok w) whole p = .ok y) :
    n.modifyAt r (fun _ => .ok w) whole p = .ok y := by
  induction p generalizing n x y with
  | nil =>
    obtain ⟨made, accepted⟩ := modifyAt_nil_eq_ok.1 hw
    exact modifyAt_nil_eq_ok.2 ⟨made, accepted⟩
  | cons s p ih =>
    obtain ⟨i, k, x', hs, changed, written⟩ := modifyAt_cons_eq_ok.1 hv
    obtain ⟨i', k', y', hs', changed', written'⟩ := modifyAt_cons_eq_ok.1 hw
    obtain ⟨rfl, rfl⟩ := Prod.mk.inj (Except.ok.inj ((step_rebuilt hs written).symm.trans hs'))
    refine modifyAt_cons_eq_ok.2 ⟨i, k, y', hs, ih changed changed', ?_⟩
    rw [← Ty.setChild?_setChild? written]
    exact written'

end Node

namespace Tree

variable {home : Nat} {t u : Tree} {p : Path} {v : Value} {n : Node}

theorem change_set_eq_ok {r : Registry} :
    t.change r p (.set v) = .ok u ↔
      ∃ x, t.rootNode.modifyAt r (fun _ => .ok v) p p = .ok x ∧ u = t.advance x := by
  simp only [change, Change.apply, Outcome.bind_eq_ok, Except.ok.injEq, eq_comm (a := u)]

/-- The laws of setting the node at a path of a reachable tree: the path shows the new value at the
same type; paths that neither extend the path nor are extended by it lead to what they led to, or
fail as they did; paths below are followed in the new value; setting the value that is there leaves
the root as it is; and setting another value afterwards gives the root that setting it alone
gives. -/
theorem set_spec (h : Reachable (.core home) t) (hp : t.node (.core home) p = .ok n)
    (hv : t.change (.core home) p (.set v) = .ok u) :
    (u.valueAt (.core home) p = .ok v ∧ u.typeAt (.core home) p = t.typeAt (.core home) p) ∧
      (∀ q, ¬ p <+: q → ¬ q <+: p →
        u.valueAt (.core home) q = t.valueAt (.core home) q ∧
          u.typeAt (.core home) q = t.typeAt (.core home) q) ∧
      (∀ q, u.node (.core home) (p ++ q) =
        (⟨n.type, v⟩ : Node).descend (.core home) (p ++ q) q) ∧
      (∃ same, t.change (.core home) p (.set n.value) = .ok same ∧
        same.root.value = t.root.value) ∧
      ∀ w both, u.change (.core home) p (.set w) = .ok both →
        ∃ alone, t.change (.core home) p (.set w) = .ok alone ∧
          alone.root.value = both.root.value := by
  obtain ⟨x, changed, rfl⟩ := change_set_eq_ok.1 hv
  have below (q : Path) : (t.advance x).node (.core home) (p ++ q) =
      (⟨n.type, v⟩ : Node).descend (.core home) (p ++ q) q :=
    Node.descend_rebuilt hp changed
  have here : (t.advance x).node (.core home) p = .ok ⟨n.type, v⟩ := by
    simpa [Node.descend] using below []
  refine ⟨⟨?_, ?_⟩, ?_, below, ?_, ?_⟩
  · simp [valueAt, here, Except.map]
  · simp [typeAt, here, hp, Except.map]
  · intro q hpq hqp
    have beside : (t.advance x).node (.core home) q = t.node (.core home) q :=
      Node.descend_beside changed hpq hqp
    simp only [valueAt, typeAt, beside, and_self]
  · exact ⟨_, change_set_eq_ok.2 ⟨_, Node.modifyAt_value h.valid hp, rfl⟩, rfl⟩
  · intro w both hw
    obtain ⟨y, changed', rfl⟩ := change_set_eq_ok.1 hw
    exact ⟨_, change_set_eq_ok.2 ⟨y, Node.modifyAt_modifyAt changed changed', rfl⟩, rfl⟩

/-- A sum of which the second summand is a pair of truth values: the first of these is set, and the
second stays. -/
theorem set_spec_summand :
    ∃ t u, Reachable (.core 0) t ∧
      t.change (.core 0) [.index 1, .index 0] (.set (.bool true)) = .ok u ∧
        u.root.value = .sum 1 (.tuple [.bool true, .bool false]) ∧
          u.valueAt (.core 0) [.index 1, .index 1] = t.valueAt (.core 0) [.index 1, .index 1] := by
  have started : Started (.core 0) _ :=
    .ofValue (show (Registry.core 0).resolveBy .strict
        (.sum [.text, .tuple [.bool, .bool]] 0) = .ok _ from rfl)
      (show Tree.ofValue _ 0 _ (.sum 1 (.tuple [.bool false, .bool false])) = .ok _ from rfl)
  have reachable : Reachable (.core 0) _ := ⟨_, [], started, rfl⟩
  have laws := set_spec reachable
    (show Tree.node (.core 0) _ [.index 1, .index 0] = .ok _ from rfl)
    (show Tree.change (.core 0) _ [.index 1, .index 0] (.set (.bool true)) = .ok _ from rfl)
  exact ⟨_, _, reachable, rfl, rfl, (laws.2.1 [.index 1, .index 1] (by decide) (by decide)).1⟩

end Tree

end TypedTree
