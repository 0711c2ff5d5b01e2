import TypedTree.Proofs.Steps
import TypedTree.Proofs.Runs
import TypedTree.Tree.Walk

/-!
# Views of valid trees

A view shows a tree if the path of the view, followed anew, gives the view again. There are several
ways to a view: some follow a path from the root, others step on from a view that was there before.
In a valid tree they all agree: what is reached from a view that shows the tree shows the tree too.

## Main definitions

* `Tree.Shows`: whether a view shows a tree.

## Main statements

* `Tree.Shows.childOf`, `Tree.Shows.childBehind`, `Tree.Shows.below`: from a view to its children.
* `Tree.shows_walk`: the views that a walk visits.
* `View.refused`: a view that is not fresh leads nowhere.
-/

namespace TypedTree

namespace Node

variable {r : Registry} {n m k : Node} {p q whole whole' whole'' : Path} {s : Step} {i : Nat}

/-- Where a path leads does not depend on the path that errors name. -/
theorem descend_whole (h : n.descend r whole p = .ok m) : n.descend r whole' p = .ok m := by
  induction p generalizing n with
  | nil => exact h
  | cons s p ih =>
    obtain ⟨i, k, hs, hd⟩ := descend_cons_eq_ok.1 h
    exact descend_cons_eq_ok.2 ⟨i, k, step_eq_ok.2 (step_eq_ok.1 hs), ih hd⟩

/-- One path after another leads to where they lead one after the other. -/
theorem descend_append (hp : n.descend r whole p = .ok m) (hq : m.descend r whole' q = .ok k) :
    n.descend r whole'' (p ++ q) = .ok k := by
  induction p generalizing n with
  | nil =>
    obtain rfl := Except.ok.inj hp
    exact descend_whole hq
  | cons s p ih =>
    obtain ⟨i, n', hs, hd⟩ := descend_cons_eq_ok.1 hp
    exact descend_cons_eq_ok.2 ⟨i, n', step_eq_ok.2 (step_eq_ok.1 hs), ih hd⟩

/-- Every node among the children is the one of a child, behind the step to it. -/
theorem exists_enter_of_mem {cs : List Child} {ms : List (Step × Node)}
    (h : enterAll r cs = .ok ms) (hm : (s, m) ∈ ms) :
    ∃ c ∈ cs, c.step = s ∧ enter r c = .ok m := by
  induction cs generalizing ms with
  | nil =>
    obtain rfl := Except.ok.inj h
    cases hm
  | cons c cs ih =>
    simp only [enterAll, Outcome.bind_eq_ok, Except.ok.injEq] at h
    obtain ⟨n, entered, ns, rest, rfl⟩ := h
    rcases List.mem_cons.1 hm with first | hm
    · obtain ⟨rfl, rfl⟩ := Prod.mk.inj first
      exact ⟨c, List.mem_cons_self, rfl, entered⟩
    · obtain ⟨c', hc, found⟩ := ih rest hm
      exact ⟨c', List.mem_cons_of_mem _ hc, found⟩

end Node

namespace View

variable {v : View} {t : Tree} {r : Registry}

theorem isStale_eq_false : v.isStale t = false ↔ v.tree = t.id ∧ v.generation = t.generation := by
  simp [isStale]

theorem isStale_eq_true : v.isStale t = true ↔ v.tree ≠ t.id ∨ v.generation ≠ t.generation := by
  simp [isStale]

theorem checkFresh_eq_ok : v.checkFresh t = .ok () ↔ v.isStale t = false := by
  rw [checkFresh, isStale_eq_false]
  by_cases own : v.tree = t.id
  · by_cases now : v.generation = t.generation <;> simp [isStale, own, now]
  · simp [own]

/-- The error for a view that is not fresh: it is of another tree, or too old. -/
def refusal (v : View) (t : Tree) : TreeError :=
  if v.tree = t.id then .staleView v.path v.generation t.generation else .foreignView v.path

theorem checkFresh_of_isStale (h : v.isStale t = true) :
    v.checkFresh t = .error (v.refusal t) := by
  rw [checkFresh, refusal, h]
  by_cases own : v.tree = t.id <;> simp [own]

/-- A view that is not fresh leads nowhere. -/
theorem refused (h : v.isStale t = true) :
    (∀ i, t.childOf r v i = .error (v.refusal t)) ∧
      (∀ s, t.childBehind r v s = .error (v.refusal t)) ∧
        t.childrenOf r v = .error (v.refusal t) := by
  have check := checkFresh_of_isStale h
  refine ⟨?_, ?_, ?_⟩
  · intro i
    rw [Tree.childOf, check, Outcome.error_bind]
  · intro s
    rw [Tree.childBehind, check, Outcome.error_bind]
  · rw [Tree.childrenOf, check, Outcome.error_bind]

end View

theorem Walk.mem_visited_concat {ws : List Walk} {v : View} (h : v ∈ (concat ws).visited) :
    ∃ w ∈ ws, v ∈ w.visited := by
  induction ws with
  | nil => cases h
  | cons w ws ih =>
    rw [concat] at h
    split at h
    · exact ⟨w, List.mem_cons_self, h⟩
    · rcases List.mem_append.1 h with h | h
      · exact ⟨w, List.mem_cons_self, h⟩
      · obtain ⟨w', hw, hv⟩ := ih h
        exact ⟨w', List.mem_cons_of_mem _ hw, hv⟩

namespace Tree

/-- Whether a view shows a tree: its path, followed now, gives the view itself. -/
def Shows (r : Registry) (t : Tree) (v : View) : Prop :=
  t.view r v.path = .ok v

variable {r : Registry} {t : Tree} {v w : View} {p whole : Path} {n m : Node} {s : Step} {i : Nat}
  {home : Nat}

/-! ## From the root -/

theorem shows_take (h : t.node r p = .ok n) : t.Shows r (t.take p n) := by
  show (t.node r p).map (t.take p) = .ok (t.take p n)
  rw [h]
  rfl

theorem shows_rootView : t.Shows r t.rootView :=
  shows_take rfl

theorem shows_view (h : t.view r p = .ok v) : t.Shows r v := by
  obtain ⟨n, hn, rfl⟩ := Outcome.map_eq_ok.1 h
  exact shows_take hn

theorem Shows.node (h : t.Shows r v) : t.node r v.path = .ok v.toNode := by
  obtain ⟨n, hn, taken⟩ := Outcome.map_eq_ok.1 h
  rw [hn, ← taken]
  rfl

theorem Shows.isStale (h : t.Shows r v) : v.isStale t = false := by
  obtain ⟨n, -, taken⟩ := Outcome.map_eq_ok.1 h
  rw [← taken]
  exact View.isStale_eq_false.2 ⟨rfl, rfl⟩

/-! ## From a view -/

variable (valid : t.Valid (.core home)) (h : t.Shows (.core home) v)
include h

/-- A step from a node that is shown leads to a node whose view shows the tree. -/
theorem Shows.behind (hs : v.toNode.step (.core home) whole s = .ok (i, m)) :
    t.Shows (.core home) (t.take (v.path ++ [s]) m) := by
  have last : v.toNode.descend (.core home) whole [s] = .ok m :=
    Node.descend_cons_eq_ok.2 ⟨i, m, hs, rfl⟩
  exact shows_take (Node.descend_append h.node last)

theorem Shows.childBehind (hw : t.childBehind (.core home) v s = .ok w) :
    t.Shows (.core home) w := by
  rw [Tree.childBehind, Outcome.seq_eq_ok] at hw
  obtain ⟨⟨i, m⟩, hs, taken⟩ := Outcome.bind_eq_ok.1 hw.2
  obtain rfl := Except.ok.inj taken
  exact h.behind hs

include valid

/-- Entering a child is taking the step to it. -/
theorem Shows.enter {c : Child} (hc : v.child? i = some c)
    (hm : Node.enter (.core home) c = .ok m) :
    t.Shows (.core home) (t.take (v.path ++ [c.step]) m) := by
  have node : v.toNode.Valid (.core home) := valid.descend h.node
  have behind := node.behind?_of_child? hc
  obtain ⟨resolve, value⟩ := Node.enter_eq_ok.1 hm
  have reached : v.toNode.step (.core home) v.path c.step = .ok (i, m) :=
    Node.step_eq_ok.2 ⟨c, behind, resolve, value⟩
  exact h.behind reached

theorem Shows.childOf (hw : t.childOf (.core home) v i = .ok w) : t.Shows (.core home) w := by
  simp only [Tree.childOf, Outcome.seq_eq_ok] at hw
  obtain ⟨-, hw⟩ := hw
  split at hw
  · rename_i c hc
    obtain ⟨m, hm, taken⟩ := Outcome.bind_eq_ok.1 hw
    obtain rfl := Except.ok.inj taken
    exact h.enter valid hc hm
  · cases hw

/-- The views of the children of a node that is shown show the tree. -/
theorem Shows.below {cs : List View} (hb : t.below (.core home) v = .ok cs) (hw : w ∈ cs) :
    t.Shows (.core home) w := by
  obtain ⟨ms, entered, rfl⟩ := Outcome.map_eq_ok.1 hb
  obtain ⟨⟨s, m⟩, hm, rfl⟩ := List.mem_map.1 hw
  obtain ⟨c, hc, rfl, enter⟩ := Node.exists_enter_of_mem entered hm
  obtain ⟨place, hp, child⟩ := List.mem_filterMap.1 hc
  obtain ⟨i, hi⟩ := List.getElem?_of_mem hp
  have found : v.child? i = some c := by
    show (v.type.places v.value)[i]?.bind Place.child? = some c
    rw [hi]
    exact child
  exact h.enter valid found enter

theorem Shows.childrenOf {cs : List View} (hb : t.childrenOf (.core home) v = .ok cs)
    (hw : w ∈ cs) : t.Shows (.core home) w := by
  obtain ⟨-, hb⟩ := Outcome.seq_eq_ok.1 hb
  exact h.below valid hb hw

/-- The views that a walk visits show the tree. -/
theorem Shows.walkFrom (hw : w ∈ (t.walkFrom (.core home) v).visited) :
    t.Shows (.core home) w := by
  -- Views below are of smaller values, so this is an induction on the size of the value.
  induction size : sizeOf v.value using Nat.strongRecOn generalizing v with
  | ind bound ih =>
    subst size
    rw [walkFrom_eq] at hw
    split at hw
    · cases hw
    · rename_i cs hb
      rcases List.mem_cons.1 hw with rfl | hw
      · exact h
      · obtain ⟨walk, listed, hw⟩ := Walk.mem_visited_concat hw
        obtain ⟨c, hc, rfl⟩ := List.mem_map.1 listed
        exact ih _ (sizeOf_lt_of_mem_below _ hb hc) (h.below valid hb hc) hw rfl

omit h in
theorem shows_walk (hw : w ∈ (t.walk (.core home)).visited) : t.Shows (.core home) w :=
  shows_rootView.walkFrom valid hw

end Tree

end TypedTree
