import TypedTree.Proofs.Navigation
import TypedTree.Proofs.Views

/-!
# Walks over valid trees

A walk can be carried out with a stack of the views that are still to be visited: the view on top is
given out and replaced by the views of its children. In a valid tree all children can be entered, so
the walk ends without an error, and it visits the nodes that paths lead to, each once, in the order
of their paths: a node before what is below it, and what is below a child before what is below a
later one.

## Main definitions

* `Tree.next`, `Tree.Yields`: a walk with a stack, one view at a time.
* `Node.Precedes`, `Tree.Precedes`: the order of the paths from a node or the root.

## Main statements

* `Tree.yields_stack`: the stack gives out what a walk visits.
* `Tree.Shows.pairwise_walkFrom`, `Tree.Shows.mem_walkFrom`: the order of a walk, and its extent.
* `Tree.walk_spec`: what the walk over a tree visits.
-/

namespace TypedTree

namespace Walk

/-- A walk and then another, unless the first ended early. -/
def andThen (w rest : Walk) : Walk :=
  match w.failure? with
  | some e => ⟨w.visited, some e⟩
  | none => ⟨w.visited ++ rest.visited, rest.failure?⟩

/-- What a walk gives out: the views that it visits, and the error that ended it early. -/
def items (w : Walk) : List (Except TreeError View) :=
  w.visited.map .ok ++ w.failure?.toList.map .error

variable (v : View) (w : Walk) (ws ws' : List Walk)

@[simp] theorem andThen_stop (e : TreeError) : (stop e).andThen w = stop e := rfl

@[simp] theorem andThen_visit (rest : Walk) :
    (visit v w).andThen rest = visit v (w.andThen rest) := by
  obtain ⟨visited, _ | e⟩ := w <;> simp [andThen, visit]

theorem concat_cons : concat (w :: ws) = w.andThen (concat ws) := rfl

theorem concat_append : concat (ws ++ ws') = (concat ws).andThen (concat ws') := by
  induction ws with
  | nil => simp [concat, andThen]
  | cons w ws ih =>
    rw [List.cons_append, concat_cons, ih, concat_cons]
    obtain ⟨visited, _ | e⟩ := w
    · obtain ⟨visited', _ | e'⟩ := concat ws <;> simp [andThen]
    · simp [andThen]

variable {ws} in
/-- Walks that do not end early visit one after another what each of them visits. -/
theorem concat_of_complete (h : ∀ w ∈ ws, w.failure? = none) :
    concat ws = ⟨(ws.map (·.visited)).flatten, none⟩ := by
  induction ws with
  | nil => rfl
  | cons w ws ih =>
    obtain ⟨first, rest⟩ := List.forall_mem_cons.1 h
    simp [concat, first, ih rest]

end Walk

namespace Tree

section Stack

variable (r : Registry) (t : Tree)

/-- Take the view from the top of a stack, give it out, and put the views of its children in its
place, the first on top. An error empties the stack. -/
def next : List View → Option (Except TreeError View × List View)
  | [] => none
  | v :: stack =>
    match t.childrenOf r v with
    | .ok cs => some (.ok v, cs ++ stack)
    | .error e => some (.error e, [])

/-- What a stack gives out until it is empty. -/
inductive Yields : List View → List (Except TreeError View) → Prop
  | done {stack} (empty : t.next r stack = none) : Yields stack []
  | more {stack stack' item items} (first : t.next r stack = some (item, stack'))
    (rest : Yields stack' items) : Yields stack (item :: items)

variable {r t} {stack : List View} {v : View}

/-- A stack gives out one thing only. -/
theorem Yields.unique {items items' : List (Except TreeError View)} (h : t.Yields r stack items)
    (h' : t.Yields r stack items') : items = items' := by
  induction h generalizing items' with
  | done empty =>
    cases h' with
    | done => rfl
    | more first => simp [empty] at first
  | more first rest ih =>
    cases h' with
    | done empty => simp [empty] at first
    | more first' rest' =>
      obtain ⟨rfl, rfl⟩ := Prod.mk.inj (Option.some.inj (first.symm.trans first'))
      rw [ih rest']

theorem isStale_of_mem_below {cs : List View} (h : t.below r v = .ok cs) {c : View}
    (hc : c ∈ cs) : c.isStale t = false := by
  obtain ⟨ms, -, rfl⟩ := Outcome.map_eq_ok.1 h
  obtain ⟨m, -, rfl⟩ := List.mem_map.1 hc
  exact View.isStale_eq_false.2 ⟨rfl, rfl⟩

theorem childrenOf_of_fresh (h : v.isStale t = false) : t.childrenOf r v = t.below r v := by
  rw [childrenOf, View.checkFresh_eq_ok.2 h]
  rfl

/-- A fresh view on top of a stack gives out what the walk from the view visits. -/
theorem yields_cons (fresh : v.isStale t = false)
    (h : t.Yields r stack (Walk.concat (stack.map (t.walkFrom r))).items) :
    t.Yields r (v :: stack) (Walk.concat ((v :: stack).map (t.walkFrom r))).items := by
  -- The views of the children come on top of the same stack and are of smaller values.
  induction size : sizeOf v.value using Nat.strongRecOn generalizing v stack with
  | ind bound ih =>
    subst size
    rw [List.map_cons, Walk.concat_cons, walkFrom_eq]
    cases hb : t.below r v with
    | error e =>
      have stops : t.next r (v :: stack) = some (.error e, []) := by
        simp [next, childrenOf_of_fresh fresh, hb]
      exact .more stops (.done rfl)
    | ok cs =>
      have below : ∀ c ∈ cs, c.isStale t = false ∧ sizeOf c.value < sizeOf v.value := by
        intro c hc
        exact ⟨isStale_of_mem_below hb hc, sizeOf_lt_of_mem_below r hb hc⟩
      have rest : t.Yields r (cs ++ stack)
          (Walk.concat ((cs ++ stack).map (t.walkFrom r))).items := by
        clear hb
        induction cs with
        | nil => exact h
        | cons c cs ih' =>
          obtain ⟨⟨freshc, smaller⟩, others⟩ := List.forall_mem_cons.1 below
          exact ih _ smaller freshc (ih' others) rfl
      rw [List.map_append, Walk.concat_append] at rest
      rw [Walk.andThen_visit]
      refine .more ?_ rest
      simp [next, childrenOf_of_fresh fresh, hb]

/-- A stack of fresh views gives out what the walks from the views visit. -/
theorem yields_stack (fresh : ∀ v ∈ stack, v.isStale t = false) :
    t.Yields r stack (Walk.concat (stack.map (t.walkFrom r))).items := by
  induction stack with
  | nil => exact .done rfl
  | cons v stack ih =>
    obtain ⟨first, rest⟩ := List.forall_mem_cons.1 fresh
    exact yields_cons first (ih rest)

end Stack

end Tree

/-! ## The order of paths -/

namespace Node

/-- The order of the paths from a node: a path comes before what extends it, and a path through a
child before the paths through later children. -/
inductive Precedes (r : Registry) : Node → Path → Path → Prop
  | above {n : Node} {s : Step} {q : Path} : Precedes r n [] (s :: q)
  | inside {n m : Node} {s : Step} {p q : Path} {i : Nat} (step : n.step r [] s = .ok (i, m))
    (rest : Precedes r m p q) : Precedes r n (s :: p) (s :: q)
  | beside {n : Node} {s s' : Step} {p q : Path} {i j : Nat} {c d : Child}
    (first : n.behind? s = some (i, c)) (second : n.behind? s' = some (j, d)) (lt : i < j) :
    Precedes r n (s :: p) (s' :: q)

variable {r : Registry} {n m : Node} {p q whole : Path} {s : Step} {i : Nat}

/-- No path comes before one that comes before it. -/
theorem Precedes.asymm (h : n.Precedes r p q) : ¬n.Precedes r q p := by
  induction h with
  | above =>
    intro h
    cases h
  | inside step rest ih =>
    intro h
    cases h with
    | inside step' rest' =>
      obtain ⟨rfl, rfl⟩ := Prod.mk.inj (Except.ok.inj (step.symm.trans step'))
      exact ih rest'
    | beside first second lt =>
      obtain ⟨rfl, -⟩ := Prod.mk.inj (Option.some.inj (first.symm.trans second))
      exact Nat.lt_irrefl _ lt
  | beside first second lt =>
    intro h
    cases h with
    | inside step' rest' =>
      obtain ⟨rfl, -⟩ := Prod.mk.inj (Option.some.inj (first.symm.trans second))
      exact Nat.lt_irrefl _ lt
    | beside first' second' lt' =>
      obtain ⟨rfl, -⟩ := Prod.mk.inj (Option.some.inj (first.symm.trans second'))
      obtain ⟨rfl, -⟩ := Prod.mk.inj (Option.some.inj (second.symm.trans first'))
      exact Nat.lt_asymm lt lt'

/-- What is in order below a node is in order from above it. -/
theorem Precedes.append {from_ : Path} (hd : n.descend r whole from_ = .ok m)
    (h : m.Precedes r p q) : n.Precedes r (from_ ++ p) (from_ ++ q) := by
  induction from_ generalizing n with
  | nil =>
    obtain rfl := Except.ok.inj hd
    exact h
  | cons s rest ih =>
    obtain ⟨i, k, step, hd⟩ := descend_cons_eq_ok.1 hd
    exact .inside (step_eq_ok.2 (step_eq_ok.1 step)) (ih hd)

/-- Children that all resolve can be entered. -/
theorem exists_enterAll {cs : List Child} (h : ∀ c ∈ cs, ∃ s, r.resolve c.ref = .ok s) :
    ∃ ms, enterAll r cs = .ok ms := by
  induction cs with
  | nil => exact ⟨[], rfl⟩
  | cons c cs ih =>
    obtain ⟨⟨s, resolve⟩, rest⟩ := List.forall_mem_cons.1 h
    obtain ⟨ms, entered⟩ := ih rest
    have first : enter r c = .ok ⟨s, c.value⟩ := enter_eq_ok.2 ⟨resolve, rfl⟩
    exact ⟨(c.step, ⟨s, c.value⟩) :: ms, by simp [enterAll, first, entered, bind, Except.bind]⟩

/-- The node of every child is among the nodes of all children. -/
theorem mem_enterAll {cs : List Child} {ms : List (Step × Node)} {c : Child}
    (h : enterAll r cs = .ok ms) (hc : c ∈ cs) : ∃ m, enter r c = .ok m ∧ (c.step, m) ∈ ms := by
  induction cs generalizing ms with
  | nil => cases hc
  | cons c' cs ih =>
    simp only [enterAll, Outcome.bind_eq_ok, Except.ok.injEq] at h
    obtain ⟨n, entered, ns, rest, rfl⟩ := h
    rcases List.mem_cons.1 hc with rfl | hc
    · exact ⟨n, entered, List.mem_cons_self⟩
    · obtain ⟨m, found, hm⟩ := ih rest hc
      exact ⟨m, found, List.mem_cons_of_mem _ hm⟩

/-- What holds of the steps to any two children in order holds of the steps to their nodes. -/
theorem pairwise_enterAll {R : Step → Step → Prop} {cs : List Child} {ms : List (Step × Node)}
    (h : enterAll r cs = .ok ms) (hR : cs.Pairwise fun c d => R c.step d.step) :
    ms.Pairwise fun a b => R a.1 b.1 := by
  induction cs generalizing ms with
  | nil =>
    obtain rfl := Except.ok.inj h
    exact .nil
  | cons c cs ih =>
    simp only [enterAll, Outcome.bind_eq_ok, Except.ok.injEq] at h
    obtain ⟨n, -, ns, rest, rfl⟩ := h
    obtain ⟨first, others⟩ := List.pairwise_cons.1 hR
    refine List.pairwise_cons.2 ⟨?_, ih rest others⟩
    rintro ⟨s, m⟩ hm
    obtain ⟨d, hd, rfl, -⟩ := exists_enter_of_mem rest hm
    exact first d hd

variable {home : Nat}

/-- From a valid node, a step leads to the child with this step. -/
theorem Valid.step_of_behind? {c : Child} (h : n.Valid (.core home))
    (hb : n.behind? s = some (i, c)) : c.step = s := by
  obtain ⟨index, child⟩ := behind?_eq_some.1 hb
  have nodup := Ty.nodup_steps (Registry.forms_of_owns h.owned).kind h.accepted
  exact Ty.childIndex?_inj (Ty.childIndex?_of_child? nodup child) index

/-- The children of a valid node are behind their steps, with rising indices. -/
theorem Valid.pairwise_children (h : n.Valid (.core home)) :
    (n.type.children n.value).Pairwise fun c d => ∃ i j, i < j ∧
      n.behind? c.step = some (i, c) ∧ n.behind? d.step = some (j, d) := by
  refine List.pairwise_filterMap.2 (List.pairwise_iff_getElem.2 ?_)
  intro i j hi hj lt c hc d hd
  have child (k : Nat) (hk : k < (n.type.places n.value).length) {c : Child}
      (hc : (n.type.places n.value)[k].child? = some c) : n.behind? c.step = some (k, c) :=
    h.behind?_of_child? (show (n.type.places n.value)[k]?.bind Place.child? = some c by
      simp [hk, hc])
  exact ⟨i, j, lt, child i hi hc, child j hj hd⟩

/-- All children of a valid node can be entered. -/
theorem Valid.exists_children (h : n.Valid (.core home)) :
    ∃ ms, n.children (.core home) = .ok ms := by
  refine exists_enterAll ?_
  intro c hc
  obtain ⟨place, hp, child⟩ := List.mem_filterMap.1 hc
  obtain ⟨ref, s, found, resolve⟩ :=
    (Registry.forms_of_owns h.owned).exists_type_of_mem_places h.accepted hp
  obtain ⟨step, -, rest⟩ := Option.bind_eq_some_iff.1 child
  obtain ⟨ref', same, made⟩ := Option.bind_eq_some_iff.1 rest
  obtain rfl := Option.some.inj (found.symm.trans same)
  obtain rfl := Option.some.inj made
  exact ⟨s, resolve⟩

end Node

/-! ## What a walk visits -/

namespace Tree

variable {home : Nat} {t : Tree} {v w : View}

/-- The order of the paths from the root. -/
def Precedes (r : Registry) (t : Tree) (p q : Path) : Prop :=
  t.rootNode.Precedes r p q

section Shows

variable (valid : t.Valid (.core home)) (h : t.Shows (.core home) v)
include valid h

theorem Shows.valid_toNode : v.toNode.Valid (.core home) :=
  Node.Valid.descend valid h.node

theorem Shows.exists_below : ∃ cs, t.below (.core home) v = .ok cs := by
  obtain ⟨ms, entered⟩ := (h.valid_toNode valid).exists_children
  exact ⟨_, congrArg _ entered⟩

/-- A walk from a view in a valid tree does not end early. -/
theorem Shows.failure?_walkFrom : (t.walkFrom (.core home) v).failure? = none := by
  induction size : sizeOf v.value using Nat.strongRecOn generalizing v with
  | ind bound ih =>
    subst size
    obtain ⟨cs, hb⟩ := h.exists_below valid
    have each : ∀ w ∈ cs.map (t.walkFrom (.core home)), w.failure? = none := by
      intro w hw
      obtain ⟨c, hc, rfl⟩ := List.mem_map.1 hw
      exact ih _ (sizeOf_lt_of_mem_below _ hb hc) (h.below valid hb hc) rfl
    simp [walkFrom_eq, hb, Walk.visit, Walk.concat_of_complete each]

/-- A walk visits a view and then, child by child, what the walks from the children visit. -/
theorem Shows.visited_walkFrom {cs : List View} (hb : t.below (.core home) v = .ok cs) :
    (t.walkFrom (.core home) v).visited =
      v :: (cs.map fun c => (t.walkFrom (.core home) c).visited).flatten := by
  have each : ∀ w ∈ cs.map (t.walkFrom (.core home)), w.failure? = none := by
    intro w hw
    obtain ⟨c, hc, rfl⟩ := List.mem_map.1 hw
    exact (h.below valid hb hc).failure?_walkFrom valid
  simp [walkFrom_eq, hb, Walk.visit, Walk.concat_of_complete each, Function.comp_def]

/-- The walk from a view stays below the path of the view. -/
theorem Shows.path_walkFrom (hw : w ∈ (t.walkFrom (.core home) v).visited) :
    ∃ q, w.path = v.path ++ q := by
  induction size : sizeOf v.value using Nat.strongRecOn generalizing v with
  | ind bound ih =>
    subst size
    obtain ⟨cs, hb⟩ := h.exists_below valid
    rw [h.visited_walkFrom valid hb] at hw
    rcases List.mem_cons.1 hw with rfl | hw
    · exact ⟨[], by simp⟩
    · obtain ⟨visited, listed, hw⟩ := List.mem_flatten.1 hw
      obtain ⟨c, hc, rfl⟩ := List.mem_map.1 listed
      obtain ⟨q, hq⟩ := ih _ (sizeOf_lt_of_mem_below _ hb hc) (h.below valid hb hc) hw rfl
      obtain ⟨ms, -, rfl⟩ := Outcome.map_eq_ok.1 hb
      obtain ⟨⟨s, m⟩, -, rfl⟩ := List.mem_map.1 hc
      exact ⟨s :: q, by simpa [take] using hq⟩

/-- The paths of the views below a view are in order, and so is what extends them. -/
theorem Shows.pairwise_below {cs : List View} (hb : t.below (.core home) v = .ok cs) :
    cs.Pairwise fun c d => ∀ p q, t.Precedes (.core home) (c.path ++ p) (d.path ++ q) := by
  obtain ⟨ms, entered, rfl⟩ := Outcome.map_eq_ok.1 hb
  have ordered := (h.valid_toNode valid).pairwise_children.imp
    (S := fun c d => ∀ p q, v.toNode.Precedes (.core home) (c.step :: p) (d.step :: q)) ?_
  · refine List.pairwise_map.2 ((Node.pairwise_enterAll (R := fun s s' => ∀ p q,
      v.toNode.Precedes (.core home) (s :: p) (s' :: q)) entered ordered).imp ?_)
    intro a b before p q
    simpa [take, Precedes] using (before p q).append h.node
  · rintro c d ⟨i, j, lt, first, second⟩ p q
    exact .beside first second lt

/-- A walk visits views in the order of their paths. -/
theorem Shows.pairwise_walkFrom :
    (t.walkFrom (.core home) v).visited.Pairwise fun w x =>
      t.Precedes (.core home) w.path x.path := by
  induction size : sizeOf v.value using Nat.strongRecOn generalizing v with
  | ind bound ih =>
    subst size
    obtain ⟨cs, hb⟩ := h.exists_below valid
    rw [h.visited_walkFrom valid hb]
    refine List.pairwise_cons.2 ⟨?_, List.pairwise_flatten.2 ⟨?_, ?_⟩⟩
    · intro w hw
      obtain ⟨visited, listed, hw⟩ := List.mem_flatten.1 hw
      obtain ⟨c, hc, rfl⟩ := List.mem_map.1 listed
      obtain ⟨q, hq⟩ := (h.below valid hb hc).path_walkFrom valid hw
      obtain ⟨ms, -, rfl⟩ := Outcome.map_eq_ok.1 hb
      obtain ⟨⟨s, m⟩, -, rfl⟩ := List.mem_map.1 hc
      have first : v.toNode.Precedes (.core home) [] (s :: q) := .above
      rw [hq]
      simpa [take, Precedes] using first.append h.node
    · intro visited listed
      obtain ⟨c, hc, rfl⟩ := List.mem_map.1 listed
      exact ih _ (sizeOf_lt_of_mem_below _ hb hc) (h.below valid hb hc) rfl
    · refine List.pairwise_map.2 ((h.pairwise_below valid hb).imp_of_mem ?_)
      intro c d hc hd before w hw x hx
      obtain ⟨p, hp⟩ := (h.below valid hb hc).path_walkFrom valid hw
      obtain ⟨q, hq⟩ := (h.below valid hb hd).path_walkFrom valid hx
      rw [hp, hq]
      exact before p q

/-- A walk from a view visits every node that a path from there leads to. -/
theorem Shows.mem_walkFrom {q whole : Path} {m : Node}
    (hd : v.toNode.descend (.core home) whole q = .ok m) :
    t.take (v.path ++ q) m ∈ (t.walkFrom (.core home) v).visited := by
  induction q generalizing v with
  | nil =>
    obtain rfl := Except.ok.inj hd
    obtain ⟨cs, hb⟩ := h.exists_below valid
    obtain ⟨n, -, taken⟩ := Outcome.map_eq_ok.1 h
    have same : t.take (v.path ++ []) v.toNode = v := by
      rw [List.append_nil, ← taken]
      rfl
    rw [h.visited_walkFrom valid hb, same]
    exact List.mem_cons_self
  | cons s q ih =>
    obtain ⟨i, k, step, rest⟩ := Node.descend_cons_eq_ok.1 hd
    obtain ⟨c, behind, resolve, value⟩ := Node.step_eq_ok.1 step
    obtain rfl := (h.valid_toNode valid).step_of_behind? behind
    have place := Ty.place_of_child? (Node.behind?_eq_some.1 behind).2
    have child : c ∈ v.type.children v.value :=
      List.mem_filterMap.2 ⟨_, List.mem_of_getElem? place, rfl⟩
    obtain ⟨ms, entered⟩ := (h.valid_toNode valid).exists_children
    obtain ⟨k', found, listed⟩ := Node.mem_enterAll entered child
    obtain rfl : k = k' := Except.ok.inj ((Node.enter_eq_ok.2 ⟨resolve, value⟩).symm.trans found)
    have hb : t.below (.core home) v =
        .ok (ms.map fun c => t.take (v.path ++ [c.1]) c.2) := congrArg _ entered
    have hc : t.take (v.path ++ [c.step]) k ∈ ms.map fun c => t.take (v.path ++ [c.1]) c.2 :=
      List.mem_map_of_mem listed
    have later := ih (h.below valid hb hc) rest
    rw [h.visited_walkFrom valid hb]
    refine List.mem_cons_of_mem _ (List.mem_flatten.2 ⟨_, List.mem_map_of_mem hc, ?_⟩)
    simpa [take] using later

end Shows

/-- The walk over a reachable tree ends without an error, also when it is carried out with a stack.
It visits the nodes that paths lead to, each once and as it is, in the order of their paths. -/
theorem walk_spec (h : Reachable (.core home) t) :
    let walk := t.walk (.core home)
    walk.failure? = none ∧
      (∀ items, t.Yields (.core home) [t.rootView] items ↔ items = walk.visited.map .ok) ∧
      (walk.visited.map (·.path)).Nodup ∧
      (∀ p, p ∈ walk.visited.map (·.path) ↔ ∃ n, t.node (.core home) p = .ok n) ∧
      (∀ v : View, v ∈ walk.visited → t.view (.core home) v.path = .ok v ∧
        t.node (.core home) v.path = .ok ⟨v.type, v.value⟩) ∧
      ∀ (i j : Nat) (v w : View), walk.visited[i]? = some v → walk.visited[j]? = some w →
        (i < j ↔ t.Precedes (.core home) v.path w.path) := by
  intro walk
  have valid := h.valid
  have root : t.Shows (.core home) t.rootView := shows_rootView
  have complete : walk.failure? = none := root.failure?_walkFrom valid
  have ordered : walk.visited.Pairwise fun v w => t.Precedes (.core home) v.path w.path :=
    root.pairwise_walkFrom valid
  have stack : t.Yields (.core home) [t.rootView] (walk.visited.map .ok) := by
    have given : t.Yields (.core home) [t.rootView] _ :=
      yields_stack (List.forall_mem_singleton.2 root.isStale)
    have whole : Walk.concat [walk] = ⟨walk.visited, none⟩ := by
      simpa using Walk.concat_of_complete (List.forall_mem_singleton.2 complete)
    rw [List.map_singleton, show t.walkFrom (.core home) t.rootView = walk from rfl, whole] at given
    simpa [Walk.items] using given
  have shown : ∀ v ∈ walk.visited, t.Shows (.core home) v := by
    intro v hv
    exact shows_walk valid hv
  refine ⟨complete, ?_, ?_, ?_, ?_, ?_⟩
  · intro items
    constructor
    · intro other
      exact other.unique stack
    · rintro rfl
      exact stack
  · refine List.pairwise_map.2 (ordered.imp ?_)
    intro v w before same
    rw [same] at before
    exact before.asymm before
  · intro p
    constructor
    · intro hp
      obtain ⟨v, hv, rfl⟩ := List.mem_map.1 hp
      exact ⟨_, (shown v hv).node⟩
    · rintro ⟨n, hn⟩
      have visited : t.take ([] ++ p) n ∈ walk.visited := root.mem_walkFrom valid hn
      exact List.mem_map.2 ⟨_, visited, rfl⟩
  · intro v hv
    exact ⟨shown v hv, (shown v hv).node⟩
  · intro i j v w hv hw
    obtain ⟨hi, rfl⟩ := List.getElem?_eq_some_iff.1 hv
    obtain ⟨hj, rfl⟩ := List.getElem?_eq_some_iff.1 hw
    have before := List.pairwise_iff_getElem.1 ordered
    constructor
    · intro lt
      exact before i j hi hj lt
    · intro precedes
      rcases Nat.lt_trichotomy i j with lt | rfl | gt
      · exact lt
      · exact (precedes.asymm precedes).elim
      · exact (precedes.asymm (before j i hj hi gt)).elim

/-- A pair of a list and a mapping, after a change in the list: what is in the list comes before the
mapping and its answers. -/
theorem walk_spec_nested :
    ∃ t, Reachable (.core 0) t ∧ (t.walk (.core 0)).failure? = none ∧
      (t.walk (.core 0)).visited.map (fun v => (v.path, v.value)) =
        [([], .tuple [.array [.bool true],
            .map ⟨[⟨.exact (.bool true), .fixed (.int 1)⟩], .fixed (.int 0)⟩]),
          ([.index 0], .array [.bool true]), ([.index 0, .index 0], .bool true),
          ([.index 1], .map ⟨[⟨.exact (.bool true), .fixed (.int 1)⟩], .fixed (.int 0)⟩),
          ([.index 1, .index 0], .int 1), ([.index 1, .index 1], .int 0)] := by
  have started : Started (.core 0) _ :=
    .ofValue (show (Registry.core 0).resolveBy .strict
        (.tuple [.list .bool, .map .bool .int]) = .ok _ from rfl)
      (show Tree.ofValue _ 0 _ (.tuple [.array [.bool false],
        .map ⟨[⟨.exact (.bool true), .fixed (.int 1)⟩], .fixed (.int 0)⟩]) = .ok _ from rfl)
  have reachable : Reachable (.core 0) _ :=
    ⟨_, [.change [.index 0, .index 0] (.set (.bool true))], started, rfl⟩
  obtain ⟨complete, given, -⟩ := walk_spec reachable
  have visited := (given (List.map .ok [_, _, _, _, _, _])).1
    (.more rfl (.more rfl (.more rfl (.more rfl (.more rfl (.more rfl (.done rfl)))))))
  refine ⟨_, reachable, complete, ?_⟩
  rw [← (List.map_inj_right fun _ _ => Except.ok.inj).1 visited]
  rfl

end Tree

end TypedTree
