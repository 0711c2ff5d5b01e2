import TypedTree.Forest
import TypedTree.Proofs.Views

/-!
# Sessions with views

In a session trees are planted and changed, and views of them are taken, kept under names, used to
take further views, and taken anew, all in any order. What is refused leaves the forest as it was.

The kept views are *accounted for*: a view is of a tree of the forest, it is no newer than the tree,
and as long as the tree has its generation it shows the tree. Everything that can be done keeps it
that way. So a view that is fresh for a tree is what its path leads to in the tree, and a change of
a tree makes all views of it stale for good.

## Main definitions

* `Act`, `Forest.act`, `Forest.run`: what can be done, and its effect.
* `Forest.Accounts`, `Forest.Sound`: the invariant.

## Main statements

* `Forest.Effect`: what an act has done to a sound forest.
* `Forest.Sound.effect`, `Forest.Sound.run`: forests stay sound.
* `Forest.views_spec`: what views tell at every moment of a session.
-/

namespace TypedTree

/-- A way to take views of a tree, from its root or from a view kept under a name. -/
inductive Glance where
  | root
  | node (p : Path)
  | child (parent : String) (i : Nat)
  | childBehind (parent : String) (s : Step)
  | children (parent : String)
  | walk

/-- What can be done in a session. A tree is named by its position. -/
inductive Act where
  /-- Start a tree of the type of a reference, with a value or with the default. -/
  | plant (policy : FailurePolicy) (ref : TypeRef) (value? : Option Value)
  /-- Change a tree. -/
  | mutate (i : Nat) (m : Mutation)
  /-- Take views of a tree and keep them, one under each name. -/
  | look (i : Nat) (g : Glance) (names : List String)
  /-- Take the view under a name anew from a tree. -/
  | resync (i : Nat) (name : String)

/-- The names under which views are kept. -/
def Act.names : Act → List String
  | .plant .. | .mutate .. => []
  | .look _ _ names => names
  | .resync _ name => [name]

theorem Mutation.id_apply {r : Registry} {m : Mutation} {t u : Tree} (h : m.apply r t = .ok u) :
    u.id = t.id := by
  cases m with
  | change p c =>
    obtain ⟨v, -, done⟩ := Outcome.bind_eq_ok.1 h
    obtain rfl := Except.ok.inj done
    rfl
  | replaceRoot v =>
    obtain ⟨-, done⟩ := Outcome.seq_eq_ok.1 h
    obtain rfl := Except.ok.inj done
    rfl
  | restore e =>
    obtain ⟨-, done⟩ := Outcome.seq_eq_ok.1 h
    obtain rfl := Except.ok.inj done
    rfl

namespace Forest

section Acts

variable (r : Registry)

/-- A new tree, with the next identity. -/
def start (f : Forest) (policy : FailurePolicy) (ref : TypeRef) :
    Option Value → Except TreeError Tree
  | none => Tree.ofRef r policy f.nextId ref
  | some v => do
    let type ← (r.resolveBy policy ref).mapError .type
    Tree.ofValue r f.nextId type v

/-- The views that a glance at a tree gives. -/
def glance (f : Forest) (t : Tree) : Glance → Option (List View)
  | .root => some [t.rootView]
  | .node p => do
    let v ← (t.view r p).toOption
    some [v]
  | .child parent i => do
    let v ← f.view? parent
    let w ← (t.childOf r v i).toOption
    some [w]
  | .childBehind parent s => do
    let v ← f.view? parent
    let w ← (t.childBehind r v s).toOption
    some [w]
  | .children parent => do
    let v ← f.view? parent
    (t.childrenOf r v).toOption
  | .walk => some (t.walk r).visited

/-- Keep several views. -/
def keepViews (f : Forest) : List (String × View) → Forest
  | [] => f
  | (name, v) :: rest => (f.keepView name v).keepViews rest

/-- The forest after something was done, unless that was refused. -/
def act (f : Forest) : Act → Option Forest
  | .plant policy ref value? => do
    let t ← (f.start r policy ref value?).toOption
    some (f.addTree t)
  | .mutate i m => do
    let t ← f.tree? i
    let u ← (m.apply r t).toOption
    some (f.setTree i u)
  | .look i g names => do
    let t ← f.tree? i
    let vs ← f.glance r t g
    some (f.keepViews (names.zip vs))
  | .resync i name => do
    let t ← f.tree? i
    let v ← f.view? name
    let w ← (t.resync r v).toOption
    some (f.keepView name w)

/-- The forest after several acts. An act that is refused leaves it as it was. -/
def run (f : Forest) : List Act → Forest
  | [] => f
  | a :: acts => ((f.act r a).getD f).run acts

end Acts

variable {r : Registry} {f g : Forest} {a : Act} {i : Nat} {t u : Tree} {name : String}
  {v : View} {kept : List (String × View)} {home : Nat}

/-! ## Looking things up -/

@[simp] theorem tree?_keepViews : (f.keepViews kept).tree? i = f.tree? i := by
  induction kept generalizing f with
  | nil => rfl
  | cons k kept ih => exact ih

theorem tree?_addTree_eq_some :
    (f.addTree t).tree? i = some u ↔ f.tree? i = some u ∨ i = f.nextId ∧ t = u := by
  simp only [addTree, tree?, nextId]
  by_cases before : i < f.trees.length
  · rw [List.getElem?_append_left before]
    simp [Nat.ne_of_lt before]
  · by_cases last : i = f.trees.length
    · simp [last]
    · have beyond : (f.trees ++ [t]).length ≤ i := by
        rw [List.length_append, List.length_singleton]
        omega
      have absent : f.trees[i]? = none := List.getElem?_eq_none (Nat.le_of_not_lt before)
      simp [List.getElem?_eq_none beyond, absent, last]

theorem tree?_setTree_eq_some (old : f.tree? i = some t) {j : Nat} {w : Tree} :
    (f.setTree i u).tree? j = some w ↔ (i = j ∧ u = w) ∨ (i ≠ j ∧ f.tree? j = some w) := by
  obtain ⟨inside, -⟩ := List.getElem?_eq_some_iff.1 old
  by_cases same : i = j
  · subst same
    simp [setTree, tree?, inside]
  · simp [setTree, tree?, same]

theorem view?_keepView (x : String) :
    (f.keepView name v).view? x = if x = name then some v else f.view? x := by
  by_cases same : x = name
  · simp [keepView, view?, same]
  · have others (views : List (String × View)) :
        (views.filter (·.1 != name)).lookup x = views.lookup x := by
      induction views with
      | nil => rfl
      | cons k views ih =>
        obtain ⟨y, w⟩ := k
        by_cases dropped : y = name
        · subst dropped
          have differ : (x == y) = false := by simpa using same
          simp [List.lookup_cons, differ, ih]
        · simp [dropped, List.lookup_cons, ih]
    have differ : (x == name) = false := by simpa using same
    simp [keepView, view?, List.lookup_cons, differ, same, others]

/-- What is found after views were kept is one of them or was there before. -/
theorem view?_keepViews (found : (f.keepViews kept).view? name = some v) :
    (name, v) ∈ kept ∨ f.view? name = some v := by
  induction kept generalizing f with
  | nil => exact .inr found
  | cons k kept ih =>
    rcases ih found with listed | found
    · exact .inl (List.mem_cons_of_mem _ listed)
    · rw [view?_keepView] at found
      split at found
      · rename_i same
        obtain rfl := Option.some.inj found
        exact .inl (same ▸ List.mem_cons_self)
      · exact .inr found

theorem view?_keepViews_of_notMem (other : ∀ k ∈ kept, k.1 ≠ name) :
    (f.keepViews kept).view? name = f.view? name := by
  induction kept generalizing f with
  | nil => rfl
  | cons k kept ih =>
    obtain ⟨first, rest⟩ := List.forall_mem_cons.1 other
    show ((f.keepView k.1 k.2).keepViews kept).view? name = f.view? name
    rw [ih rest, view?_keepView, if_neg (Ne.symm first)]

/-! ## The invariant -/

/-- Whether a view is of a tree of the forest, is no newer than the tree, and shows it unless it is
older. -/
def Accounts (r : Registry) (f : Forest) (v : View) : Prop :=
  ∃ t, f.tree? v.tree = some t ∧ v.generation ≤ t.generation ∧
    (v.generation = t.generation → t.Shows r v)

/-- Whether trees have their positions for identities, are valid, and all kept views are accounted
for. -/
structure Sound (r : Registry) (f : Forest) : Prop where
  id : ∀ {i t}, f.tree? i = some t → t.id = i
  valid : ∀ {i t}, f.tree? i = some t → t.Valid r
  accounts : ∀ {name v}, f.view? name = some v → f.Accounts r v

theorem sound_empty : empty.Sound r where
  id h := by cases h
  valid h := by cases h
  accounts h := by cases h

/-- A view that shows a tree of the forest is accounted for. -/
theorem Sound.accounts_of_shows (h : f.Sound r) (there : f.tree? i = some t) (shown : t.Shows r v) :
    f.Accounts r v := by
  obtain ⟨tree, generation⟩ := View.isStale_eq_false.1 shown.isStale
  refine ⟨t, ?_, Nat.le_of_eq generation, fun _ => shown⟩
  rw [tree, h.id there, there]

/-- A kept view shows the tree for which it is fresh. -/
theorem Sound.shows_of_fresh (h : f.Sound r) (there : f.tree? i = some t)
    (kept : f.view? name = some v) (fresh : v.isStale t = false) : t.Shows r v := by
  obtain ⟨tree, generation⟩ := View.isStale_eq_false.1 fresh
  obtain ⟨t', there', -, shown⟩ := h.accounts kept
  rw [tree, h.id there, there] at there'
  obtain rfl := Option.some.inj there'
  exact shown generation

/-! ## What an act does -/

/-- What an act has done to a forest: planted a tree, moved one on, or kept views that show one. -/
inductive Effect (r : Registry) (f : Forest) (a : Act) : Forest → Prop
  | planted {t : Tree} (started : Tree.Started r t) (id : t.id = f.nextId) :
      Effect r f a (f.addTree t)
  | mutated {i : Nat} {t u : Tree} (old : f.tree? i = some t) (moved : Tree.Moved r t u)
      (id : u.id = t.id) : Effect r f a (f.setTree i u)
  | viewed {i : Nat} {t : Tree} {kept : List (String × View)} (there : f.tree? i = some t)
      (listed : ∀ k ∈ kept, k.1 ∈ a.names)
      (shown : ∀ k ∈ kept, t.Shows r k.2) : Effect r f a (f.keepViews kept)

theorem started_of_start {policy : FailurePolicy} {ref : TypeRef} {value? : Option Value}
    (h : f.start r policy ref value? = .ok t) : Tree.Started r t ∧ t.id = f.nextId := by
  cases value? with
  | none =>
    refine ⟨.ofRef h, ?_⟩
    simp only [start, Tree.ofRef, Tree.ofDefault] at h
    split at h
    · split at h
      · obtain rfl := Except.ok.inj h
        rfl
      · cases h
    · cases h
  | some v =>
    obtain ⟨type, resolved, made⟩ := Outcome.bind_eq_ok.1 h
    refine ⟨.ofValue (Outcome.mapError_eq_ok.1 resolved) made, ?_⟩
    obtain ⟨-, made⟩ := Outcome.seq_eq_ok.1 made
    obtain rfl := Except.ok.inj made
    rfl

/-- In a sound forest, the views that a glance gives show the tree. -/
theorem Sound.shows_of_glance (h : f.Sound (.core home)) (there : f.tree? i = some t)
    {look : Glance} {vs : List View} (seen : f.glance (.core home) t look = some vs)
    (hv : v ∈ vs) : t.Shows (.core home) v := by
  have valid : t.Valid (.core home) := h.valid there
  cases look with
  | root =>
    obtain rfl := Option.some.inj seen
    obtain rfl := List.mem_singleton.1 hv
    exact Tree.shows_rootView
  | node p =>
    obtain ⟨w, viewed, rest⟩ := Option.bind_eq_some_iff.1 seen
    obtain rfl := Option.some.inj rest
    obtain rfl := List.mem_singleton.1 hv
    exact Tree.shows_view (Outcome.toOption_eq_some.1 viewed)
  | child name j =>
    obtain ⟨w, kept, rest⟩ := Option.bind_eq_some_iff.1 seen
    obtain ⟨x, viewed, rest⟩ := Option.bind_eq_some_iff.1 rest
    obtain rfl := Option.some.inj rest
    obtain rfl := List.mem_singleton.1 hv
    have viewed := Outcome.toOption_eq_some.1 viewed
    have fresh := View.checkFresh_eq_ok.1 (Outcome.seq_eq_ok.1 viewed).1
    exact (h.shows_of_fresh there kept fresh).childOf valid viewed
  | childBehind name s =>
    obtain ⟨w, kept, rest⟩ := Option.bind_eq_some_iff.1 seen
    obtain ⟨x, viewed, rest⟩ := Option.bind_eq_some_iff.1 rest
    obtain rfl := Option.some.inj rest
    obtain rfl := List.mem_singleton.1 hv
    have viewed := Outcome.toOption_eq_some.1 viewed
    have fresh := View.checkFresh_eq_ok.1 (Outcome.seq_eq_ok.1 viewed).1
    exact (h.shows_of_fresh there kept fresh).childBehind viewed
  | children name =>
    obtain ⟨w, kept, viewed⟩ := Option.bind_eq_some_iff.1 seen
    have viewed := Outcome.toOption_eq_some.1 viewed
    have fresh := View.checkFresh_eq_ok.1 (Outcome.seq_eq_ok.1 viewed).1
    exact (h.shows_of_fresh there kept fresh).childrenOf valid viewed hv
  | walk =>
    obtain rfl := Option.some.inj seen
    exact Tree.shows_walk valid hv

/-- Every act on a sound forest has one of the three effects. -/
theorem Sound.effect_of_act (h : f.Sound (.core home)) (done : f.act (.core home) a = some g) :
    Effect (.core home) f a g := by
  cases a with
  | plant policy ref value? =>
    obtain ⟨t, made, rest⟩ := Option.bind_eq_some_iff.1 done
    obtain rfl := Option.some.inj rest
    obtain ⟨started, id⟩ := started_of_start (Outcome.toOption_eq_some.1 made)
    exact .planted started id
  | mutate i m =>
    obtain ⟨t, there, rest⟩ := Option.bind_eq_some_iff.1 done
    obtain ⟨u, moved, rest⟩ := Option.bind_eq_some_iff.1 rest
    obtain rfl := Option.some.inj rest
    have moved := Outcome.toOption_eq_some.1 moved
    exact .mutated there ((h.valid there).moved moved) (Mutation.id_apply moved)
  | look i look names =>
    obtain ⟨t, there, rest⟩ := Option.bind_eq_some_iff.1 done
    obtain ⟨vs, seen, rest⟩ := Option.bind_eq_some_iff.1 rest
    obtain rfl := Option.some.inj rest
    refine .viewed there ?_ ?_
    · intro k hk
      exact (List.of_mem_zip hk).1
    · intro k hk
      exact h.shows_of_glance there seen (List.of_mem_zip hk).2
  | resync i name =>
    obtain ⟨t, there, rest⟩ := Option.bind_eq_some_iff.1 done
    obtain ⟨v, kept, rest⟩ := Option.bind_eq_some_iff.1 rest
    obtain ⟨w, viewed, rest⟩ := Option.bind_eq_some_iff.1 rest
    obtain rfl := Option.some.inj rest
    have shown := Tree.shows_view (Outcome.toOption_eq_some.1 viewed)
    have effect : Effect (.core home) f (.resync i name) (f.keepViews [(name, w)]) :=
      .viewed there (by simp [Act.names]) (by simpa using shown)
    exact effect

namespace Effect

/-- Every tree is still there, as it was or with a later generation. -/
theorem exists_tree (e : Effect r f a g) (there : f.tree? i = some t) :
    ∃ u, g.tree? i = some u ∧ (u = t ∨ t.generation < u.generation) := by
  cases e with
  | planted => exact ⟨t, tree?_addTree_eq_some.2 (.inl there), .inl rfl⟩
  | @mutated j t' u old moved =>
    by_cases same : j = i
    · subst same
      obtain rfl := Option.some.inj (old.symm.trans there)
      refine ⟨u, (tree?_setTree_eq_some old).2 (.inl ⟨rfl, rfl⟩), .inr ?_⟩
      rw [moved.generation]
      exact Nat.lt_succ_self _
    · exact ⟨t, (tree?_setTree_eq_some old).2 (.inr ⟨same, there⟩), .inl rfl⟩
  | viewed => exact ⟨t, by rwa [tree?_keepViews], .inl rfl⟩

/-- What is accounted for before is accounted for afterwards. -/
theorem accounts (e : Effect r f a g) (h : f.Accounts r v) : g.Accounts r v := by
  obtain ⟨t, there, before, shown⟩ := h
  obtain ⟨u, there', rfl | later⟩ := e.exists_tree there
  · exact ⟨u, there', before, shown⟩
  · have older : v.generation < u.generation := Nat.lt_of_le_of_lt before later
    refine ⟨u, there', Nat.le_of_lt older, ?_⟩
    intro same
    exact absurd same (Nat.ne_of_lt older)

/-- A forest stays sound. -/
theorem sound (e : Effect (.core home) f a g) (h : f.Sound (.core home)) :
    g.Sound (.core home) where
  id {i u} there := by
    cases e with
    | planted started id =>
      rcases tree?_addTree_eq_some.1 there with there | ⟨rfl, rfl⟩
      · exact h.id there
      · exact id
    | mutated old moved id =>
      rcases (tree?_setTree_eq_some old).1 there with ⟨rfl, rfl⟩ | ⟨-, there⟩
      · exact id.trans (h.id old)
      · exact h.id there
    | viewed => exact h.id (by rwa [tree?_keepViews] at there)
  valid {i u} there := by
    cases e with
    | planted started =>
      rcases tree?_addTree_eq_some.1 there with there | ⟨rfl, rfl⟩
      · exact h.valid there
      · exact started.valid
    | mutated old moved =>
      rcases (tree?_setTree_eq_some old).1 there with ⟨rfl, rfl⟩ | ⟨-, there⟩
      · exact moved.valid (h.valid old)
      · exact h.valid there
    | viewed => exact h.valid (by rwa [tree?_keepViews] at there)
  accounts {name v} found := by
    apply e.accounts
    cases e with
    | planted => exact h.accounts found
    | mutated => exact h.accounts found
    | viewed there listed shown =>
      rcases view?_keepViews found with new | found
      · exact h.accounts_of_shows there (shown _ new)
      · exact h.accounts found

/-- Views under other names stay. -/
theorem view? (e : Effect r f a g) (other : name ∉ a.names) : g.view? name = f.view? name := by
  cases e with
  | planted => rfl
  | mutated => rfl
  | viewed there listed =>
    apply view?_keepViews_of_notMem
    intro k hk same
    exact other (same ▸ listed k hk)

end Effect

/-! ## Sessions -/

variable {acts : List Act}

/-- What one act does to a sound forest, whether it is refused or not. -/
theorem Sound.act_cases (h : f.Sound (.core home)) (a : Act) :
    (f.act (.core home) a).getD f = f ∨
      Effect (.core home) f a ((f.act (.core home) a).getD f) := by
  cases done : f.act (.core home) a with
  | none => exact .inl rfl
  | some g => exact .inr (h.effect_of_act done)

theorem Sound.act (h : f.Sound (.core home)) (a : Act) :
    ((f.act (.core home) a).getD f).Sound (.core home) := by
  rcases h.act_cases a with same | effect
  · rwa [same]
  · exact effect.sound h

/-- A forest stays sound through a session. -/
theorem Sound.run (h : f.Sound (.core home)) (acts : List Act) :
    (f.run (.core home) acts).Sound (.core home) := by
  induction acts generalizing f with
  | nil => exact h
  | cons a acts ih => exact ih (h.act a)

/-- A tree is there to the end of a session, and its generation does not fall. -/
theorem Sound.exists_tree_run (h : f.Sound (.core home)) (there : f.tree? i = some t)
    (acts : List Act) :
    ∃ u, (f.run (.core home) acts).tree? i = some u ∧ t.generation ≤ u.generation := by
  induction acts generalizing f t with
  | nil => exact ⟨t, there, Nat.le_refl _⟩
  | cons a acts ih =>
    rw [Forest.run]
    obtain ⟨w, there', moved⟩ : ∃ w, ((f.act (.core home) a).getD f).tree? i = some w ∧
        t.generation ≤ w.generation := by
      rcases h.act_cases a with same | effect
      · exact ⟨t, by rwa [same], Nat.le_refl _⟩
      · obtain ⟨w, there', rfl | later⟩ := effect.exists_tree there
        · exact ⟨w, there', Nat.le_refl _⟩
        · exact ⟨w, there', Nat.le_of_lt later⟩
    obtain ⟨u, found, moved'⟩ := ih (h.act a) there'
    exact ⟨u, found, Nat.le_trans moved moved'⟩

/-- A view stays under its name as long as no other is kept there. -/
theorem Sound.view?_run (h : f.Sound (.core home)) (other : ∀ a ∈ acts, name ∉ a.names) :
    (f.run (.core home) acts).view? name = f.view? name := by
  induction acts generalizing f with
  | nil => rfl
  | cons a acts ih =>
    obtain ⟨first, rest⟩ := List.forall_mem_cons.1 other
    rw [Forest.run, ih (h.act a) rest]
    rcases h.act_cases a with same | effect
    · rw [same]
    · exact effect.view? first

/-- A change of a tree makes every view of it stale for good. -/
theorem Sound.isStale_of_mutated (h : f.Sound (.core home)) {m : Mutation}
    (there : f.tree? i = some t) (moved : m.apply (.core home) t = .ok u)
    (known : f.Accounts (.core home) v) (later : List Act) :
    ∃ w, (f.run (.core home) (.mutate i m :: later)).tree? i = some w ∧ v.isStale w = true := by
  have done : f.act (.core home) (.mutate i m) = some (f.setTree i u) := by
    simp [Forest.act, there, moved, Except.toOption]
  have sound : (f.setTree i u).Sound (.core home) := (h.effect_of_act done).sound h
  have there' : (f.setTree i u).tree? i = some u :=
    (tree?_setTree_eq_some there).2 (.inl ⟨rfl, rfl⟩)
  obtain ⟨w, found, grown⟩ := sound.exists_tree_run there' later
  have id : w.id = i := (sound.run later).id found
  rw [Forest.run, done, Option.getD_some]
  refine ⟨w, found, View.isStale_eq_true.2 ?_⟩
  by_cases own : v.tree = i
  · obtain ⟨t', there'', before, -⟩ := known
    rw [own, there] at there''
    obtain rfl := Option.some.inj there''
    have next : u.generation = t.generation + 1 := ((h.valid there).moved moved).generation
    right
    omega
  · left
    rwa [id]

/-- What views tell at every moment of a session. A view that is fresh for a tree is what its path
leads to in the tree, with the same type and value. After a change of a tree, all views taken
before are stale for it for good, and they stay as they are under their names until another is kept
there. A view that is stale for a tree, or of another tree, leads nowhere. -/
theorem views_spec (acts : List Act) :
    let f := empty.run (.core home) acts
    (∀ i t name v, f.tree? i = some t → f.view? name = some v → v.isStale t = false →
        t.view (.core home) v.path = .ok v) ∧
      (∀ i m t u later, f.tree? i = some t → m.apply (.core home) t = .ok u →
        let g := f.run (.core home) (.mutate i m :: later)
        ∀ name v, f.view? name = some v →
          (∃ w, g.tree? i = some w ∧ v.isStale w = true) ∧
            ((∀ a ∈ later, name ∉ a.names) → g.view? name = some v)) ∧
      ∀ (t : Tree) (v : View), v.isStale t = true →
        (∀ j, t.childOf (.core home) v j = .error (v.refusal t)) ∧
          (∀ s, t.childBehind (.core home) v s = .error (v.refusal t)) ∧
            t.childrenOf (.core home) v = .error (v.refusal t) := by
  intro f
  have sound : f.Sound (.core home) := sound_empty.run acts
  refine ⟨?_, ?_, ?_⟩
  · intro i t name v there kept fresh
    exact sound.shows_of_fresh there kept fresh
  · intro i m t u later there moved g name v kept
    refine ⟨sound.isStale_of_mutated there moved (sound.accounts kept) later, ?_⟩
    intro other
    have unnamed : ∀ a ∈ Act.mutate i m :: later, name ∉ a.names :=
      List.forall_mem_cons.2 ⟨List.not_mem_nil, other⟩
    exact (sound.view?_run unnamed).trans kept
  · intro t v stale
    exact View.refused stale

/-- A record with a pair of truth values, with a view of the pair and one of each part. After the first
part was set, the view of the second is taken anew, and it alone is fresh. -/
theorem views_spec_record :
    ∃ t pair second,
      let f := empty.run (.core 0) [
        .plant .strict (.record [⟨⟨"pair"⟩, .tuple [.bool, .bool], false⟩])
          (some (.record [(⟨"pair"⟩, some (.tuple [.bool false, .bool false]))])),
        .look 0 .root ["whole"], .look 0 (.children "whole") ["pair"],
        .look 0 (.children "pair") ["first", "second"],
        .mutate 0 (.change [.field ⟨"pair"⟩, .index 0] (.set (.bool true))), .resync 0 "second"]
      f.tree? 0 = some t ∧ f.view? "pair" = some pair ∧ f.view? "second" = some second ∧
        pair.isStale t = true ∧
          t.childOf (.core 0) pair 1 = .error (.staleView [.field ⟨"pair"⟩] 0 1) ∧
            second.isStale t = false ∧ t.view (.core 0) second.path = .ok second := by
  have laws := @views_spec 0 [
    .plant .strict (.record [⟨⟨"pair"⟩, .tuple [.bool, .bool], false⟩])
      (some (.record [(⟨"pair"⟩, some (.tuple [.bool false, .bool false]))])),
    .look 0 .root ["whole"], .look 0 (.children "whole") ["pair"],
    .look 0 (.children "pair") ["first", "second"],
    .mutate 0 (.change [.field ⟨"pair"⟩, .index 0] (.set (.bool true))), .resync 0 "second"]
  obtain ⟨fresh, -, stale⟩ := laws
  refine ⟨_, _, _, rfl, rfl, rfl, rfl, (stale _ _ rfl).1 1, rfl, fresh 0 _ "second" _ rfl rfl rfl⟩

end Forest

end TypedTree
