import TypedTree.Proofs.Nodes

/-!
# Runs of a tree

A tree is started with a value or a default of a resolved type and then changed step by step. A
step that fails leaves the tree as it was. Over the core registry, the value of the root is valid
for the type of the root at every moment of every run, and so the root of any earlier moment can be
installed again.

## Main definitions

* `Mutation`, `Tree.perform`, `Tree.run`: the steps of a run and their effect.
* `Tree.Started`, `Tree.Reachable`: the trees that runs start with and lead to.

## Main statements

* `Tree.valid_run`: the root stays valid.
* `Tree.run_spec`: what holds at every moment of a run.
-/

namespace TypedTree

/-- One step of a run. -/
inductive Mutation where
  /-- Change the node at a path. -/
  | change (p : Path) (c : Change)
  /-- Install a new value as the root. -/
  | replaceRoot (v : Value)
  /-- Install an edition as the root. -/
  | restore (e : Edition)

/-- The tree after a step that succeeds. -/
def Mutation.apply (r : Registry) (t : Tree) : Mutation → Except TreeError Tree
  | .change p c => t.change r p c
  | .replaceRoot v => t.replaceRoot r v
  | .restore e => t.restore r e

namespace Tree

variable (r : Registry)

/-- Carry out a step. One that fails leaves the tree as it was. -/
def perform (t : Tree) (m : Mutation) : Except TreeError Unit × Tree :=
  match m.apply r t with
  | .ok u => (.ok (), u)
  | .error e => (.error e, t)

/-- Carry out several steps, whether they fail or not. -/
def run (t : Tree) : List Mutation → Tree
  | [] => t
  | m :: ms => (t.perform r m).2.run ms

/-- The trees that runs start with: of a type that the registry gives for some reference, with a
valid value or the default. -/
inductive Started : Tree → Prop
  | ofValue {policy ref type id v t} (resolved : r.resolveBy policy ref = .ok type)
    (made : Tree.ofValue r id type v = .ok t) : Started t
  | ofDefault {policy ref type id t} (resolved : r.resolveBy policy ref = .ok type)
    (made : Tree.ofDefault r id type = .ok t) : Started t
  | ofRef {policy ref id t} (made : Tree.ofRef r policy id ref = .ok t) : Started t

/-- The trees that runs lead to. -/
def Reachable (t : Tree) : Prop :=
  ∃ start ms, Started r start ∧ start.run r ms = t

/-- Whether the root of a tree is a valid node. -/
abbrev Valid (t : Tree) : Prop :=
  t.rootNode.Valid r

variable {r} {t u : Tree} {m : Mutation} {home : Nat}

/-! ## The start -/

/-- A stand-in accepts nothing. -/
theorem owns_of_accepts {policy : FailurePolicy} {ref : TypeRef} {type : Ty} {v : Value}
    (resolved : r.resolveBy policy ref = .ok type) (accepted : type.Accepts r.oracle v) :
    r.Owns type := by
  rcases Registry.owns_or_isFailure resolved with owned | ⟨e, failure⟩
  · exact owned
  · rw [Ty.accepts_iff, failure] at accepted
    exact accepted.elim

theorem valid_ofValue {policy : FailurePolicy} {ref : TypeRef} {type : Ty} {id : Nat} {v : Value}
    (resolved : r.resolveBy policy ref = .ok type) (made : ofValue r id type v = .ok t) :
    t.Valid r := by
  simp only [ofValue, Outcome.seq_eq_ok, Node.admits_eq_ok, Except.ok.injEq] at made
  obtain ⟨accepted, rfl⟩ := made
  exact ⟨owns_of_accepts resolved accepted, accepted⟩

theorem valid_ofDefault {policy : FailurePolicy} {ref : TypeRef} {type : Ty} {id : Nat}
    (resolved : (Registry.core home).resolveBy policy ref = .ok type)
    (made : ofDefault (.core home) id type = .ok t) : t.Valid (.core home) := by
  rw [ofDefault] at made
  split at made
  · rename_i v default
    obtain rfl := Except.ok.inj made
    rcases Registry.owns_or_isFailure resolved with owned | ⟨e, failure⟩
    · exact ⟨owned, Registry.accepts_default owned default⟩
    · rw [Ty.default] at default
      simp [failure] at default
  · simp at made

/-- Runs start with valid roots. -/
theorem Started.valid (h : Started (.core home) t) : t.Valid (.core home) := by
  cases h with
  | ofValue resolved made => exact valid_ofValue resolved made
  | ofDefault resolved made => exact valid_ofDefault resolved made
  | ofRef made =>
    rw [Tree.ofRef] at made
    split at made
    · exact valid_ofDefault ‹_› made
    · simp at made

/-! ## Steps -/

/-- What a step that succeeds has done. -/
structure Moved (r : Registry) (t u : Tree) : Prop where
  type : u.type = t.type
  generation : u.generation = t.generation + 1
  accepted : t.type.Accepts r.oracle u.root.value

/-- A step that succeeds keeps the type, counts, and gives a valid root. -/
theorem Valid.moved (h : t.Valid (.core home)) (hm : m.apply (.core home) t = .ok u) :
    Moved (.core home) t u := by
  cases m with
  | change p c =>
    obtain ⟨v, changed, rfl⟩ : ∃ v, _ ∧ t.advance v = u := by
      simpa only [Mutation.apply, change, Outcome.bind_eq_ok, Except.ok.injEq] using hm
    exact ⟨rfl, rfl, Node.Valid.modifyAt h changed⟩
  | replaceRoot v =>
    simp only [Mutation.apply, replaceRoot, Outcome.seq_eq_ok, Node.admits_eq_ok,
      Except.ok.injEq] at hm
    obtain ⟨accepted, rfl⟩ := hm
    exact ⟨rfl, rfl, accepted⟩
  | restore e =>
    simp only [Mutation.apply, restore, Outcome.seq_eq_ok, Node.admits_eq_ok,
      Except.ok.injEq] at hm
    obtain ⟨accepted, rfl⟩ := hm
    exact ⟨rfl, rfl, accepted⟩

/-- A step leaves the tree as it was or moves it on. -/
theorem Valid.perform_cases (h : t.Valid (.core home)) (m : Mutation) :
    (∃ e, t.perform (.core home) m = (.error e, t)) ∨
      ∃ u, t.perform (.core home) m = (.ok (), u) ∧ Moved (.core home) t u := by
  rw [perform]
  cases hm : m.apply (.core home) t with
  | error e => exact .inl ⟨e, rfl⟩
  | ok u => exact .inr ⟨u, rfl, h.moved hm⟩

theorem Moved.valid (moved : Moved r t u) (h : t.Valid r) : u.Valid r := by
  refine ⟨?_, ?_⟩
  · show r.Owns u.type
    rw [moved.type]
    exact h.owned
  · show u.type.Accepts r.oracle u.root.value
    rw [moved.type]
    exact moved.accepted

/-! ## Runs -/

/-- The root stays valid, and its type stays the same. -/
theorem valid_run (h : t.Valid (.core home)) (ms : List Mutation) :
    (t.run (.core home) ms).Valid (.core home) ∧ (t.run (.core home) ms).type = t.type := by
  induction ms generalizing t with
  | nil => exact ⟨h, rfl⟩
  | cons m ms ih =>
    rw [run]
    rcases h.perform_cases m with ⟨e, failed⟩ | ⟨u, done, moved⟩
    · rw [failed]
      exact ih h
    · rw [done, ← moved.type]
      exact ih (moved.valid h)

/-- Reachable trees have a valid root. -/
theorem Reachable.valid (h : Reachable (.core home) t) : t.Valid (.core home) := by
  obtain ⟨start, ms, started, rfl⟩ := h
  exact (valid_run started.valid ms).1

/-- A root that is valid can be installed. -/
theorem perform_restore {e : Edition} (h : t.type.Accepts r.oracle e.value) :
    t.perform r (.restore e) =
      (.ok (), { t with root := e, generation := t.generation + 1 }) := by
  have admitted : t.rootNode.admits r e.value = .ok () := Node.admits_eq_ok.2 h
  simp [perform, Mutation.apply, restore, admitted]

theorem perform_replaceRoot {v : Value} (h : t.type.Accepts r.oracle v) :
    t.perform r (.replaceRoot v) = (.ok (), t.advance v) := by
  have admitted : t.rootNode.admits r v = .ok () := Node.admits_eq_ok.2 h
  simp [perform, Mutation.apply, replaceRoot, admitted]

/-- At every moment of a run the root is valid for the type that the tree was started with. A step
that fails leaves root and generation alone, and one that succeeds raises the generation by one.
What was the root after some steps from the same start, as after fewer of these, can be installed
again. -/
theorem run_spec {start : Tree} (h : Started (.core home) start) (ms : List Mutation) :
    let now := start.run (.core home) ms
    now.type = start.type ∧
      (start.type.check now.root.value).answer (Registry.core home).oracle = .ok () ∧
      (∀ m e u, now.perform (.core home) m = (.error e, u) →
        u.root = now.root ∧ u.generation = now.generation) ∧
      (∀ m u, now.perform (.core home) m = (.ok (), u) →
        u.generation = now.generation + 1) ∧
      ∀ earlier : List Mutation,
        let snapshot := (start.run (.core home) earlier).root
        (∃ u, now.perform (.core home) (.restore snapshot) = (.ok (), u) ∧ u.root = snapshot) ∧
          ∃ u, now.perform (.core home) (.replaceRoot snapshot.value) = (.ok (), u) ∧
            u.root.value = snapshot.value := by
  intro now
  obtain ⟨valid, type⟩ := valid_run h.valid ms
  refine ⟨type, type ▸ valid.accepted, ?_, ?_, ?_⟩
  · intro m e u failed
    rcases valid.perform_cases m with ⟨e', same⟩ | ⟨u', done, -⟩
    · obtain ⟨-, rfl⟩ := Prod.mk.inj (same.symm.trans failed)
      exact ⟨rfl, rfl⟩
    · simp [now, done] at failed
  · intro m u done
    rcases valid.perform_cases m with ⟨e', same⟩ | ⟨u', done', moved⟩
    · simp [now, same] at done
    · obtain ⟨-, rfl⟩ := Prod.mk.inj (done'.symm.trans done)
      exact moved.generation
  · intro earlier snapshot
    obtain ⟨before, type'⟩ := valid_run h.valid earlier
    have accepted : now.type.Accepts (Registry.core home).oracle snapshot.value := by
      rw [type, ← type']
      exact before.accepted
    exact ⟨⟨_, perform_restore accepted, rfl⟩, _, perform_replaceRoot accepted, rfl⟩

/-- A record with a list of truth values. One is set, another refuses to become a number, and is taken
out. -/
theorem run_spec_record :
    ∃ start, Started (.core 0) start ∧
      let now := start.run (.core 0) [.change [.field ⟨"flags"⟩, .index 1] (.set (.bool true)),
        .change [.field ⟨"flags"⟩, .index 0] (.set (.int 1)),
        .change [.field ⟨"flags"⟩] (.edit (.array (.remove 0)))]
      now.root.value = .record [(⟨"flags"⟩, some (.array [.bool true]))] ∧
        (start.type.check now.root.value).answer (Registry.core 0).oracle = .ok () := by
  have started : Started (.core 0) _ :=
    .ofValue (show (Registry.core 0).resolveBy .strict
        (.record [⟨⟨"flags"⟩, .list .bool, false⟩]) = .ok _ from rfl)
      (show Tree.ofValue _ 0 _
        (.record [(⟨"flags"⟩, some (.array [.bool false, .bool false]))]) = .ok _ from rfl)
  exact ⟨_, started, rfl, (run_spec started _).2.1⟩

end Tree

end TypedTree
