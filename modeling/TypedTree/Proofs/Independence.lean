import TypedTree.Proofs.Writes

/-!
# Independent changes

Two changes at places of a tree of which neither is below the other do not see each other. Carried
out in either order each succeeds or fails as it does alone, and the outcome is the same tree.

The nodes that both paths go through are rebuilt twice. Where the paths part, two different children
of one value are written, and such writes can be exchanged. Above, both writes are to the same child
and the second remains, which is the child that holds both changes.

## Main definitions

* `IndependentWrites`: writes to different members of a whole can be exchanged.

## Main statements

* `Ty.independentWrites`: writes to different children can be exchanged.
* `Node.modifyAt_comm`, `Node.modifyAt_error_beside`: two changes that succeed, and a change that
  fails beside one that succeeds.
* `Tree.changes_commute`: changes at independent paths of a tree.
-/

namespace TypedTree

/-- Whether writes to different members of a whole can be exchanged: both go through in either
order, with the same outcome, or in neither. -/
structure IndependentWrites {σ : Type} (write : Value → Nat → σ → Option σ) (s : σ) : Prop where
  exchange : ∀ {i j : Nat} (w x : Value), i ≠ j →
    (write w i s).bind (write x j) = (write x j s).bind (write w i)

namespace IndependentWrites

variable {σ τ : Type} {write : Value → Nat → σ → Option σ} {write' : Value → Nat → τ → Option τ}
  {s : σ}

/-- Two writes to a whole that each go to its content. -/
theorem bind_content {content : σ → τ} {f g : σ → Option σ} {f' g' : τ → Option τ}
    (hf : ∀ s, f' (content s) = (f s).map content) (hg : ∀ s, g' (content s) = (g s).map content) :
    (f' (content s)).bind g' = ((f s).bind g).map content := by
  rw [hf]
  cases f s with
  | none => rfl
  | some s' => exact hg s'

/-- Writes can be exchanged in a whole if they can in its content. -/
theorem embed (h : IndependentWrites write s) (content : σ → τ)
    (hw : ∀ w i s, write' w i (content s) = (write w i s).map content) :
    IndependentWrites write' (content s) where
  exchange {i j} w x other := by
    rw [bind_content (hw w i) (hw x j), bind_content (hw x j) (hw w i), h.exchange w x other]

/-- Writes can be exchanged if they can behind the first member. -/
theorem cons (h : IndependentWrites write s) (content : Value → σ → σ)
    (first : ∀ w v s, write w 0 (content v s) = some (content w s))
    (rest : ∀ w i v s, write w (i + 1) (content v s) = (write w i s).map (content v)) (v : Value) :
    IndependentWrites write (content v s) where
  exchange {i j} w x other := by
    cases i with
    | zero =>
      cases j with
      | zero => exact absurd rfl other
      | succ j =>
        rw [first, rest, Option.bind_some, rest]
        cases write x j s with
        | none => rfl
        | some s' => exact (first w v s').symm
    | succ i =>
      cases j with
      | zero =>
        rw [first, rest, Option.bind_some, rest]
        cases write w i s with
        | none => rfl
        | some s' => exact first x v s'
      | succ j =>
        have other' : i ≠ j := fun same => other (congrArg (· + 1) same)
        rw [bind_content (rest w i v) (rest x j v), bind_content (rest x j v) (rest w i v),
          h.exchange w x other']

end IndependentWrites

theorem Slots.independentWrites (s : Slots) : IndependentWrites setActive? s := by
  induction s with
  | nil => exact ⟨by simp⟩
  | cons slot s ih =>
    rcases slot with ⟨id, _ | v⟩
    · exact ih.embed (fun s => (id, none) :: s) fun w i s => setActive?_cons_none id w i s
    · exact ih.cons (fun v s => (id, some v) :: s) (fun w v s => setActive?_zero id v w s)
        (fun w i v s => setActive?_succ id v w i s) v

theorem Fields.independentWrites (s : Fields) : IndependentWrites Ty.setField? s := by
  induction s with
  | nil => exact ⟨by simp [Ty.setField?]⟩
  | cons f s ih =>
    exact ih.cons (fun v s => (f.1, v) :: s) (fun w v s => rfl) (fun w i v s => rfl) f.2

theorem Items.independentWrites (s : List Value) : IndependentWrites Ty.setItem? s where
  exchange {i j} w x other := by
    by_cases hi : i < s.length
    · by_cases hj : j < s.length
      · simp [Ty.setItem?, hi, hj, List.set_comm w x other]
      · simp [Ty.setItem?, hi, hj]
    · by_cases hj : j < s.length <;> simp [Ty.setItem?, hi, hj]

/-- The only content of a whole has no other beside it. -/
theorem Content.independentWrites (v : Value) :
    IndependentWrites (fun w i _ => if i = 0 then some w else none) v where
  exchange {i j} w x other := by
    by_cases hi : i = 0
    · have hj : j ≠ 0 := fun hj => other (hi.trans hj.symm)
      simp [hi, hj]
    · by_cases hj : j = 0 <;> simp [hi, hj]

theorem Mapping.independentWrites (rules : List (Rule Value)) (fallback : Target Value) :
    IndependentWrites setAnswer? ⟨rules, fallback⟩ := by
  induction rules with
  | nil =>
    cases fallback with
    | itself => exact ⟨by simp [setAnswer?]⟩
    | fixed v =>
      constructor
      intro i j w x other
      cases i with
      | zero =>
        cases j with
        | zero => exact absurd rfl other
        | succ j => simp [setAnswer?]
      | succ i => cases j <;> simp [setAnswer?]
  | cons rule rules ih =>
    rcases rule with ⟨p, v | _⟩
    · exact ih.cons (fun v table => { table with rules := ⟨p, .fixed v⟩ :: table.rules })
        (fun w v table => setAnswer?_zero p v w table.fallback table.rules)
        (fun w i v table => setAnswer?_succ i p v w table.fallback table.rules) v
    · refine ih.embed (fun table => { table with rules := ⟨p, .itself⟩ :: table.rules }) ?_
      intro w i table
      exact setAnswer?_itself i p w table.fallback table.rules

namespace Ty

variable (t : Ty) (v : Value)

/-- Writes to different children can be exchanged. -/
theorem independentWrites : IndependentWrites (fun w i v => t.setChild? v i w) v := by
  obtain ⟨home, ref, name, kind⟩ := t
  have nowhere (hw : ∀ i w, setChild? ⟨home, ref, name, kind⟩ v i w = none) :
      IndependentWrites (fun w i v => setChild? ⟨home, ref, name, kind⟩ v i w) v :=
    ⟨by simp [hw]⟩
  cases kind with
  | record fields =>
    cases v with
    | record slots => exact (Slots.independentWrites slots).embed Value.record fun w i s => rfl
    | _ => exact nowhere fun _ _ => rfl
  | variant declared tags initial =>
    cases v with
    | variant tag fields =>
      exact (Fields.independentWrites fields).embed (Value.variant tag) fun w i s => rfl
    | _ => exact nowhere fun _ _ => rfl
  | array element size =>
    cases v with
    | array items => exact (Items.independentWrites items).embed Value.array fun w i s => rfl
    | _ => exact nowhere fun _ _ => rfl
  | tuple slots =>
    cases v with
    | tuple items => exact (Items.independentWrites items).embed Value.tuple fun w i s => rfl
    | _ => exact nowhere fun _ _ => rfl
  | map source target =>
    cases v with
    | map table =>
      exact (Mapping.independentWrites table.rules table.fallback).embed Value.map
        fun w i s => rfl
    | _ => exact nowhere fun _ _ => rfl
  | sum summands initial =>
    cases v with
    | sum index inner =>
      exact (Content.independentWrites inner).embed (Value.sum index)
        fun w i s => by cases i <;> rfl
    | _ => exact nowhere fun _ _ => rfl
  | generic body generic vars bound =>
    cases v with
    | generic bindings inner =>
      exact (Content.independentWrites inner).embed (Value.generic bindings)
        fun w i s => by cases i <;> rfl
    | _ => exact nowhere fun _ _ => rfl
  | _ => exact nowhere fun _ _ => rfl

variable {t v} {i j : Nat} {w x v' v'' : Value}

/-- Two children are written in either order. -/
theorem setChild?_comm (hw : t.setChild? v i w = some v') (hx : t.setChild? v j x = some v'')
    (other : i ≠ j) : t.setChild? v' j x = t.setChild? v'' i w := by
  have exchange := (t.independentWrites v).exchange w x other
  simpa only [hw, hx, Option.bind_some] using exchange

end Ty

namespace Node

variable {r : Registry} {n m : Node} {p q whole whole' : Path} {s : Step} {i : Nat}
  {x y w : Value} {e : TreeError} {f g : Node → Except TreeError Value}

/-- The child behind a step can be written. -/
theorem exists_setChild?_of_step (hs : n.step r whole s = .ok (i, m)) (w : Value) :
    ∃ v, n.type.setChild? n.value i w = some v := by
  obtain ⟨c, behind, -⟩ := step_eq_ok.1 hs
  exact Ty.exists_setChild? (behind?_eq_some.1 behind).2 w

/-- A change fails on the way down or at the end of the path; the way up does not fail. -/
theorem modifyAt_cons_eq_error :
    n.modifyAt r f whole (s :: p) = .error e ↔
      n.step r whole s = .error e ∨
        ∃ i m, n.step r whole s = .ok (i, m) ∧ m.modifyAt r f whole p = .error e := by
  rw [modifyAt]
  cases hs : n.step r whole s with
  | error e' => simp
  | ok im =>
    obtain ⟨i, m⟩ := im
    cases hm : m.modifyAt r f whole p with
    | error e' => simp [hm]
    | ok w =>
      obtain ⟨v, written⟩ := exists_setChild?_of_step hs w
      have rebuilt : n.withChild i w = .ok v := withChild_eq_ok.2 written
      simp [hm, rebuilt]

/-- Different steps lead to different indices. -/
theorem index_ne {s' : Step} {j : Nat} {k : Node} (hs : n.step r whole s = .ok (i, m))
    (hs' : n.step r whole' s' = .ok (j, k)) (other : s ≠ s') : i ≠ j := by
  obtain ⟨c, behind, -⟩ := step_eq_ok.1 hs
  obtain ⟨c', behind', -⟩ := step_eq_ok.1 hs'
  obtain ⟨index, -⟩ := behind?_eq_some.1 behind
  obtain ⟨index', -⟩ := behind?_eq_some.1 behind'
  intro same
  exact other (Ty.childIndex?_inj index (same ▸ index'))

/-- What fails alone fails in the same way after a change beside it. -/
theorem modifyAt_error_beside (hf : n.modifyAt r f whole p = .ok x)
    (hg : n.modifyAt r g whole' q = .error e) (hpq : ¬ p <+: q) (hqp : ¬ q <+: p) :
    (⟨n.type, x⟩ : Node).modifyAt r g whole' q = .error e := by
  induction p generalizing n x q with
  | nil => exact absurd List.nil_prefix hpq
  | cons s p ih =>
    cases q with
    | nil => exact absurd List.nil_prefix hqp
    | cons s' q =>
      obtain ⟨i, m, w, hs, changed, written⟩ := modifyAt_cons_eq_ok.1 hf
      apply modifyAt_cons_eq_error.2
      by_cases other : s = s'
      · subst other
        simp only [List.cons_prefix_cons, true_and] at hpq hqp
        have before : n.step r whole' s = .ok (i, m) := step_eq_ok.2 (step_eq_ok.1 hs)
        rcases modifyAt_cons_eq_error.1 hg with blocked | ⟨i', m', hs', failed⟩
        · cases before.symm.trans blocked
        · obtain ⟨rfl, rfl⟩ := Prod.mk.inj (Except.ok.inj (before.symm.trans hs'))
          exact .inr ⟨i, ⟨m.type, w⟩, step_rebuilt hs written, ih changed failed hpq hqp⟩
      · rw [step_beside hs written other]
        exact modifyAt_cons_eq_error.1 hg

/-- Changes beside each other can be carried out in either order. -/
theorem modifyAt_comm (hf : n.modifyAt r f whole p = .ok x)
    (hg : n.modifyAt r g whole' q = .ok y) (hpq : ¬ p <+: q) (hqp : ¬ q <+: p) :
    ∃ z, (⟨n.type, x⟩ : Node).modifyAt r g whole' q = .ok z ∧
      (⟨n.type, y⟩ : Node).modifyAt r f whole p = .ok z := by
  induction p generalizing n x y q with
  | nil => exact absurd List.nil_prefix hpq
  | cons s p ih =>
    cases q with
    | nil => exact absurd List.nil_prefix hqp
    | cons s' q =>
      obtain ⟨i, m, w, hs, changed, written⟩ := modifyAt_cons_eq_ok.1 hf
      obtain ⟨j, k, u, hs', changed', written'⟩ := modifyAt_cons_eq_ok.1 hg
      by_cases other : s = s'
      · -- One child holds both changes, and writing it replaces what the first change wrote.
        subst other
        simp only [List.cons_prefix_cons, true_and] at hpq hqp
        have before : n.step r whole s = .ok (j, k) := step_eq_ok.2 (step_eq_ok.1 hs')
        obtain ⟨rfl, rfl⟩ := Prod.mk.inj (Except.ok.inj (hs.symm.trans before))
        obtain ⟨both, second, first⟩ := ih changed changed' hpq hqp
        obtain ⟨z, last⟩ := exists_setChild?_of_step hs both
        refine ⟨z, modifyAt_cons_eq_ok.2 ⟨i, _, both, step_rebuilt hs written, second, ?_⟩,
          modifyAt_cons_eq_ok.2 ⟨i, _, both, step_rebuilt hs' written', first, ?_⟩⟩
        · exact (Ty.setChild?_setChild? written both).trans last
        · exact (Ty.setChild?_setChild? written' both).trans last
      · -- Two children are written, each in the presence of the other.
        have beside : (⟨n.type, x⟩ : Node).step r whole' s' = .ok (j, k) := by
          rw [step_beside hs written other, hs']
        have beside' : (⟨n.type, y⟩ : Node).step r whole s = .ok (i, m) := by
          rw [step_beside hs' written' (Ne.symm other), hs]
        obtain ⟨z, last⟩ := exists_setChild?_of_step beside u
        refine ⟨z, modifyAt_cons_eq_ok.2 ⟨j, k, u, beside, changed', last⟩,
          modifyAt_cons_eq_ok.2 ⟨i, m, w, beside', changed, ?_⟩⟩
        rw [← Ty.setChild?_comm written written' (index_ne hs hs' other)]
        exact last

end Node

namespace Tree

variable {r : Registry} {t : Tree} {p q : Path} {c : Change} {v : Value} {e : TreeError}

theorem perform_change_of_ok
    (h : t.rootNode.modifyAt r (fun n => c.apply r p n) p p = .ok v) :
    t.perform r (.change p c) = (.ok (), t.advance v) := by
  simp [perform, Mutation.apply, change, h]

theorem perform_change_of_error
    (h : t.rootNode.modifyAt r (fun n => c.apply r p n) p p = .error e) :
    t.perform r (.change p c) = (.error e, t) := by
  simp [perform, Mutation.apply, change, h]

/-- Two changes at paths of which neither extends the other: in either order, each has the result
that it has alone, and the tree is the same in the end. -/
theorem changes_commute (hpq : ¬ p <+: q) (hqp : ¬ q <+: p) (c d : Change) :
    let one := Mutation.change p c
    let other := Mutation.change q d
    ((t.perform r one).2.perform r other).1 = (t.perform r other).1 ∧
      ((t.perform r other).2.perform r one).1 = (t.perform r one).1 ∧
        ((t.perform r one).2.perform r other).2 = ((t.perform r other).2.perform r one).2 := by
  intro one other
  cases hc : t.rootNode.modifyAt r (fun n => c.apply r p n) p p with
  | error e =>
    have failed : t.perform r one = (.error e, t) := perform_change_of_error hc
    cases hd : t.rootNode.modifyAt r (fun n => d.apply r q n) q q with
    | error e' =>
      have failed' : t.perform r other = (.error e', t) := perform_change_of_error hd
      simp [failed, failed']
    | ok y =>
      have done' : t.perform r other = (.ok (), t.advance y) := perform_change_of_ok hd
      have again : (t.advance y).perform r one = (.error e, t.advance y) :=
        perform_change_of_error (Node.modifyAt_error_beside hd hc hqp hpq)
      simp [failed, done', again]
  | ok x =>
    have done : t.perform r one = (.ok (), t.advance x) := perform_change_of_ok hc
    cases hd : t.rootNode.modifyAt r (fun n => d.apply r q n) q q with
    | error e' =>
      have failed' : t.perform r other = (.error e', t) := perform_change_of_error hd
      have again : (t.advance x).perform r other = (.error e', t.advance x) :=
        perform_change_of_error (Node.modifyAt_error_beside hc hd hpq hqp)
      simp [done, failed', again]
    | ok y =>
      have done' : t.perform r other = (.ok (), t.advance y) := perform_change_of_ok hd
      obtain ⟨z, second, first⟩ := Node.modifyAt_comm hc hd hpq hqp
      have both : (t.advance x).perform r other = (.ok (), (t.advance x).advance z) :=
        perform_change_of_ok second
      have both' : (t.advance y).perform r one = (.ok (), (t.advance y).advance z) :=
        perform_change_of_ok first
      rw [done, done', both, both']
      exact ⟨rfl, rfl, rfl⟩

/-- A generic value with a pair of a truth value and a list of them inside: one is set, the other loses
its first item. -/
theorem changes_commute_nested :
    ∃ t, Reachable (.core 0) t ∧
      let one := Mutation.change [.index 0, .index 0] (.set (.bool true))
      let other := Mutation.change [.index 0, .index 1] (.edit (.array (.remove 0)))
      (t.perform (.core 0) one).1 = .ok () ∧
        ((t.perform (.core 0) one).2.perform (.core 0) other).2.root.value =
          .generic [.bool] (.tuple [.bool true, .array []]) ∧
        ((t.perform (.core 0) one).2.perform (.core 0) other).2 =
          ((t.perform (.core 0) other).2.perform (.core 0) one).2 := by
  have started : Started (.core 0) _ :=
    .ofValue (show (Registry.core 0).resolveBy .strict
        (.generic (.tuple [.var 0 0, .list (.var 0 0)]) 1) = .ok _ from rfl)
      (show Tree.ofValue _ 0 _
        (.generic [.bool] (.tuple [.bool false, .array [.bool true]])) = .ok _ from rfl)
  have reachable : Reachable (.core 0) _ := ⟨_, [], started, rfl⟩
  exact ⟨_, reachable, rfl, rfl, (changes_commute (by decide) (by decide) _ _).2.2⟩

end Tree

end TypedTree
