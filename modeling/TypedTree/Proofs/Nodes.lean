import TypedTree.Proofs.Defaults
import TypedTree.Tree

/-!
# Valid nodes

A node is *valid* if its type is owned by the registry and accepts its value. Steps and paths lead
from valid nodes to valid nodes. A change to a descendant is checked at the descendant only, and
that is enough: the nodes above stay valid, whatever the path leads through.

## Main definitions

* `Node.Valid`: whether a node is valid.

## Main statements

* `Node.Valid.descend`: paths lead to valid nodes.
* `Node.Valid.modifyAt`: a changed node is valid.
-/

namespace TypedTree

namespace Node

variable {r : Registry} {n m : Node} {p whole : Path} {s : Step} {i : Nat} {v w : Value}
  {f : Node → Except TreeError Value}

/-! ## When operations succeed -/

theorem behind?_eq_some {c : Child} :
    n.behind? s = some (i, c) ↔ n.type.childIndex? n.value s = some i ∧
      n.type.child? n.value i = some c := by
  simp only [behind?, child?, Option.bind_eq_bind, Option.bind_eq_some_iff, Option.some.injEq,
    Prod.mk.injEq]
  constructor
  · rintro ⟨_, hi, _, hc, rfl, rfl⟩
    exact ⟨hi, hc⟩
  · rintro ⟨hi, hc⟩
    exact ⟨i, hi, c, hc, rfl, rfl⟩

theorem enter_eq_ok {c : Child} :
    enter r c = .ok m ↔ r.resolve c.ref = .ok m.type ∧ c.value = m.value := by
  obtain ⟨type, value⟩ := m
  rw [enter]
  cases r.resolve c.ref <;> simp

/-- A step succeeds when there is a child behind it whose reference resolves. -/
theorem step_eq_ok :
    n.step r whole s = .ok (i, m) ↔
      ∃ c, n.behind? s = some (i, c) ∧ r.resolve c.ref = .ok m.type ∧ c.value = m.value := by
  rw [step]
  cases n.behind? s with
  | none => simp
  | some ic =>
    obtain ⟨j, c⟩ := ic
    simp only [Outcome.bind_eq_ok, enter_eq_ok, Except.ok.injEq, Option.some.injEq,
      Prod.mk.injEq]
    constructor
    · rintro ⟨_, found, rfl, rfl⟩
      exact ⟨c, ⟨rfl, rfl⟩, found⟩
    · rintro ⟨_, ⟨rfl, rfl⟩, found⟩
      exact ⟨m, found, rfl, rfl⟩

theorem descend_cons_eq_ok {k : Node} :
    n.descend r whole (s :: p) = .ok k ↔
      ∃ i m, n.step r whole s = .ok (i, m) ∧ m.descend r whole p = .ok k := by
  simp [descend, Outcome.bind_eq_ok]

theorem admits_eq_ok : n.admits r v = .ok () ↔ n.type.Accepts r.oracle v := by
  simp [admits, Ty.Accepts]

theorem withChild_eq_ok : n.withChild i w = .ok v ↔ n.type.setChild? n.value i w = some v := by
  rw [withChild, Ty.withChild]
  cases n.type.setChild? n.value i w <;> simp

theorem modifyAt_nil_eq_ok :
    n.modifyAt r f whole [] = .ok v ↔ f n = .ok v ∧ n.type.Accepts r.oracle v := by
  rw [modifyAt, Outcome.bind_eq_ok]
  simp only [Outcome.seq_eq_ok, admits_eq_ok, Except.ok.injEq]
  constructor
  · rintro ⟨_, made, accepted, rfl⟩
    exact ⟨made, accepted⟩
  · rintro ⟨made, accepted⟩
    exact ⟨v, made, accepted, rfl⟩

theorem modifyAt_cons_eq_ok :
    n.modifyAt r f whole (s :: p) = .ok v ↔
      ∃ i m w, n.step r whole s = .ok (i, m) ∧ m.modifyAt r f whole p = .ok w ∧
        n.type.setChild? n.value i w = some v := by
  simp [modifyAt, Outcome.bind_eq_ok, withChild_eq_ok]

/-! ## Validity -/

/-- Whether the type of a node is owned and accepts the value. -/
structure Valid (r : Registry) (n : Node) : Prop where
  owned : r.Owns n.type
  accepted : n.type.Accepts r.oracle n.value

variable {home : Nat}

theorem Valid.step (h : n.Valid (.core home)) (hs : n.step (.core home) whole s = .ok (i, m)) :
    m.Valid (.core home) := by
  obtain ⟨c, behind, resolve, value⟩ := step_eq_ok.1 hs
  refine ⟨Registry.owns_of_resolve resolve, ?_⟩
  rw [← value]
  exact (Registry.forms_of_owns h.owned).accepts_child h.accepted (behind?_eq_some.1 behind).2
    resolve

/-- Paths lead from valid nodes to valid nodes. -/
theorem Valid.descend (h : n.Valid (.core home)) (hd : n.descend (.core home) whole p = .ok m) :
    m.Valid (.core home) := by
  induction p generalizing n with
  | nil => exact Except.ok.inj hd ▸ h
  | cons s p ih =>
    obtain ⟨i, k, hs, hd⟩ := descend_cons_eq_ok.1 hd
    exact ih (h.step hs) hd

/-- A valid node stays valid when a descendant is changed. -/
theorem Valid.modifyAt (h : n.Valid (.core home))
    (hm : n.modifyAt (.core home) f whole p = .ok v) :
    n.type.Accepts (Registry.core home).oracle v := by
  induction p generalizing n v with
  | nil => exact (modifyAt_nil_eq_ok.1 hm).2
  | cons s p ih =>
    obtain ⟨i, m, w, hs, changed, written⟩ := modifyAt_cons_eq_ok.1 hm
    have child := ih (h.step hs) changed
    obtain ⟨c, behind, resolve, -⟩ := step_eq_ok.1 hs
    exact (Registry.forms_of_owns h.owned).accepts_setChild? h.accepted
      (behind?_eq_some.1 behind).2 resolve child written

end Node

end TypedTree
