import TypedTree.Proofs.Depths

/-!
# Shifting laws

Shifting moves a reference under more generics. Here it is seen from the instantiation that takes
the reference out again, from a second shift, and from the references that it leaves as they are.

The cutoff says how many of the generics around a variable move along with it. It rises in the body
of a generic and not in its bindings, so each law is shown at all cutoffs, and what the other
operation counts its levels from rises with them.

Two things stand in the way of the laws. A depth may leave 32 bits, which the first two exclude. And
a variable that is written anew loses its type arguments. Instantiation has to bring the reference
itself back, so the first law asks that there are none to lose. The second does not, because one
shift loses what two do, and nor does the third, because nothing is written anew.

## Main statements

* `TypeRef.substitute_shift_one_iff`: one level more, and one level less.
* `TypeRef.shift_shift`: two shifts are one by the sum.
* `TypeRef.shift_spec`: the laws together.
-/

namespace TypedTree

namespace TypeRef

variable {bs : List TypeRef} {r : TypeRef} {a b c c' level : Nat}

/-- A reference with room for one more level around it comes back when this level is instantiated,
whatever the bindings, just if the variables that were moved had no type arguments to lose. -/
theorem substitute_shift_one_iff (within : r.RaisesWithin 1 level) :
    substitute bs level (r.shift 1 level) = .ok r ↔ r.IsBare level := by
  have lowered : substitute bs level (raise 1 level r) = .ok (raise 0 level r) :=
    substitute_raise_succ bs within
  rw [shift_eq, if_neg Nat.one_ne_zero, lowered, Except.ok.injEq, raise_zero_iff]

/-- Two shifts are one by the sum, if the second cutoff is among the levels that the first shift
opens. -/
theorem shift_shift (low : c ≤ c') (high : c' ≤ c + a) (within : r.RaisesWithin (a + b) c) :
    (r.shift a c).shift b c' = r.shift (a + b) c := by
  by_cases first : a = 0
  · -- nothing is opened, so the cutoffs are the same
    obtain rfl : c = c' := by omega
    rw [shift_eq_self_iff.2 (.inl first), first, Nat.zero_add]
  by_cases second : b = 0
  · rw [shift_eq_self_iff.2 (.inl second), second, Nat.add_zero]
  · have sum : a + b ≠ 0 := by omega
    rw [shift_eq, shift_eq, shift_eq, if_neg first, if_neg second, if_neg sum]
    exact raise_raise low high within

/-- A reference that is shifted under one generic is what instantiating the generic gives back for
all bindings, just if its free variables carry no type arguments. Shifting twice at one cutoff is
shifting by the sum. In both depths have to stay within 32 bits. And shifting leaves a reference as
it is just if it has no free variable, or if it is shifted by nothing. -/
theorem shift_spec (t : TypeRef) (a b c : Nat) :
    (t.RaisesWithin 1 0 → ∀ bs, (t.shift 1 0).instantiate bs = .ok t ↔ t.IsBare 0) ∧
      (t.RaisesWithin (a + b) c → (t.shift a c).shift b c = t.shift (a + b) c) ∧
      (t.shift a 0 = t ↔ a = 0 ∨ ∀ i d, ¬ t.Free i d) := by
  refine ⟨fun within bs => ?_, fun within => ?_, ?_⟩
  · exact substitute_shift_one_iff within
  · exact shift_shift (Nat.le_refl c) (Nat.le_add_right c a) within
  · rw [shift_eq_self_iff, boundWithin_zero_iff]

/-- Beside a variable, a generic with a variable of its own, one that is bound further out, and an
open binding. The cutoff is passed by the variable that is bound further out, in the body, and by
the one in the binding. And a generic that is closed. -/
theorem shift_spec_nested :
    let t : TypeRef :=
      .tuple [.var 0 0, .genericBound (.map (.var 0 0) (.var 3 2)) 1 [.list (.var 1 4)]]
    let closed : TypeRef := .genericBound (.map (.var 0 0) .int) 1 [.list .bool]
    t.RaisesWithin 1 0 ∧ t.IsBare 0 ∧ (∀ bs, (t.shift 1 0).instantiate bs = .ok t) ∧
      t.RaisesWithin (2 + 3) 1 ∧ (t.shift 2 1).shift 3 1 = t.shift (2 + 3) 1 ∧
      t.shift (2 + 3) 1 =
        .tuple [.var 0 0, .genericBound (.map (.var 0 0) (.var 3 7)) 1 [.list (.var 1 9)]] ∧
      (∀ i d, ¬ closed.Free i d) ∧ closed.shift 7 0 = closed := by
  intro t closed
  have within : t.RaisesWithin 1 0 := by decide
  have bare : t.IsBare 0 := by decide
  have within' : t.RaisesWithin (2 + 3) 1 := by decide
  have none : ∀ i d, ¬ closed.Free i d := boundWithin_zero_iff.1 (by decide)
  obtain ⟨instantiated, shifted, -⟩ := shift_spec t 2 3 1
  obtain ⟨-, -, kept⟩ := shift_spec closed 7 0 0
  exact ⟨within, bare, fun bs => (instantiated within bs).2 bare, within', shifted within', rfl,
    none, kept.2 (.inr none)⟩

end TypeRef

end TypedTree
