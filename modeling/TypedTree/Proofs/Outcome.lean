import TypedTree.Inquiry
import Mathlib.Data.List.Forall2

/-!
# Outcomes

Laws of computations that may fail, used to take a successful run apart: a sequence succeeds when
both of its parts do, and doing something for every member of a list succeeds when it does for each
of them.

## Main statements

* `Outcome.bind_eq_ok`: when a sequence succeeds.
* `Attempt.each_eq_ok`, `Attempt.exists_each`: when doing something for all members of a list does.
-/

namespace TypedTree

namespace Outcome

variable {ε α β : Type}

/-- A sequence succeeds when both of its parts do. -/
theorem bind_eq_ok {x : Except ε α} {f : α → Except ε β} {b : β} :
    (x >>= f) = .ok b ↔ ∃ a, x = .ok a ∧ f a = .ok b := by
  cases x <;> simp [bind, Except.bind]

/-- A step without a result goes before another. -/
@[simp] theorem seq_eq_ok {x : Except ε Unit} {f : Unit → Except ε β} {b : β} :
    (x >>= f) = .ok b ↔ x = .ok () ∧ f () = .ok b := by
  cases x <;> simp [bind, Except.bind]

@[simp] theorem ok_bind (a : α) (f : α → Except ε β) : (Except.ok a >>= f) = f a := rfl

@[simp] theorem error_bind (e : ε) (f : α → Except ε β) :
    (Except.error e >>= f) = .error e := rfl

@[simp] theorem map_eq_ok {x : Except ε α} {f : α → β} {b : β} :
    x.map f = .ok b ↔ ∃ a, x = .ok a ∧ f a = b := by
  cases x <;> simp [Except.map]

@[simp] theorem mapError_eq_ok {δ : Type} {x : Except ε α} {f : ε → δ} {a : α} :
    x.mapError f = .ok a ↔ x = .ok a := by
  cases x <;> simp [Except.mapError]

@[simp] theorem toOption_eq_some {x : Except ε α} {a : α} : x.toOption = some a ↔ x = .ok a := by
  cases x <;> simp [Except.toOption]

end Outcome

namespace Attempt

variable {α β : Type} {o : Oracle}

/-- What is made of the result of an attempt is there when the result is. -/
theorem bind_pure_eq_ok {x : Attempt α} {f : α → β} {b : β} :
    answer o (x >>= fun a => pure (f a)) = .ok b ↔ ∃ a, answer o x = .ok a ∧ f a = b := by
  simp [Outcome.bind_eq_ok]

/-- A list is worked off successfully when each of its members is. -/
theorem each_eq_ok {f : α → Attempt β} {as : List α} {bs : List β} :
    answer o (each f as) = .ok bs ↔ List.Forall₂ (fun a b => answer o (f a) = .ok b) as bs := by
  induction as generalizing bs with
  | nil => simp [each, eq_comm]
  | cons a as ih =>
    simp only [each, answer_bind, answer_pure, Outcome.bind_eq_ok, ih,
      List.forall₂_cons_left_iff, Except.ok.injEq]
    constructor
    · rintro ⟨b, hb, bs', hbs, rfl⟩
      exact ⟨b, bs', hb, hbs, rfl⟩
    · rintro ⟨b, bs', hb, hbs, rfl⟩
      exact ⟨b, hb, bs', hbs, rfl⟩

theorem exists_bind_pure {x : Attempt α} {f : α → β} :
    (∃ b, answer o (x >>= fun a => pure (f a)) = .ok b) ↔ ∃ a, answer o x = .ok a := by
  simp only [bind_pure_eq_ok]
  constructor
  · rintro ⟨_, a, ha, -⟩
    exact ⟨a, ha⟩
  · rintro ⟨a, ha⟩
    exact ⟨_, a, ha, rfl⟩

/-- Something can be done for all members of a list when it can for each of them. -/
theorem exists_each {f : α → Attempt β} {as : List α} :
    (∃ bs, answer o (each f as) = .ok bs) ↔ ∀ a ∈ as, ∃ b, answer o (f a) = .ok b := by
  simp only [each_eq_ok]
  induction as with
  | nil => simp
  | cons a as ih =>
    rw [List.forall_mem_cons, ← ih]
    simp only [List.forall₂_cons_left_iff]
    constructor
    · rintro ⟨_, b, bs, hb, hbs, rfl⟩
      exact ⟨⟨b, hb⟩, bs, hbs⟩
    · rintro ⟨⟨b, hb⟩, bs, hbs⟩
      exact ⟨b :: bs, b, bs, hb, hbs, rfl⟩

end Attempt

end TypedTree
