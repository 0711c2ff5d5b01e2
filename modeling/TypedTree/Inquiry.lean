import TypedTree.Registry

/-!
# Inquiries

Making, checking and comparing values and types needs two things of a type system: what a
reference resolves to, and how two types relate. An `Inquiry` is a computation that asks for
these and goes on with what it is told, without knowing who answers. The same inquiry can so be
answered straight from a registry or by a type system that remembers what it has answered before.

An `Attempt` is an inquiry that may fail.

## Main definitions

* `Inquiry`, `Attempt`: the computations.
* `Oracle`, `Inquiry.answer`: the result, when every question has one fixed answer.
* `Inquiry.run`: the result, when answering has effects.
* `Inquiry.run_eq_answer`: the two agree if the effects leave the answers alone.
-/

namespace TypedTree

/-- A computation that asks about references and types. -/
inductive Inquiry (α : Type) where
  | done (result : α)
  /-- Ask what a reference resolves to. -/
  | resolve (ref : TypeRef) (next : Except TypeError Ty → Inquiry α)
  /-- Ask how two types relate. -/
  | compare (a b : Ty) (next : Inclusion → Inquiry α)

/-- An inquiry that may fail. -/
abbrev Attempt (α : Type) := ExceptT TypeError Inquiry α

/-- Fixed answers to all questions. -/
structure Oracle where
  resolve : TypeRef → Except TypeError Ty
  compare : Ty → Ty → Inclusion

namespace Inquiry

variable {α β : Type}

/-- Go on with the result of an inquiry. -/
def bind : Inquiry α → (α → Inquiry β) → Inquiry β
  | .done a, f => f a
  | .resolve ref next, f => .resolve ref fun t => (next t).bind f
  | .compare a b next, f => .compare a b fun o => (next o).bind f

instance : Monad Inquiry where
  pure := .done
  bind := bind

/-- The result under fixed answers. -/
def answer (o : Oracle) : Inquiry α → α
  | .done a => a
  | .resolve ref next => (next (o.resolve ref)).answer o
  | .compare a b next => (next (o.compare a b)).answer o

/-- The result when questions are answered in a monad. -/
def run {m : Type → Type} [Monad m] (resolve : TypeRef → m (Except TypeError Ty))
    (compare : Ty → Ty → m Inclusion) : Inquiry α → m α
  | .done a => pure a
  | .resolve ref next => do (next (← resolve ref)).run resolve compare
  | .compare a b next => do (next (← compare a b)).run resolve compare

/-- Ask how two types relate. -/
def relate (a b : Ty) : Inquiry Inclusion :=
  .compare a b .done

/-- Whether all members of a list pass a test, which stops at the first that does not. -/
def all (p : α → Inquiry Bool) : List α → Inquiry Bool
  | [] => .done true
  | a :: rest => do if ← p a then all p rest else .done false

/-- Whether any member of a list passes a test, which stops at the first that does. -/
def any (p : α → Inquiry Bool) : List α → Inquiry Bool
  | [] => .done false
  | a :: rest => do if ← p a then .done true else any p rest

variable (o : Oracle)

@[simp] theorem answer_pure (a : α) : (pure a : Inquiry α).answer o = a := rfl

@[simp] theorem answer_done (a : α) : (done a).answer o = a := rfl

@[simp] theorem answer_bind (x : Inquiry α) (f : α → Inquiry β) :
    (x >>= f).answer o = (f (x.answer o)).answer o := by
  induction x with
  | done a => rfl
  | resolve ref next ih => exact ih _
  | compare a b next ih => exact ih _

@[simp] theorem answer_map (f : α → β) (x : Inquiry α) : (f <$> x).answer o = f (x.answer o) :=
  answer_bind o x _

@[simp] theorem answer_relate (a b : Ty) : (relate a b).answer o = o.compare a b := rfl

@[simp] theorem answer_ite (c : Prop) [Decidable c] (x y : Inquiry α) :
    (if c then x else y).answer o = if c then x.answer o else y.answer o := by
  split <;> rfl

@[simp] theorem answer_all (p : α → Inquiry Bool) (l : List α) :
    (all p l).answer o = l.all fun a => (p a).answer o := by
  induction l with
  | nil => rfl
  | cons a l ih => simp [all, ih]

@[simp] theorem answer_any (p : α → Inquiry Bool) (l : List α) :
    (any p l).answer o = l.any fun a => (p a).answer o := by
  induction l with
  | nil => rfl
  | cons a l ih => simp [any, ih]

/-- If a monad with a state answers all questions as fixed answers do and keeps an invariant of
its state, then so does every inquiry. -/
theorem run_eq_answer {σ : Type} {P : σ → Prop}
    {resolve : TypeRef → StateM σ (Except TypeError Ty)} {compare : Ty → Ty → StateM σ Inclusion}
    (hr : ∀ ref s, P s → ((resolve ref).run s).1 = o.resolve ref ∧ P ((resolve ref).run s).2)
    (hc : ∀ a b s, P s → ((compare a b).run s).1 = o.compare a b ∧ P ((compare a b).run s).2)
    (x : Inquiry α) {s : σ} (h : P s) :
    ((x.run resolve compare).run s).1 = x.answer o ∧ P ((x.run resolve compare).run s).2 := by
  induction x generalizing s with
  | done a => exact ⟨rfl, h⟩
  | resolve ref next ih =>
    obtain ⟨e, h'⟩ := hr ref s h
    simp only [run, answer, StateT.run_bind, ← e]
    exact ih _ h'
  | compare a b next ih =>
    obtain ⟨e, h'⟩ := hc a b s h
    simp only [run, answer, StateT.run_bind, ← e]
    exact ih _ h'

end Inquiry

namespace Attempt

variable {α β : Type}

/-- The result under fixed answers. -/
def answer (o : Oracle) (x : Attempt α) : Except TypeError α :=
  Inquiry.answer o (ExceptT.run x)

/-- Ask what a reference resolves to, and fail if it does not. -/
def resolve (ref : TypeRef) : Attempt Ty :=
  ExceptT.mk (.resolve ref .done)

/-- Ask how two types relate. -/
def relate (a b : Ty) : Attempt Inclusion :=
  ExceptT.lift (.relate a b)

/-- Go on with what is known already. -/
def ofExcept : Except TypeError α → Attempt α
  | .ok a => pure a
  | .error e => throw e

/-- Refuse a value of the named type, or a change to it. -/
def invalid (type reason : String) : Attempt α :=
  throw (.invalidValue type reason)

/-- Do the same for every member of a list, in order. -/
def each (f : α → Attempt β) : List α → Attempt (List β)
  | [] => pure []
  | a :: rest => do
    let b ← f a
    let bs ← each f rest
    pure (b :: bs)

variable (o : Oracle)

@[simp] theorem answer_pure (a : α) : answer o (pure a) = .ok a := rfl

@[simp] theorem answer_throw (e : TypeError) : answer o (throw e : Attempt α) = .error e := rfl

@[simp] theorem answer_bind (x : Attempt α) (f : α → Attempt β) :
    answer o (x >>= f) = (answer o x) >>= fun a => answer o (f a) := by
  unfold answer
  rw [show ExceptT.run (x >>= f) = (ExceptT.run x >>= ExceptT.bindCont f) from rfl,
    Inquiry.answer_bind]
  cases Inquiry.answer o (ExceptT.run x) <;> rfl

@[simp] theorem answer_resolve (ref : TypeRef) : answer o (resolve ref) = o.resolve ref := rfl

@[simp] theorem answer_relate (a b : Ty) : answer o (relate a b) = .ok (o.compare a b) := rfl

@[simp] theorem answer_ofExcept (x : Except TypeError α) : answer o (ofExcept x) = x := by
  cases x <;> rfl

@[simp] theorem answer_invalid (type reason : String) :
    answer o (invalid type reason : Attempt α) = .error (.invalidValue type reason) := rfl

@[simp] theorem answer_ite (c : Prop) [Decidable c] (x y : Attempt α) :
    answer o (if c then x else y) = if c then answer o x else answer o y := by
  split <;> rfl

end Attempt

end TypedTree
