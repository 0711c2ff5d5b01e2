import TypedTree.Subtyping
import TypedTree.Subtyping.Judgments
import TypedTree.Ty.Equality

/-!
# Comparison with a memory

The same pair of parts is asked about many times in one comparison: records, variants and sums
look at their parts in both directions, and so do the parts themselves. Answering each question
anew takes time exponential in the depth of the types. A `Memory` says how a comparison looks up
what it has answered before and keeps what it answers. As long as it only holds what the rules
give, it changes nothing but the time.

## Main definitions

* `Memory`, `Memory.compare`: comparison with a memory.
* `Memory.Sound`: when a memory holds only what the rules give.
* `Memory.compareOnce`, `Registry.compareOnce`: comparison that answers each question once.
* `Registry.oracle`: the answers of a registry.

## Main statements

* `Memory.Sound.run_compare`: a sound memory leaves answers as they are and stays sound.
* `Memory.Sound.run_compareOnce`: so it does with a table beside it.
* `Registry.oracle_eq`: the answers of a registry are those of the rules.
-/

namespace TypedTree

/-- How a comparison with a state finds and keeps answers. -/
structure Memory (σ : Type) where
  /-- What a reference resolves to. -/
  resolve : TypeRef → StateM σ (Except TypeError Ty)
  /-- The answer for a pair, if it was kept. -/
  known? : Ty → Ty → σ → Option Inclusion
  /-- The state once the answer for a pair is known. -/
  keep : Ty → Ty → Inclusion → σ → σ

namespace Memory

variable {σ : Type}

/-- How two types relate, looked up first and kept afterwards. -/
def compare (m : Memory σ) (a b : Ty) : StateM σ Inclusion :=
  match a.shortcut? b with
  | some o => pure o
  | none => do
    match m.known? a b (← get) with
    | some o => pure o
    | none => do
      let bound := a.pairWeight b
      let o ← (a.judge b).run m.resolve fun x y =>
        if _h : x.pairWeight y < bound then m.compare x y else pure .unrelated
      modify (m.keep a b o)
      pure o
termination_by a.pairWeight b

/-- How two types relate, asked for a lighter pair. -/
def below (m : Memory σ) (bound : Nat) (a b : Ty) : StateM σ Inclusion :=
  if a.pairWeight b < bound then m.compare a b else pure .unrelated

/-- A comparison is settled at once, by the memory or by the rules. -/
theorem compare_eq (m : Memory σ) (a b : Ty) :
    m.compare a b =
      match a.shortcut? b with
      | some o => pure o
      | none => do
        match m.known? a b (← get) with
        | some o => pure o
        | none => do
          let o ← (a.judge b).run m.resolve (m.below (a.pairWeight b))
          modify (m.keep a b o)
          return o := by
  rw [compare]
  rfl

/-- Whether a memory resolves as a registry does and, while the state has a property, holds only
the answers of the registry. -/
structure Sound (m : Memory σ) (r : Registry) (P : σ → Prop) : Prop where
  resolve : ∀ ref s, P s →
    ((m.resolve ref).run s).1 = r.resolve ref ∧ P ((m.resolve ref).run s).2
  known : ∀ {a b s o}, P s → m.known? a b s = some o → o = r.compare a b
  keep : ∀ {a b s}, P s → P (m.keep a b (r.compare a b) s)

/-- A sound memory gives the answers of the registry and stays sound. -/
theorem Sound.run_compare {m : Memory σ} {r : Registry} {P : σ → Prop} (sound : m.Sound r P)
    (a b : Ty) (s : σ) (h : P s) :
    ((m.compare a b).run s).1 = r.compare a b ∧ P ((m.compare a b).run s).2 := by
  induction hn : a.pairWeight b using Nat.strongRecOn generalizing a b s with
  | ind n ih =>
    subst hn
    have asked (x y : Ty) (s : σ) (h : P s) :
        ((m.below (a.pairWeight b) x y).run s).1 = (r.below (a.pairWeight b)).compare x y ∧
          P ((m.below (a.pairWeight b) x y).run s).2 := by
      simp only [below, Registry.below]
      split
      · exact ih _ ‹_› x y s h rfl
      · exact ⟨rfl, h⟩
    have judged := Inquiry.run_eq_answer (r.below (a.pairWeight b)) sound.resolve asked
      (a.judge b) h
    have rules := r.compare_eq a b
    rw [compare_eq]
    cases hs : a.shortcut? b with
    | some o =>
      rw [rules, hs]
      exact ⟨rfl, h⟩
    | none =>
      rw [hs, Option.getD_none] at rules
      rw [← rules] at judged
      cases hr : m.known? a b s with
      | some o =>
        simp only [StateT.run_bind, StateT.run_get, pure_bind, hr]
        exact ⟨sound.known h hr, h⟩
      | none =>
        have kept : P (m.keep a b (r.compare a b) _) := sound.keep judged.2
        rw [← judged.1] at kept
        simp only [StateT.run_bind, StateT.run_get, pure_bind, hr]
        exact ⟨judged.1, kept⟩

/-- A memory that keeps nothing. -/
def forgetful (r : Registry) : Memory Unit where
  resolve ref := pure (r.resolve ref)
  known? _ _ _ := none
  keep _ _ _ s := s

theorem sound_forgetful (r : Registry) : (forgetful r).Sound r fun _ => True where
  resolve _ _ _ := ⟨rfl, trivial⟩
  known _ h := nomatch h
  keep _ := trivial

/-- A memory with a table beside it, in which it keeps answers too. Types without parts are
compared faster than looked up, so only others are kept there. -/
def withTable (m : Memory σ) : Memory (σ × Judgments Ty) where
  resolve ref s :=
    let (t, next) := (m.resolve ref).run s.1
    (t, next, s.2)
  known? a b s := (m.known? a b s.1).or (s.2.find? a b)
  keep a b o s :=
    (m.keep a b o s.1,
      if a.kind.isCompound && b.kind.isCompound then s.2.insert a b o else s.2)

/-- Whether a table holds only the answers of a registry. -/
def Correct (r : Registry) (t : Judgments Ty) : Prop :=
  ∀ a b o, t.find? a b = some o → o = r.compare a b

theorem correct_empty (r : Registry) : Correct r .empty := fun _ _ _ h => by simp at h

theorem Correct.insert {r : Registry} {t : Judgments Ty} (h : Correct r t) (a b : Ty) :
    Correct r (t.insert a b (r.compare a b)) := fun c d o hf => by
  rw [Judgments.find?_insert] at hf
  split at hf
  · rename_i e
    rw [e.1, e.2]
    exact (Option.some.inj hf).symm
  · exact h c d o hf

/-- A table beside a sound memory keeps it sound. -/
theorem Sound.withTable {m : Memory σ} {r : Registry} {P : σ → Prop} (sound : m.Sound r P) :
    m.withTable.Sound r fun s => P s.1 ∧ Correct r s.2 where
  resolve ref s h :=
    have resolved := sound.resolve ref s.1 h.1
    ⟨resolved.1, resolved.2, h.2⟩
  known {a b s o} h hr := by
    rcases Option.or_eq_some_iff.1 hr with hr | ⟨-, hr⟩
    · exact sound.known h.1 hr
    · exact h.2 a b o hr
  keep {a b s} h := by
    refine ⟨sound.keep h.1, ?_⟩
    simp only [Memory.withTable]
    split
    · exact h.2.insert a b
    · exact h.2

/-- How two types relate, where a table that is given up afterwards saves from asking the same
question twice. -/
def compareOnce (m : Memory σ) (a b : Ty) : StateM σ Inclusion := fun s =>
  let (o, next, _) := (m.withTable.compare a b).run (s, .empty)
  (o, next)

/-- Answering each question once gives the answers of the registry too. -/
theorem Sound.run_compareOnce {m : Memory σ} {r : Registry} {P : σ → Prop} (sound : m.Sound r P)
    (a b : Ty) (s : σ) (h : P s) :
    ((m.compareOnce a b).run s).1 = r.compare a b ∧ P ((m.compareOnce a b).run s).2 :=
  have compared := sound.withTable.run_compare a b (s, .empty) ⟨h, correct_empty r⟩
  ⟨compared.1, compared.2.1⟩

end Memory

namespace Registry

/-- How two types relate, each question answered once. -/
def compareOnce (r : Registry) (a b : Ty) : Inclusion :=
  (((Memory.forgetful r).compareOnce a b).run ()).1

theorem compareOnce_eq (r : Registry) (a b : Ty) : r.compareOnce a b = r.compare a b :=
  ((Memory.sound_forgetful r).run_compareOnce a b () trivial).1

/-- The answers of a registry. -/
def oracle (r : Registry) : Oracle :=
  ⟨r.resolve, r.compareOnce⟩

/-- How the answers are found does not matter. -/
theorem oracle_eq (r : Registry) : r.oracle = ⟨r.resolve, r.compare⟩ := by
  simp only [oracle, funext fun a => funext fun b => r.compareOnce_eq a b]

end Registry

end TypedTree
