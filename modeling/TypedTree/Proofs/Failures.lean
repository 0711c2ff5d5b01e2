import TypedTree.Proofs.Memoization
import TypedTree.Proofs.Twins
import TypedTree.Ty.Flags

/-!
# Where failures go

What becomes of a reference that does not resolve is for the failure policy to say. Under one policy
it is an error. Under the other the reference has a stand-in, which is disjoint from all types and
even from itself. A stand-in goes no further than that. References with arguments that fail are
failures themselves, so no type that is built has a stand-in among its parts or among the instances
that it comes to, and types that are built are never disjoint.

Two type systems with the same types and different policies therefore agree on what resolves and on
how it compares. The same types are those of the same references: which system is asked does not
matter, and neither does what it was asked before.

## Main definitions

* `Ty.Involves`: the types that one is made of, their instances included.
* `TypeSystem.HoldsCore`: the type systems with the core namespace and nothing else.
* `TypeSystem.Fails`: whether a reference does not resolve.

## Main statements

* `Registry.hasFailure_of_owns`: no type that is built has a failure in it.
* `Registry.exists_resolveBy_substitute`: every reference has a type or a stand-in.
* `TypeSystem.Remembers.compareRefs`: how two references compare under a failure policy.
* `TypeSystem.failures_confined`: failures show as such and nowhere else.
-/

namespace TypedTree

open Relation

namespace Ty

theorem hasFailure_eq (t : Ty) : t.hasFailure = (t.isFailure || t.kind.parts.any hasFailure) := by
  rw [hasFailure, fold_eq, List.any_map]
  rfl

/-- Whether a type is another one or is made of it, by way of parts and of instances. -/
def Involves (o : Oracle) : Ty → Ty → Prop :=
  ReflTransGen fun t s => s ∈ t.kind.parts ∨ t.Unfolds o s

end Ty

namespace Registry

variable {r : Registry} {home home' : Nat} {a b s t : Ty} {x y ref : TypeRef}

/-! ## What is built -/

/-- What a type of the core registry involves is a type of the registry too. -/
theorem owns_of_involves (ht : (core home).Owns t) (path : t.Involves (core home).oracle s) :
    (core home).Owns s := by
  induction path with
  | refl => exact ht
  | tail _ next ih =>
    obtain part | unfolds := next
    · exact (forms_of_owns ih).owns_parts _ part
    · exact owns_of_unfolds unfolds

theorem hasFailure_of_owns (ht : (core home).Owns t) : t.hasFailure = false := by
  induction hn : t.ref.weight using Nat.strongRecOn generalizing t with
  | ind n ih =>
    subst hn
    have forms := forms_of_owns ht
    rw [Ty.hasFailure_eq, forms.isFailure, Bool.false_or, List.any_eq_false]
    intro p hp
    rw [ih _ (forms.weight_part_lt hp) (forms.owns_parts p hp) rfl]
    exact Bool.false_ne_true

theorem shortcut?_of_isFailure (h : a.isFailure = true ∨ b.isFailure = true) :
    a.shortcut? b = some .disjoint := by
  rw [Ty.shortcut?, if_pos (by simpa using h)]

/-- Stand-ins are disjoint from all types, themselves included. -/
theorem compare_of_isFailure (h : a.isFailure = true ∨ b.isFailure = true) :
    r.compare a b = .disjoint := by
  rw [compare_eq, shortcut?_of_isFailure h, Option.getD_some]

/-! ## Failure policies -/

theorem resolveBy_strict : r.resolveBy .strict ref = r.resolve ref := by
  rw [resolveBy]
  cases r.resolve ref <;> rfl

/-- Under substitution every reference has a type: its own, or a stand-in if there is none. -/
theorem exists_resolveBy_substitute (home : Nat) (ref : TypeRef) :
    ∃ t, (core home).resolveBy .substitute ref = .ok t ∧
      (t.isFailure = true ↔ ¬ (core home).Resolves ref) ∧
        ∀ t', (core home).resolve ref = .ok t' → t = t' := by
  cases resolved : (core home).resolve ref with
  | ok t =>
    refine ⟨t, by rw [resolveBy, resolved, settle], ?_, fun t' same => Except.ok.inj same⟩
    have proper := (forms_of_owns (owns_of_resolve resolved)).isFailure
    simp [proper, Resolves, resolved]
  | error e =>
    refine ⟨(core home).standIn ref e, by rw [resolveBy, resolved, settle], ?_, ?_⟩
    · simp [standIn, Ty.isFailure, Ty.failure?, Resolves, resolved]
    · intro t' built
      cases built

/-- Without substitution it is an error to compare what does not resolve. -/
theorem compareBy_strict_eq_error :
    (∃ e, r.compareBy .strict x y = .error e) ↔ ¬ r.Resolves x ∨ ¬ r.Resolves y := by
  rw [compareBy, resolveBy_strict, resolveBy_strict, Resolves, Resolves]
  cases r.resolve x with
  | error e => simp
  | ok a => cases r.resolve y <;> simp

/-- Under substitution just what does not resolve is disjoint. -/
theorem compareBy_substitute_eq_disjoint :
    (core home).compareBy .substitute x y = .ok .disjoint ↔
      ¬ (core home).Resolves x ∨ ¬ (core home).Resolves y := by
  obtain ⟨a, ha, left, strict⟩ := exists_resolveBy_substitute home x
  obtain ⟨b, hb, right, strict'⟩ := exists_resolveBy_substitute home y
  rw [compareBy, ha, hb, Outcome.ok_bind, Outcome.ok_bind, Except.ok.injEq, ← left, ← right]
  refine ⟨fun disjoint => ?_, compare_of_isFailure⟩
  by_contra! proper
  obtain ⟨a', ha'⟩ := not_not.1 (mt left.2 proper.1)
  obtain ⟨b', hb'⟩ := not_not.1 (mt right.2 proper.2)
  obtain rfl := strict a' ha'
  obtain rfl := strict' b' hb'
  exact compare_ne_disjoint (owns_of_resolve ha') (owns_of_resolve hb') disjoint

/-- What resolves compares alike in all type systems and under both policies. -/
theorem compareBy_elsewhere {policy policy' : FailurePolicy} (hx : (core home).Resolves x)
    (hy : (core home).Resolves y) :
    (core home').compareBy policy' x y = (core home).compareBy policy x y := by
  obtain ⟨a, ha⟩ := hx
  obtain ⟨b, hb⟩ := hy
  obtain ⟨a', ha'⟩ : (core home').Resolves x := Resolves.elsewhere ⟨a, ha⟩
  obtain ⟨b', hb'⟩ : (core home').Resolves y := Resolves.elsewhere ⟨b, hb⟩
  rw [compareBy_of_resolve policy ha hb, compareBy_of_resolve policy' ha' hb',
    ← compare_twins home' (owns_of_resolve ha) (owns_of_resolve hb),
    twin_of_resolve (ref_of_resolve ha ▸ ha'), twin_of_resolve (ref_of_resolve hb ▸ hb')]

end Registry

namespace TypeSystem

variable {s : TypeSystem} {r : Registry} {c : Config} {home : Nat} {x y ref : TypeRef}

/-- How two references compare is for the registry to say, whatever is remembered. -/
theorem Remembers.compareRefs (h : s.Remembers Ty.judgeLighter r c) (contained : r.Contained)
    (x y : TypeRef) : ((compareRefs x y).run s).1 = r.compareBy c.policy x y := by
  obtain ⟨s₁, hx, h₁⟩ := h.resolve contained Ty.asksNoMore_judgeLighter x
  obtain ⟨s₂, hy, h₂⟩ := h₁.resolve contained Ty.asksNoMore_judgeLighter y
  rw [run_compareRefs, hx, Registry.compareBy]
  cases left : r.resolveBy c.policy x with
  | error e => rfl
  | ok a =>
    dsimp only
    rw [hy, Outcome.ok_bind]
    cases right : r.resolveBy c.policy y with
    | error e => rfl
    | ok b =>
      have compares : Way.computed.Compares s₂ a b ((compare a b).run s₂).1
          ((compare a b).run s₂).2 := rfl
      obtain ⟨relates, -⟩ := compares.relates contained h₂ (Registry.handle_of_resolveBy left)
        (Registry.handle_of_resolveBy right)
      exact congrArg Except.ok (Registry.relates_judgeLighter_iff.1 relates)

/-- Whether a type system has the core namespace and nothing else. It may have been asked anything
before, since all questions come down to resolutions and comparisons, but nothing was added to its
registry. -/
def HoldsCore (s : TypeSystem) (home : Nat) (c : Config) : Prop :=
  ∃ requests, (Registry.core home).Admits requests ∧
    (Registry.core home).afterAll requests = .core home ∧
      ((ofRegistry c (.core home)).session requests).2 = s

/-- Whether a reference does not resolve. -/
def Fails (s : TypeSystem) (ref : TypeRef) : Prop :=
  ∃ e, ((lookup ref).run s).1 = .error e

theorem HoldsCore.remembers (h : s.HoldsCore home c) :
    s.Remembers Ty.judgeLighter (.core home) c := by
  obtain ⟨requests, admitted, unchanged, rfl⟩ := h
  have answers : (ofRegistry c (.core home)).AnswersAll .computed requests _ _ :=
    answersAll_computed_iff.2 rfl
  have last := answers.remembers Registry.contained_core admitted
    (remembers_ofRegistry Registry.contained_core)
  rw [unchanged] at last
  exact last

section HoldsCore

variable (h : s.HoldsCore home c)
include h

theorem HoldsCore.run_lookup (ref : TypeRef) :
    ((lookup ref).run s).1 = (Registry.core home).resolve ref := by
  have looked : Looked ref s ((lookup ref).run s) := looked h.remembers.coherent
  rw [looked.outcome, h.remembers.registry]

theorem HoldsCore.run_resolve (ref : TypeRef) :
    ((resolve ref).run s).1 = (Registry.core home).resolveBy c.policy ref := by
  obtain ⟨u, run, -⟩ :=
    h.remembers.resolve Registry.contained_core Ty.asksNoMore_judgeLighter ref
  rw [run]

theorem HoldsCore.run_compareRefs (x y : TypeRef) :
    ((compareRefs x y).run s).1 = (Registry.core home).compareBy c.policy x y :=
  h.remembers.compareRefs Registry.contained_core x y

theorem HoldsCore.fails_iff (ref : TypeRef) :
    s.Fails ref ↔ ¬ (Registry.core home).Resolves ref := by
  rw [Fails, h.run_lookup, Registry.Resolves]
  cases (Registry.core home).resolve ref <;> simp

/-- What resolves is free of failures, and so is all that it involves. -/
theorem HoldsCore.no_failure {t x : Ty} (run : ((lookup ref).run s).1 = .ok t)
    (path : t.Involves s.registry.oracle x) : x.isFailure = false ∧ x.flags.hasFailure = false := by
  rw [h.run_lookup] at run
  rw [h.remembers.registry] at path
  have own := Registry.owns_of_involves (Registry.owns_of_resolve run) path
  exact ⟨(Registry.forms_of_owns own).isFailure, Registry.hasFailure_of_owns own⟩

end HoldsCore

/-- Failures do not leak. Take two type systems with the core namespace, one that reports failures
and one that substitutes for them, whatever they were asked before, the latter at two moments. The
same references fail in both. Where failures are substituted, every reference has a type: a stand-in
just if it fails, and else the type that it resolves to strictly. No type that a reference resolves
to strictly involves a stand-in or has its flag. Two references are disjoint there just if one of
them fails, and these are the pairs that it is an error to compare where failures are reported. All
others compare alike in both. -/
theorem failures_confined {home home' : Nat} {memoize memoize' : Bool} {s u v : TypeSystem}
    (hs : s.HoldsCore home ⟨.strict, memoize⟩) (hu : u.HoldsCore home' ⟨.substitute, memoize'⟩)
    (hv : v.HoldsCore home' ⟨.substitute, memoize'⟩) :
    (∀ a, s.Fails a ↔ u.Fails a) ∧
      (∀ a, ∃ t, ((resolve a).run u).1 = .ok t ∧ (t.isFailure = true ↔ v.Fails a) ∧
        ∀ t', ((lookup a).run v).1 = .ok t' → t = t') ∧
      (∀ w, w = s ∨ w = u → ∀ a t, ((lookup a).run w).1 = .ok t →
        ∀ x, t.Involves w.registry.oracle x → x.isFailure = false ∧ x.flags.hasFailure = false) ∧
      ∀ a b,
        (((compareRefs a b).run u).1 = .ok .disjoint ↔ u.Fails a ∨ u.Fails b) ∧
          ((∃ e, ((compareRefs a b).run s).1 = .error e) ↔ s.Fails a ∨ s.Fails b) ∧
          (¬ (s.Fails a ∨ s.Fails b) →
            ((compareRefs a b).run u).1 = ((compareRefs a b).run s).1) := by
  refine ⟨?_, ?_, ?_, ?_⟩
  · intro a
    rw [hs.fails_iff, hu.fails_iff]
    exact not_congr ⟨Registry.Resolves.elsewhere, Registry.Resolves.elsewhere⟩
  · intro a
    rw [hu.run_resolve, hv.fails_iff, hv.run_lookup]
    exact Registry.exists_resolveBy_substitute home' a
  · rintro w (rfl | rfl) a t run x path
    · exact hs.no_failure run path
    · exact hu.no_failure run path
  · intro a b
    simp only [hs.run_compareRefs, hu.run_compareRefs, hs.fails_iff, hu.fails_iff]
    refine ⟨Registry.compareBy_substitute_eq_disjoint, Registry.compareBy_strict_eq_error, ?_⟩
    intro resolve
    rw [not_or, not_not, not_not] at resolve
    exact Registry.compareBy_elsewhere resolve.1 resolve.2

/-- Two type systems that were asked about a range without numbers. -/
theorem failures_confined_range :
    let range : TypeRef := .intRange 3 0
    let s := ((ofRegistry ⟨.strict, true⟩ (.core 0)).session [.compareRefs (.list range) .int]).2
    let u := ((ofRegistry ⟨.substitute, true⟩ (.core 1)).session
      [.step (.resolve range), .compareRefs range range]).2
    u.Fails range ∧ ¬ u.Fails .int ∧
      (∃ t, ((resolve range).run u).1 = .ok t ∧ t.isFailure = true) ∧
      ((compareRefs range range).run u).1 = .ok .disjoint ∧
      (∃ e, ((compareRefs range range).run s).1 = .error e) ∧
      ((compareRefs (.list .int) .int).run u).1 = ((compareRefs (.list .int) .int).run s).1 := by
  intro range s u
  have hs : s.HoldsCore 0 ⟨.strict, true⟩ :=
    ⟨[.compareRefs (.list range) .int], ⟨trivial, trivial⟩, rfl, rfl⟩
  have hu : u.HoldsCore 1 ⟨.substitute, true⟩ :=
    ⟨[.step (.resolve range), .compareRefs range range], ⟨trivial, trivial, trivial⟩, rfl, rfl⟩
  obtain ⟨same, types, -, compared⟩ := failures_confined hs hu hu
  have fails : u.Fails range := by
    obtain ⟨e, empty⟩ : ∃ e, (Registry.core 1).resolve range = .error e := ⟨_, rfl⟩
    exact ⟨e, (hu.run_lookup range).trans empty⟩
  have built : ¬ u.Fails .int := (hu.fails_iff .int).not_left.2 ⟨_, rfl⟩
  have listed : ¬ u.Fails (.list .int) := (hu.fails_iff (.list .int)).not_left.2 ⟨_, rfl⟩
  obtain ⟨t, resolved, standIn, -⟩ := types range
  obtain ⟨disjoint, error, -⟩ := compared range range
  obtain ⟨-, -, alike⟩ := compared (.list .int) .int
  refine ⟨fails, built, ⟨t, resolved, standIn.2 fails⟩, disjoint.2 (.inl fails),
    error.2 (.inl ((same range).2 fails)), alike ?_⟩
  rw [same, same, not_or]
  exact ⟨listed, built⟩

end TypeSystem

end TypedTree
