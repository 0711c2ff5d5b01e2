import TypedTree.Proofs.Inhabitation
import TypedTree.Proofs.Transitivity

/-!
# Bound generics and their instances

A reference is *sealed* if it resolves, no variable in it is free, and every generic in it has
something bound to each of its variables. What a sealed type is made of is sealed again, and its
bound generics have instances. So nothing crumbles, the reverse law holds, and on either side of a
comparison a sealed generic can be replaced by its instance.

## Main definitions

* `Registry.Sealed`: which references are sealed.
* `Registry.compareBy`: how the types of two references compare, under a failure policy.

## Main statements

* `Registry.exists_instance_of_sealed`: sealed generics have sealed instances.
* `Registry.firm_of_scoped`: sealed types are firm.
* `Registry.compareBy_instance`: a sealed generic compares as its instance.
-/

namespace TypedTree

open Relation

namespace Registry

/-- Whether a reference resolves, has no free variables, and leaves no variable of a generic
unbound. -/
structure Sealed (r : Registry) (ref : TypeRef) : Prop where
  resolves : r.Resolves ref
  closed : ref.Scoped []

/-- How the types of two references compare, or what a failure policy makes of the first that does
not resolve. -/
def compareBy (r : Registry) (policy : FailurePolicy) (x y : TypeRef) :
    Except TypeError Inclusion := do
  let a ← r.resolveBy policy x
  let b ← r.resolveBy policy y
  .ok (r.compare a b)

variable {home : Nat} {a b s t : Ty}

theorem compareBy_of_resolve {r : Registry} {x y : TypeRef} (policy : FailurePolicy)
    (hx : r.resolve x = .ok a) (hy : r.resolve y = .ok b) :
    r.compareBy policy x y = .ok (r.compare a b) := by
  simp [compareBy, resolveBy, settle, hx, hy]

/-- Whether a reference is sealed can be read off its type and the generics in it. -/
theorem sealed_of_resolve {ref : TypeRef} (h : (core home).resolve ref = .ok t)
    (free : t.freeDepth = none) (bound : ref.isWellBound [] = true) : (core home).Sealed ref := by
  have within := (freeDepth_eq_none_iff (owns_of_resolve h)).1 free
  rw [ref_of_resolve h] at within
  exact ⟨⟨t, h⟩, bound, within⟩

/-! ## Sealed types -/

/-- A generic reference resolves to a generic. -/
theorem exists_generic_of_ref {types : List TypeRef} {values : List Value} (h : (core home).Owns t)
    (hr : t.ref = .constructed Core.generic types values) :
    ∃ body inner vars bindings, t.kind = .generic body inner vars bindings := by
  have named := (forms_of_owns h).name_generic.2 (by rw [hr]; rfl)
  obtain ⟨v, hk⟩ | generic | plain := t.var_or_generic_or_plain
  · simp [hk, Kind.name] at named
  · exact generic
  · rw [Ty.IsPlain] at plain
    cases hk : t.kind <;> simp_all [Kind.name]

/-- A sealed type has a sealed instance or is plain. -/
theorem unfolds_or_isPlain (h : (core home).Owns t) (closed : t.ref.Scoped []) :
    (∃ s, t.Unfolds (core home).oracle s ∧ s.ref.Scoped []) ∨ t.IsPlain := by
  obtain ⟨v, hk⟩ | ⟨body, inner, vars, bindings, hk⟩ | plain := t.var_or_generic_or_plain
  · rw [ref_of_var h hk] at closed
    obtain ⟨_, none, -⟩ := (TypeRef.scoped_var (TypeRef.var?_var v.index v.depth)).1 closed
    simp at none
  · obtain ⟨bound, -, s, own, closed'⟩ := exists_instance_of_scoped h hk closed
    exact .inl ⟨s, ⟨body, inner, vars, bindings, hk, bound, own⟩, closed'⟩
  · exact .inr plain

theorem scoped_of_unfolds (h : (core home).Owns t) (closed : t.ref.Scoped [])
    (hs : t.Unfolds (core home).oracle s) : s.ref.Scoped [] := by
  obtain ⟨s', hs', closed'⟩ | plain := unfolds_or_isPlain h closed
  · rwa [hs.unique hs']
  · exact absurd plain hs.isBound.not_isPlain

/-- What a sealed type is made of is sealed. -/
theorem scoped_of_reaches (h : (core home).Owns t) (closed : t.ref.Scoped [])
    (hs : t.Reaches (core home).oracle s) : (core home).Owns s ∧ s.ref.Scoped [] := by
  obtain ⟨unbound, part⟩ | unfolds := hs
  · obtain ⟨s', hs', -⟩ | plain := unfolds_or_isPlain h closed
    · exact absurd hs'.isBound unbound
    · exact ⟨(forms_of_owns h).owns_parts s part, (scoped_of_plain h plain).1 closed s part⟩
  · exact ⟨owns_of_unfolds unfolds, scoped_of_unfolds h closed unfolds⟩

/-- The instance of a sealed type is no variable and no generic without an instance. -/
theorem not_crumbles_of_scoped (h : (core home).Owns t) (closed : t.ref.Scoped []) :
    ¬ t.Crumbles (core home).oracle := by
  rintro ⟨s, hs, soft⟩
  obtain ⟨u, hu, -⟩ | plain :=
    unfolds_or_isPlain (owns_of_unfolds hs) (scoped_of_unfolds h closed hs)
  · exact soft.not_unfolds u hu
  · have solid : s.IsSolid := .inr plain
    exact solid.not_isSoft soft

theorem scoped_of_path (h : (core home).Owns t) (closed : t.ref.Scoped [])
    (path : ReflTransGen (Ty.Reaches (core home).oracle) t s) :
    (core home).Owns s ∧ s.ref.Scoped [] := by
  induction path with
  | refl => exact ⟨h, closed⟩
  | tail _ next ih => exact scoped_of_reaches ih.1 ih.2 next

theorem firm_of_scoped (h : (core home).Owns t) (closed : t.ref.Scoped []) :
    t.Firm (core home).oracle := by
  intro s path
  obtain ⟨own, closed⟩ := scoped_of_path h closed path
  exact not_crumbles_of_scoped own closed

theorem Sealed.firm {x : TypeRef} (h : (core home).Sealed x) (hx : (core home).resolve x = .ok a) :
    a.Firm (core home).oracle := by
  apply firm_of_scoped (owns_of_resolve hx)
  rw [ref_of_resolve hx]
  exact h.closed

/-! ## Instances in comparisons -/

/-- A sealed generic has a sealed instance, which its type unfolds to. -/
theorem exists_instance_of_sealed {body : TypeRef} {bindings : List TypeRef} {values : List Value}
    (hg : (core home).Sealed (.constructed Core.generic (body :: bindings) values))
    (ha : (core home).resolve (.constructed Core.generic (body :: bindings) values) = .ok a) :
    ∃ t s, body.instantiate bindings = .ok t ∧ (core home).Sealed t ∧
      (core home).resolve t = .ok s ∧ a.Unfolds (core home).oracle s := by
  have own := owns_of_resolve ha
  have ref := ref_of_resolve ha
  obtain ⟨body', inner, vars, bound, hk⟩ := exists_generic_of_ref own ref
  obtain ⟨isBound, -, s, ⟨t, expanded, ht⟩, closed⟩ :=
    exists_instance_of_scoped own hk (ref ▸ hg.closed)
  rw [ref_of_generic own hk] at ref
  obtain ⟨-, arguments, -⟩ := TypeRef.constructed.inj ref
  obtain ⟨rfl, rfl⟩ := List.cons.inj arguments
  obtain ⟨-, instantiated⟩ := TypeRef.expand_eq_ok.1 expanded
  exact ⟨t, s, instantiated, ⟨⟨s, ht⟩, ref_of_resolve ht ▸ closed⟩, ht,
    body', inner, vars, bound, hk, isBound, t, expanded, ht⟩

/-- A sealed generic has a sealed instance, and compares to sealed references as the instance does,
on either side. -/
theorem compareBy_instance {body x : TypeRef} {bindings : List TypeRef} {values : List Value}
    (hg : (core home).Sealed (.constructed Core.generic (body :: bindings) values))
    (hx : (core home).Sealed x) (policy : FailurePolicy) :
    let g := TypeRef.constructed Core.generic (body :: bindings) values
    ∃ t o, body.instantiate bindings = .ok t ∧ (core home).Sealed t ∧
      (core home).compareBy policy g x = .ok o ∧ (core home).compareBy policy t x = .ok o ∧
        (core home).compareBy policy x g = .ok o.reverse ∧
          (core home).compareBy policy x t = .ok o.reverse := by
  intro g
  obtain ⟨a, ha⟩ := hg.resolves
  obtain ⟨b, hb⟩ := hx.resolves
  obtain ⟨t, s, instantiated, ht, hs, unfolds⟩ := exists_instance_of_sealed hg ha
  have fa := hg.firm ha
  have fb := hx.firm hb
  have fs := ht.firm hs
  have own := owns_of_resolve ha
  have ownb := owns_of_resolve hb
  have owns := owns_of_resolve hs
  have same : (core home).compare a b = (core home).compare s b :=
    compare_of_unfolds own ownb fa unfolds
  refine ⟨t, (core home).compare a b, instantiated, ht, compareBy_of_resolve policy ha hb, ?_, ?_,
    ?_⟩
  · rw [compareBy_of_resolve policy hs hb, same]
  · rw [compareBy_of_resolve policy hb ha, compare_reverse ownb own fb.steady fa.steady]
  · rw [compareBy_of_resolve policy hb hs, compare_reverse ownb owns fb.steady fs.steady, same]

/-- A bound generic within the body of another, and its instance. -/
theorem compareBy_instance_nested :
    let inner : TypeRef := .genericBound (.list (.var 0 0)) 1 [.var 1 0]
    let g : TypeRef := .genericBound (.tuple [.var 0 0, inner]) 2 [.bool, .int]
    let x : TypeRef := .tuple [.bool, .genericBound (.list (.var 0 0)) 1 [.int]]
    (core 0).Sealed g ∧ (core 0).Sealed x ∧
      (core 0).compareBy .strict g x = .ok .equivalent ∧
        (core 0).compareBy .strict x g = .ok .equivalent := by
  intro inner g x
  have hg : (core 0).resolve g = .ok _ := rfl
  have hx : (core 0).resolve x = .ok _ := rfl
  have sg : (core 0).Sealed g := sealed_of_resolve hg rfl rfl
  have sx : (core 0).Sealed x := sealed_of_resolve hx rfl rfl
  obtain ⟨t, o, instantiated, -, left, same, right, -⟩ := compareBy_instance sg sx .strict
  obtain rfl : x = t := Except.ok.inj instantiated
  rw [compareBy_of_resolve .strict hx hx, compare_self (owns_of_resolve hx)] at same
  obtain rfl := Except.ok.inj same
  exact ⟨sg, sx, left, right⟩

end Registry

end TypedTree
