import TypedTree.Proofs.Inhabitation
import TypedTree.Ty.Flags

/-!
# The flag for having a value

The flag is computed from the flags of all parts, and a bound generic has it whatever its instance
is. The default of a type is made of some of its parts, and of the default of that instance. So the
two go apart in both ways. A bound generic may be flagged and have no default, since an index in its
body is out of reach or its body leads to a generic with nothing bound. And a type without the flag
may have a default that makes no use of the part that the flag is missing for, such as an optional
field.

Both sides are a matter of what can be reached: by the parts that the flag looks at, no generic with
nothing bound; by the types that the default is made of, nothing barren.

## Main definitions

* `Ty.Shows`: the parts whose flags the flag of a type depends on.

## Main statements

* `Registry.isInhabited_iff`: when a type is flagged.
* `Registry.inhabited_flag_iff`: how the flag and the default compare.
* `Registry.inhabited_flag_inexact`: where they differ.
-/

namespace TypedTree

open Relation

namespace Ty

variable {s t : Ty}

/-- Whether the flag of a type depends on that of another. -/
def Shows (t s : Ty) : Prop :=
  t.IsPlain ∧ s ∈ t.kind.parts

/-- Whether nothing is free in a type and, going on by the parts of types that are no generics, no
generic with nothing bound and no stand-in is met. -/
def IsSettled (t : Ty) : Prop :=
  t.freeDepth = none ∧ ∀ s, ReflTransGen Shows t s → ¬ s.IsOpen ∧ s.isFailure = false

theorem isInhabited_eq (t : Ty) : t.isInhabited = (t.freeDepth.isNone &&
    match t.kind with
    | .generic _ _ vars bindings => isBound vars bindings
    | .var _ | .failure _ => false
    | kind => kind.parts.all isInhabited) := by
  rw [isInhabited, fold_eq]
  congr 1
  cases t.kind <;> simp only [List.all_map, Function.comp_def, id_eq]

/-- A type is flagged if nothing is free in it, it is no generic with nothing bound, and the parts
that it shows are flagged. -/
theorem isInhabited_step (proper : t.isFailure = false) :
    t.isInhabited = true ↔
      t.freeDepth = none ∧ ¬ t.IsOpen ∧ ∀ s, t.Shows s → s.isInhabited = true := by
  rw [isInhabited_eq, Bool.and_eq_true, Option.isNone_iff_eq_none]
  refine and_congr_right fun closed => ?_
  obtain ⟨v, hk⟩ | ⟨body, inner, vars, bindings, hk⟩ | plain := t.var_or_generic_or_plain
  · rw [freeDepth_var hk] at closed
    cases closed
  · have hidden (s : Ty) : ¬ t.Shows s := fun shown => by simp [Shows, IsPlain, hk] at shown
    have opened : t.IsOpen ↔ isBound vars bindings = false := by
      constructor
      · rintro ⟨_, _, _, _, hk', none⟩
        obtain ⟨rfl, rfl, rfl, rfl⟩ := Kind.generic.inj (hk.symm.trans hk')
        exact none
      · exact fun none => ⟨body, inner, vars, bindings, hk, none⟩
    simp [hk, opened, hidden]
  · have settled : ¬ t.IsOpen := fun opened => opened.not_isPlain plain
    simp only [settled, not_false_eq_true, true_and, Shows, plain]
    rw [← List.all_eq_true]
    rw [IsPlain] at plain
    cases hk : t.kind <;> simp_all [isFailure, failure?]

end Ty

namespace Registry

variable {home : Nat} {s t : Ty} {policy : FailurePolicy} {ref : TypeRef}

/-- Nothing is free in the parts of a type in which nothing is free. -/
theorem freeDepth_of_shows (h : (core home).Owns t) (shown : t.Shows s)
    (closed : t.freeDepth = none) : s.freeDepth = none := by
  obtain ⟨plain, part⟩ := shown
  rw [freeDepth_eq_none_iff h, TypeRef.BoundWithin, eachVar_of_plain h plain] at closed
  exact (freeDepth_eq_none_iff ((forms_of_owns h).owns_parts s part)).2 (closed s part)

/-- A type is flagged if it is settled. -/
theorem isInhabited_iff (h : (core home).Owns t) : t.isInhabited = true ↔ t.IsSettled := by
  induction hn : t.ref.weight using Nat.strongRecOn generalizing t with
  | ind n ih =>
    subst hn
    have forms := forms_of_owns h
    have part (s : Ty) (shown : t.Shows s) : s.isInhabited = true ↔ s.IsSettled :=
      ih _ (forms.weight_part_lt shown.2) (forms.owns_parts s shown.2) rfl
    rw [Ty.isInhabited_step forms.isFailure]
    refine and_congr_right fun closed => ?_
    constructor
    · rintro ⟨bound, flagged⟩ s path
      obtain rfl | ⟨x, first, rest⟩ := path.cases_head
      · exact ⟨bound, forms.isFailure⟩
      · exact ((part x first).1 (flagged x first)).2 s rest
    · intro settled
      refine ⟨(settled t .refl).1, fun x first => (part x first).2 ⟨?_, fun s rest => ?_⟩⟩
      · exact freeDepth_of_shows h first closed
      · exact settled s (.head first rest)

/-- Closed types are flagged. -/
theorem isInhabited_of_scoped (h : (core home).Owns t) (closed : t.ref.Scoped []) :
    t.isInhabited = true := by
  refine (isInhabited_iff h).2 ⟨(freeDepth_eq_none_iff h).2 closed.boundWithin, fun s path => ?_⟩
  have kept : (core home).Owns s ∧ s.ref.Scoped [] := by
    induction path with
    | refl => exact ⟨h, closed⟩
    | tail _ next ih =>
      exact ⟨(forms_of_owns ih.1).owns_parts _ next.2,
        (scoped_of_plain ih.1 next.1).1 ih.2 _ next.2⟩
  refine ⟨?_, (forms_of_owns kept.1).isFailure⟩
  rintro ⟨body, inner, vars, bindings, hk, none⟩
  obtain ⟨bound, -⟩ := exists_instance_of_scoped kept.1 hk kept.2
  rw [none] at bound
  cases bound

/-- A stand-in is not settled. -/
theorem not_isSettled_of_failure {e : TypeError} (failure : t.kind = .failure e) :
    ¬ t.IsSettled := by
  intro settled
  have proper := (settled.2 t .refl).2
  simp [Ty.isFailure, Ty.failure?, failure] at proper

/-- A stand-in is barren. -/
theorem not_isFertile_of_failure {o : Oracle} {e : TypeError} (failure : t.kind = .failure e) :
    ¬ t.IsFertile o := by
  intro fertile
  refine fertile t .refl ?_
  rw [Ty.IsBarren, failure]
  trivial

/-- A type is flagged just if it is settled, and has a default just if it is fertile. So the flag
says whether the type has a default just if it is both or neither. It is both if it is closed, its
generics carry their bindings, and the index of each variable is below the number of variables of
the generic that binds it. -/
theorem inhabited_flag_iff (h : (core home).resolveBy policy ref = .ok t) :
    (t.flags.isInhabited = true ↔ t.IsSettled) ∧
      ((∃ v, t.default.answer (core home).oracle = .ok v) ↔ t.IsFertile (core home).oracle) ∧
      ((t.flags.isInhabited = true ↔ ∃ v, t.default.answer (core home).oracle = .ok v) ↔
        (t.IsSettled ↔ t.IsFertile (core home).oracle)) ∧
      ((core home).resolve ref = .ok t → t.freeDepth = none → ref.isWellBound [] = true →
        t.IsSettled ∧ t.IsFertile (core home).oracle) := by
  have flagged : t.flags.isInhabited = true ↔ t.IsSettled := by
    obtain own | ⟨e, failure⟩ := owns_or_isFailure h
    · exact isInhabited_iff own
    · refine iff_of_false ?_ (not_isSettled_of_failure failure)
      simp [Ty.flags, Ty.isInhabited_eq, failure]
  have made : (∃ v, t.default.answer (core home).oracle = .ok v) ↔
      t.IsFertile (core home).oracle := by
    obtain own | ⟨e, failure⟩ := owns_or_isFailure h
    · exact exists_default_iff own
    · refine iff_of_false ?_ (not_isFertile_of_failure failure)
      rw [Ty.default]
      simp [failure]
  refine ⟨flagged, made, by rw [flagged, made], fun resolved closed bound => ?_⟩
  have own := owns_of_resolve resolved
  have within : t.ref.Scoped [] :=
    ⟨(ref_of_resolve resolved).symm ▸ bound, (freeDepth_eq_none_iff own).1 closed⟩
  exact ⟨(isInhabited_iff own).1 (isInhabited_of_scoped own within),
    (exists_default_iff own).1 (exists_default own within)⟩

/-- A bound generic within the body of another, with variables of both. -/
theorem inhabited_flag_iff_nested :
    let ref : TypeRef := .genericBound
      (.tuple [.var 0 0, .genericBound (.map (.var 0 0) (.var 1 1)) 1 [.list (.var 0 0)]]) 2
      [.bool, .int]
    ∃ t, (core 0).resolveBy .substitute ref = .ok t ∧ (core 0).resolve ref = .ok t ∧
      t.flags.isInhabited = true ∧ ∃ v, t.default.answer (core 0).oracle = .ok v := by
  intro ref
  have resolved : (core 0).resolveBy .substitute ref = .ok _ := rfl
  obtain ⟨flagged, made, -, closed⟩ := inhabited_flag_iff resolved
  obtain ⟨isSettled, isFertile⟩ := closed rfl rfl rfl
  exact ⟨_, resolved, rfl, flagged.2 isSettled, made.2 isFertile⟩

/-- A generic with an index out of reach in its body is flagged and has no default. A record with an
optional field for a generic with nothing bound has a default and is not flagged. -/
theorem inhabited_flag_inexact :
    (∃ t, (core 0).resolve (.genericBound (.var 1 0) 1 [.bool]) = .ok t ∧
      t.flags.isInhabited = true ∧ ¬ ∃ v, t.default.answer (core 0).oracle = .ok v) ∧
    ∃ t, (core 0).resolve (.record [⟨⟨"x"⟩, .generic (.var 0 0) 1, true⟩]) = .ok t ∧
      t.flags.isInhabited = false ∧ ∃ v, t.default.answer (core 0).oracle = .ok v := by
  have unreachable : (core 0).resolve (.genericBound (.var 1 0) 1 [.bool]) = .ok _ := rfl
  have optional : (core 0).resolve (.record [⟨⟨"x"⟩, .generic (.var 0 0) 1, true⟩]) = .ok _ := rfl
  refine ⟨⟨_, unreachable, rfl, ?_⟩, _, optional, rfl, ?_⟩
  · rw [Ty.default]
    rintro ⟨v, hv⟩
    cases hv
  · rw [Ty.default]
    exact ⟨_, rfl⟩

end Registry

end TypedTree
