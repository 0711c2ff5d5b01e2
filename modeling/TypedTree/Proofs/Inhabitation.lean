import TypedTree.Proofs.Demands
import TypedTree.Proofs.Instances

/-!
# Closed types have defaults

A type has a default if its reference is closed, its generics carry their bindings and its variables
are among those that are bound. Such a type is not barren, and the types that its default is made of
are as closed: parts are part of the reference, and the instance of a bound generic is closed and
well bound again.

## Main statements

* `Registry.not_isBarren_of_scoped`, `Registry.scoped_of_demands`: what closed types demand.
* `Registry.exists_default`: closed types have defaults.
* `Registry.default_spec`: and all defaults are accepted.
-/

namespace TypedTree

theorem Ty.isBound_of_length {vars : UInt32} {bindings : List (TypeRef × Ty)}
    (count : (bindings.map (·.1)).length = vars.toNat) : isBound vars bindings = true := by
  cases bindings with
  | nil =>
    have none : vars = 0 := UInt32.toNat_inj.1 count.symm
    simp [isBound, none]
  | cons b bindings => simp [isBound]

namespace Registry

variable {home : Nat} {s t : Ty}

/-- A closed generic has everything bound, to closed types, and an instance that is closed. -/
theorem exists_instance_of_scoped {body : TypeRef} {inner : Ty} {vars : UInt32}
    {bindings : List (TypeRef × Ty)} (h : (core home).Owns t)
    (hk : t.kind = .generic body inner vars bindings) (closed : t.ref.Scoped []) :
    Ty.isBound vars bindings = true ∧
      (∀ ref ∈ bindings.map (·.1), ref.Closed (core home).oracle) ∧
        ∃ s, body.HasInstance (core home).oracle vars (bindings.map (·.1)) s ∧
          s.ref.Scoped [] := by
  have forms := forms_of_owns h
  have formed : Kind.Formed (.generic body inner vars bindings) := hk ▸ forms.kind
  have owns := forms.owns_parts
  rw [hk, Kind.parts, List.forall_mem_cons, List.forall_mem_map] at owns
  rw [ref_of_generic h hk, TypeRef.genericBound, TypeRef.scoped_generic,
    TypeRef.varCount_count] at closed
  obtain ⟨count, within, outer⟩ := closed
  have resolves : ∀ ref ∈ bindings.map (·.1), (core home).Resolves ref := by
    rw [List.forall_mem_map]
    exact fun b hb => ⟨b.2, formed.binding_ref b hb ▸ owns.2 b hb⟩
  refine ⟨Ty.isBound_of_length count, ?_,
    exists_instance count outer resolves within ⟨inner, formed.inner_ref ▸ owns.1⟩⟩
  intro ref hr
  obtain ⟨x, hx⟩ := resolves ref hr
  have none := (outer ref hr).boundWithin
  rw [← ref_of_resolve hx] at none
  exact ⟨x, hx, (freeDepth_eq_none_iff (owns_of_resolve hx)).2 none⟩

/-- A variable is not closed. -/
theorem not_scoped_of_isVar (h : (core home).Owns t) (var : t.IsVar) : ¬ t.ref.Scoped [] := by
  obtain ⟨v, hk⟩ := var
  rw [ref_of_var h hk, TypeRef.var, TypeRef.scoped_var (TypeRef.var?_var v.index v.depth)]
  simp

/-- Closed types are not barren. -/
theorem not_isBarren_of_scoped (h : (core home).Owns t) (closed : t.ref.Scoped []) :
    ¬ t.IsBarren (core home).oracle := by
  obtain var | ⟨body, inner, vars, bindings, hk⟩ | plain := t.var_or_generic_or_plain
  · exact absurd closed (not_scoped_of_isVar h var)
  · obtain ⟨bound, free, s, own, -⟩ := exists_instance_of_scoped h hk closed
    rw [Ty.IsBarren, hk]
    rintro (opened | none)
    · exact (closed_binding_iff h hk).1 free opened
    · exact none s ⟨body, inner, vars, bindings, hk, bound, own⟩
  · rintro barren
    have proper := (forms_of_owns h).isFailure
    rw [Ty.IsBarren] at barren
    rw [Ty.IsPlain] at plain
    cases hk : t.kind <;> simp_all [Ty.isFailure, Ty.failure?]

/-- What a closed type demands is closed. -/
theorem scoped_of_demands (h : (core home).Owns t) (closed : t.ref.Scoped [])
    (demanded : t.Demands (core home).oracle s) : s.ref.Scoped [] := by
  obtain var | ⟨body, inner, vars, bindings, hk⟩ | plain := t.var_or_generic_or_plain
  · exact absurd closed (not_scoped_of_isVar h var)
  · obtain ⟨bound, -, x, own, closed'⟩ := exists_instance_of_scoped h hk closed
    rw [Ty.Demands, hk] at demanded
    obtain rfl := demanded.unique ⟨body, inner, vars, bindings, hk, bound, own⟩
    exact closed'
  · obtain part | unfolds := demanded.part_or_unfolds
    · exact (scoped_of_plain h plain).1 closed s part
    · exact absurd plain unfolds.isBound.not_isPlain

/-- Closed types of the core registry have defaults. -/
theorem exists_default (h : (core home).Owns t) (closed : t.ref.Scoped []) :
    ∃ v, t.default.answer (core home).oracle = .ok v := by
  refine (exists_default_iff h).2 fun s path => ?_
  have kept : (core home).Owns s ∧ s.ref.Scoped [] := by
    induction path with
    | refl => exact ⟨h, closed⟩
    | tail _ next ih => exact ⟨owns_of_demands ih.1 next, scoped_of_demands ih.1 ih.2 next⟩
  exact not_isBarren_of_scoped kept.1 kept.2

/-- A type of the core registry accepts its default, if it has one; and it has one if it is closed,
its generics carry their bindings, and the index of each variable is below the number of variables
of the generic that binds it. -/
theorem default_spec {ref : TypeRef} (h : (core home).resolve ref = .ok t) :
    (∀ v, t.default.answer (core home).oracle = .ok v → t.Accepts (core home).oracle v) ∧
      (t.freeDepth = none → ref.isWellBound [] = true →
        ∃ v, t.default.answer (core home).oracle = .ok v) := by
  have own := owns_of_resolve h
  refine ⟨fun v => accepts_default own, ?_⟩
  intro closed bound
  refine exists_default own ⟨?_, (freeDepth_eq_none_iff own).1 closed⟩
  rwa [ref_of_resolve h]

/-- A bound generic within the body of another, with variables of both. -/
theorem default_spec_nested :
    let ref : TypeRef := .genericBound
      (.tuple [.var 0 0, .genericBound (.map (.var 0 0) (.var 1 1)) 1 [.list (.var 0 0)]]) 2
      [.bool, .int]
    ∃ t, (core 0).resolve ref = .ok t ∧ t.freeDepth = none ∧ ref.isWellBound [] = true ∧
      ∃ v, t.default.answer (core 0).oracle = .ok v ∧ t.Accepts (core 0).oracle v := by
  intro ref
  have resolved : (core 0).resolve ref = .ok _ := rfl
  obtain ⟨accepted, made⟩ := default_spec resolved
  obtain ⟨v, hv⟩ := made rfl rfl
  exact ⟨_, resolved, rfl, rfl, v, hv, accepted v hv⟩

end Registry

end TypedTree
