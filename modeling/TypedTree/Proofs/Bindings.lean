import TypedTree.Proofs.Inhabitation

/-!
# Values for bindings

The value of a generic under bindings of one's choice is the default of its instance, together with
the bindings. It asks that no variable of the generic is left without a binding. The check of a
generic value asks that there is one binding for each variable. So a value with bindings to spare is
made and not accepted, and this is the only such case: with one binding for each variable, what is
made is accepted, and what is accepted can be made if the instance has a default.

## Main statements

* `Ty.exists_valueFor`: the bindings that there is a value for.
* `Registry.accepts_valueFor_iff`: the values that are accepted.
* `Registry.valueFor_spec`: making values and accepting them.
* `Registry.valueFor_spare`: a value that is not accepted.
-/

namespace TypedTree

variable {o : Oracle} {body : TypeRef} {vars : UInt32} {bindings : List TypeRef} {s : Ty}
  {v : Value}

/-- An instance leaves no variable without a binding. -/
theorem TypeRef.HasInstance.le_length (own : body.HasInstance o vars bindings s) :
    vars.toNat ≤ bindings.length := by
  obtain ⟨ref, expanded, -⟩ := own
  exact (expand_eq_ok.1 expanded).1

/-- There is a value for just the closed bindings under which the generic has an instance with a
default. -/
theorem Ty.exists_valueFor :
    (∃ v, (valueFor body vars bindings).answer o = .ok v) ↔
      (∀ b ∈ bindings, b.Closed o) ∧
        ∃ s, body.HasInstance o vars bindings s ∧ ∃ v, s.default.answer o = .ok v :=
  exists_boundValue

namespace Registry

variable {home : Nat} {g inner : Ty} {bound : List (TypeRef × Ty)}

/-- The value for some bindings is accepted just if there is one binding for each variable. -/
theorem accepts_valueFor_iff (hk : g.kind = .generic body inner vars bound)
    (made : (Ty.valueFor body vars bindings).answer (core home).oracle = .ok v) :
    g.Accepts (core home).oracle v ↔ bindings.length = vars.toNat := by
  rw [Ty.accepts_iff, hk]
  constructor
  · obtain ⟨-, -, -, -, -, rfl⟩ := Ty.boundValue_eq_ok.1 made
    exact And.left
  · intro count
    refine Ty.holds_boundValue count ?_ made
    rintro t ⟨_, -, resolved⟩ w default
    exact accepts_default (owns_of_resolve resolved) default

/-- Some bindings have a value just if they are closed, none is missing, and the generic has an
instance under them that has a default. What is made for them is accepted just if none is to spare,
or if nothing is made. And there is a value for the bindings of an accepted value if the instance
has a default. -/
theorem valueFor_spec (home : Nat) (hk : g.kind = .generic body inner vars bound)
    (bindings : List TypeRef) :
    ((∃ v, (Ty.valueFor body vars bindings).answer (core home).oracle = .ok v) ↔
      vars.toNat ≤ bindings.length ∧ (∀ b ∈ bindings, b.Closed (core home).oracle) ∧
        ∃ s, body.HasInstance (core home).oracle vars bindings s ∧
          ∃ w, s.default.answer (core home).oracle = .ok w) ∧
      ((∀ v, (Ty.valueFor body vars bindings).answer (core home).oracle = .ok v →
          g.Accepts (core home).oracle v) ↔
        bindings.length = vars.toNat ∨
          ∀ v, (Ty.valueFor body vars bindings).answer (core home).oracle ≠ .ok v) ∧
      ∀ w s, g.Accepts (core home).oracle (.generic bindings w) →
        body.HasInstance (core home).oracle vars bindings s →
        (∃ d, s.default.answer (core home).oracle = .ok d) →
          ∃ v, (Ty.valueFor body vars bindings).answer (core home).oracle = .ok v := by
  refine ⟨?_, ?_, ?_⟩
  · rw [Ty.exists_valueFor]
    constructor
    · rintro ⟨closed, s, own, made⟩
      exact ⟨own.le_length, closed, s, own, made⟩
    · exact And.right
  · constructor
    · intro accepted
      by_cases made : ∃ v, (Ty.valueFor body vars bindings).answer (core home).oracle = .ok v
      · obtain ⟨v, hv⟩ := made
        exact .inl ((accepts_valueFor_iff hk hv).1 (accepted v hv))
      · exact .inr (not_exists.1 made)
    · rintro (count | none) v hv
      · exact (accepts_valueFor_iff hk hv).2 count
      · exact absurd hv (none v)
  · intro w s accepted own made
    rw [Ty.accepts_iff, hk] at accepted
    exact Ty.exists_valueFor.2 ⟨accepted.2.1, s, own, made⟩

/-- A pair of both variables. -/
theorem valueFor_spec_pair :
    let body : TypeRef := .tuple [.var 0 0, .list (.var 1 0)]
    ∃ g inner bound, (core 0).resolve (.generic body 2) = .ok g ∧
      g.kind = .generic body inner 2 bound ∧
      ∃ v, (Ty.valueFor body 2 [.bool, .text]).answer (core 0).oracle = .ok v ∧
        g.Accepts (core 0).oracle v := by
  intro body
  obtain ⟨g, inner, bound, resolved, hk⟩ : ∃ g inner bound,
      (core 0).resolve (.generic body 2) = .ok g ∧ g.kind = .generic body inner 2 bound :=
    ⟨_, _, _, rfl, rfl⟩
  have closed : ∀ b ∈ [TypeRef.bool, .text], b.Closed (core 0).oracle :=
    List.forall_mem_cons.2 ⟨⟨_, rfl, rfl⟩, List.forall_mem_singleton.2 ⟨_, rfl, rfl⟩⟩
  obtain ⟨s, built, free⟩ : ∃ s, (core 0).resolve (.tuple [.bool, .list .text]) = .ok s ∧
      s.freeDepth = none := ⟨_, rfl, rfl⟩
  have own := owns_of_resolve built
  have sealed : s.ref.Scoped [] :=
    ⟨(ref_of_resolve built).symm ▸ rfl, (freeDepth_eq_none_iff own).1 free⟩
  obtain ⟨makes, accepts, -⟩ := valueFor_spec 0 hk [.bool, .text]
  obtain ⟨v, made⟩ :=
    makes.2 ⟨by decide, closed, s, ⟨_, rfl, built⟩, exists_default own sealed⟩
  exact ⟨g, inner, bound, resolved, hk, v, made, accepts.2 (.inl rfl) v made⟩

/-- A generic over one variable makes a value for two bindings, and does not accept it. -/
theorem valueFor_spare :
    ∃ g inner, (core 0).resolve (.generic (.var 0 0) 1) = .ok g ∧
      g.kind = .generic (.var 0 0) inner 1 [] ∧
      ∃ v, (Ty.valueFor (.var 0 0) 1 [.bool, .int]).answer (core 0).oracle = .ok v ∧
        ¬ g.Accepts (core 0).oracle v := by
  obtain ⟨g, inner, resolved, hk⟩ : ∃ g inner,
      (core 0).resolve (.generic (.var 0 0) 1) = .ok g ∧
        g.kind = .generic (.var 0 0) inner 1 [] := ⟨_, _, rfl, rfl⟩
  have closed : ∀ b ∈ [TypeRef.bool, .int], b.Closed (core 0).oracle :=
    List.forall_mem_cons.2 ⟨⟨_, rfl, rfl⟩, List.forall_mem_singleton.2 ⟨_, rfl, rfl⟩⟩
  have default : ∃ s, TypeRef.HasInstance (core 0).oracle (.var 0 0) 1 [.bool, .int] s ∧
      ∃ w, s.default.answer (core 0).oracle = .ok w :=
    ⟨_, ⟨_, rfl, rfl⟩, .bool false, by rw [Ty.default]; rfl⟩
  obtain ⟨v, made⟩ := Ty.exists_valueFor.2 ⟨closed, default⟩
  refine ⟨g, inner, resolved, hk, v, made, fun accepted => ?_⟩
  have count := (accepts_valueFor_iff hk made).1 accepted
  cases count

end Registry

end TypedTree
