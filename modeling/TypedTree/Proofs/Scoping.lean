import TypedTree.Proofs.Substitution

/-!
# Scopes of variables

A reference is well scoped if every variable in it is one of those of a generic around it, and every
generic has something bound to each of its variables. Generics further out may be left to the place
where the reference stands, which is known by the numbers of their variables.

Shifting leaves variables alone that are bound within the reference. So a closed reference moves
under generics as it is, which is what happens to bindings.

## Main definitions

* `TypeRef.BoundWithin`: whether no variable is bound further out than some generics around.
* `TypeRef.isWellBound`: whether generics carry their bindings and variables are among those bound.
* `TypeRef.Scoped`: both.

## Main statements

* `TypeRef.shift_eq_self_iff`: the references that do not change when they are shifted.
* `TypeRef.Scoped.shift`: closed references are among them.
-/

namespace TypedTree

namespace TypeRef

/-- Whether every variable is bound by a generic in the reference or by one of `level` generics
around it. -/
def BoundWithin : Nat → TypeRef → Prop :=
  EachVar fun level v _ => v.depth.toNat < level

instance (level : Nat) (r : TypeRef) : Decidable (BoundWithin level r) :=
  inferInstanceAs (Decidable (EachVar _ level r))

/-- How many variables a generic has, by its value arguments. -/
def varCount : List Value → Nat
  | [count] => (count.uint32?.map UInt32.toNat).getD 0
  | _ => 0

mutual

/-- Whether every generic has something bound to each of its variables and the index of every
variable is below the number of variables of the generic that binds it. In `scopes` are the numbers
of variables of the generics around, innermost first. -/
def isWellBound (scopes : List Nat) : TypeRef → Bool
  | .primitive _ => true
  | .constructed c types values =>
    match var? c values with
    | some v => scopes[v.depth.toNat]?.all (v.index.toNat < ·)
    | none =>
      if c = Core.generic then isWellBoundBody scopes (varCount values) types
      else isWellBoundAll scopes types
termination_by structural x => x

/-- Whether all references in a list are well bound. -/
def isWellBoundAll (scopes : List Nat) : List TypeRef → Bool
  | [] => true
  | r :: rest => isWellBound scopes r && isWellBoundAll scopes rest
termination_by structural x => x

/-- Whether the body and the bindings of a generic with `count` variables are well bound. -/
def isWellBoundBody (scopes : List Nat) (count : Nat) : List TypeRef → Bool
  | [] => true
  | body :: bindings =>
    bindings.length == count && isWellBound (count :: scopes) body && isWellBoundAll scopes bindings
termination_by structural x => x

end

/-- Whether a reference is well bound and has no variables of generics further out than those whose
numbers of variables are given. -/
structure Scoped (scopes : List Nat) (r : TypeRef) : Prop where
  isWellBound : r.isWellBound scopes = true
  boundWithin : r.BoundWithin scopes.length

section Equations

variable {scopes : List Nat} {c : GlobalId} {types bindings : List TypeRef} {values : List Value}
  {body : TypeRef} {v : TypeVar}

theorem varCount_count (n : UInt32) : varCount [.count n.toNat] = n.toNat := by
  simp [varCount, uint32?_count n.toNat_lt]

theorem isWellBoundAll_iff :
    isWellBoundAll scopes types = true ↔ ∀ t ∈ types, t.isWellBound scopes = true := by
  induction types with
  | nil => simp [isWellBoundAll]
  | cons t types ih => simp [isWellBoundAll, ih]

theorem isWellBound_var (h : var? c values = some v) :
    isWellBound scopes (.constructed c types values) = true ↔
      ∀ count, scopes[v.depth.toNat]? = some count → v.index.toNat < count := by
  rw [isWellBound, h]
  change scopes[v.depth.toNat]?.all (v.index.toNat < ·) = true ↔ _
  cases scopes[v.depth.toNat]? <;> simp

theorem isWellBound_generic :
    isWellBound scopes (.constructed Core.generic (body :: bindings) values) = true ↔
      bindings.length = varCount values ∧ body.isWellBound (varCount values :: scopes) = true ∧
        ∀ b ∈ bindings, b.isWellBound scopes = true := by
  rw [isWellBound, var?_generic]
  simp [isWellBoundBody, isWellBoundAll_iff, and_assoc]

theorem isWellBound_plain (h : var? c values = none) (hc : c = Core.generic → types = []) :
    isWellBound scopes (.constructed c types values) = true ↔
      ∀ t ∈ types, t.isWellBound scopes = true := by
  rw [isWellBound, h]
  by_cases generic : c = Core.generic
  · simp [generic, hc generic, isWellBoundBody]
  · simp only [if_neg generic, isWellBoundAll_iff]

theorem scoped_primitive (id : GlobalId) : Scoped scopes (.primitive id) := ⟨rfl, trivial⟩

/-- A variable is one of those of a generic around it. -/
theorem scoped_var (h : var? c values = some v) :
    Scoped scopes (.constructed c types values) ↔
      ∃ count, scopes[v.depth.toNat]? = some count ∧ v.index.toNat < count := by
  constructor
  · rintro ⟨bound, within⟩
    have inside : v.depth.toNat < scopes.length := (eachVar_var h).1 within
    have found := List.getElem?_eq_getElem inside
    exact ⟨_, found, (isWellBound_var h).1 bound _ found⟩
  · rintro ⟨count, found, below⟩
    refine ⟨(isWellBound_var h).2 ?_, (eachVar_var h).2 (List.getElem?_eq_some_iff.1 found).1⟩
    intro other found'
    rwa [← Option.some.inj (found.symm.trans found')]

theorem scoped_generic :
    Scoped scopes (.constructed Core.generic (body :: bindings) values) ↔
      bindings.length = varCount values ∧ body.Scoped (varCount values :: scopes) ∧
        ∀ b ∈ bindings, b.Scoped scopes := by
  constructor
  · rintro ⟨bound, within⟩
    obtain ⟨count, inner, outer⟩ := isWellBound_generic.1 bound
    obtain ⟨inner', outer'⟩ := eachVar_generic.1 within
    exact ⟨count, ⟨inner, inner'⟩, fun b hb => ⟨outer b hb, outer' b hb⟩⟩
  · rintro ⟨count, inner, outer⟩
    exact ⟨isWellBound_generic.2 ⟨count, inner.isWellBound, fun b hb => (outer b hb).isWellBound⟩,
      eachVar_generic.2 ⟨inner.boundWithin, fun b hb => (outer b hb).boundWithin⟩⟩

theorem scoped_plain (h : var? c values = none) (hc : c = Core.generic → types = []) :
    Scoped scopes (.constructed c types values) ↔ ∀ t ∈ types, t.Scoped scopes := by
  constructor
  · rintro ⟨bound, within⟩ t ht
    exact ⟨(isWellBound_plain h hc).1 bound t ht, (eachVar_plain h hc).1 within t ht⟩
  · intro each
    exact ⟨(isWellBound_plain h hc).2 fun t ht => (each t ht).isWellBound,
      (eachVar_plain h hc).2 fun t ht => (each t ht).boundWithin⟩

end Equations

/-! ## Moving closed references -/

/-- More generics around do not matter. -/
theorem Scoped.weaken {scopes : List Nat} {r : TypeRef} (h : r.Scoped scopes) (more : List Nat) :
    r.Scoped (scopes ++ more) := by
  induction r using induct_forms generalizing scopes with
  | primitive id => exact scoped_primitive id
  | var c types values v hv =>
    obtain ⟨count, found, below⟩ := (scoped_var hv).1 h
    have inside := (List.getElem?_eq_some_iff.1 found).1
    exact (scoped_var hv).2 ⟨count, (List.getElem?_append_left inside).trans found, below⟩
  | generic body bindings values ihb ihs =>
    obtain ⟨count, inner, outer⟩ := scoped_generic.1 h
    exact scoped_generic.2 ⟨count, ihb inner, fun b hb => ihs b hb (outer b hb)⟩
  | plain c types values hv hc ih =>
    exact (scoped_plain hv hc).2 fun t ht => ih t ht ((scoped_plain hv hc).1 h t ht)

/-- Shifting changes nothing just if it adds nothing or leaves all variables alone, which it does if
they are bound further in. -/
theorem shift_eq_self_iff {r : TypeRef} {levels cutoff : Nat} :
    r.shift levels cutoff = r ↔ levels = 0 ∨ r.BoundWithin cutoff := by
  rw [TypeRef.shift_eq]
  by_cases still : levels = 0
  · simp [still]
  · rw [if_neg still, raise_eq_self_iff]
    simp only [still, false_and, imp_false, Nat.not_le, false_or]
    rfl

/-- A reference without free variables is the same under generics. -/
theorem shift_of_boundWithin {r : TypeRef} (h : r.BoundWithin 0) (levels : Nat) :
    r.shift levels 0 = r :=
  shift_eq_self_iff.2 (.inr h)

/-- A closed reference is the same under generics. -/
theorem Scoped.shift {r : TypeRef} (h : r.Scoped []) (levels : Nat) : r.shift levels 0 = r :=
  shift_of_boundWithin h.boundWithin levels

end TypeRef

end TypedTree
