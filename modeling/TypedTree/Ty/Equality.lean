import TypedTree.Ty

/-!
# Equality of types

Whether two resolved types are the same in everything, down to their parts, can be decided. This
is finer than being the same instance, which goes by the home and the reference alone.

## Main definitions

* `Ty.same`, `Kind.same`: the comparison.
* `Ty.same_iff_eq`: it decides equality.
-/

namespace TypedTree

mutual

/-- Whether two types are the same. -/
def Ty.same : Ty → Ty → Bool
  | ⟨h, r, n, k⟩, ⟨h', r', n', k'⟩ => h == h' && n == n' && r == r' && Kind.same k k'
termination_by structural x => x

/-- Whether two kinds are the same. -/
def Kind.same : Kind Ty → Kind Ty → Bool
  | .bool, .bool => true
  | .int r, .int s => r == s
  | .rational r, .rational s => r == s
  | .text, .text => true
  | .enumeration e, .enumeration f => e == f
  | .record x, .record y => Field.sameAll x y
  | .variant x t i, .variant y u j => t == u && i == j && Ty.sameNamed x y
  | .array a s, .array b t => s == t && a.same b
  | .sum x i, .sum y j => i == j && Ty.sameAll x y
  | .tuple x, .tuple y => Ty.sameAll x y
  | .generic r a n x, .generic s b m y => n == m && r == s && a.same b && Ty.sameBound x y
  | .map a b, .map c d => a.same c && b.same d
  | .var v, .var w => v == w
  | .failure e, .failure f => e == f
  | _, _ => false
termination_by structural x => x

/-- Whether two lists hold the same types. -/
def Ty.sameAll : List Ty → List Ty → Bool
  | [], [] => true
  | a :: x, b :: y => a.same b && Ty.sameAll x y
  | _, _ => false
termination_by structural x => x

/-- Whether two records have the same fields. -/
def Field.sameAll : List (Field Ty) → List (Field Ty) → Bool
  | [], [] => true
  | ⟨i, a, p⟩ :: x, ⟨j, b, q⟩ :: y => i == j && p == q && a.same b && Field.sameAll x y
  | _, _ => false
termination_by structural x => x

/-- Whether two variants have the same fields. -/
def Ty.sameNamed : List (Ident × Ty) → List (Ident × Ty) → Bool
  | [], [] => true
  | (i, a) :: x, (j, b) :: y => i == j && a.same b && Ty.sameNamed x y
  | _, _ => false
termination_by structural x => x

/-- Whether two generics have the same bindings. -/
def Ty.sameBound : List (TypeRef × Ty) → List (TypeRef × Ty) → Bool
  | [], [] => true
  | (r, a) :: x, (s, b) :: y => r == s && a.same b && Ty.sameBound x y
  | _, _ => false
termination_by structural x => x

end

mutual

private theorem Ty.eq_of_same : ∀ {a b : Ty}, a.same b = true → a = b
  | ⟨_, _, _, k⟩, ⟨_, _, _, l⟩, h => by
    simp only [Ty.same, Bool.and_eq_true, beq_iff_eq] at h
    rw [h.1.1.1, h.1.1.2, h.1.2, Kind.eq_of_same h.2]
termination_by structural a => a

private theorem Kind.eq_of_same : ∀ {k l : Kind Ty}, Kind.same k l = true → k = l
  | .bool, l, h => by cases l <;> simp_all [Kind.same]
  | .int _, l, h => by cases l <;> simp_all [Kind.same]
  | .rational _, l, h => by cases l <;> simp_all [Kind.same]
  | .text, l, h => by cases l <;> simp_all [Kind.same]
  | .enumeration _, l, h => by cases l <;> simp_all [Kind.same]
  | .var _, l, h => by cases l <;> simp_all [Kind.same]
  | .failure _, l, h => by cases l <;> simp_all [Kind.same]
  | .record x, l, h => by
    cases l <;> simp only [Kind.same, Bool.false_eq_true] at h
    rw [Field.eq_of_sameAll h]
  | .variant x t i, l, h => by
    cases l <;> simp only [Kind.same, Bool.false_eq_true, Bool.and_eq_true, beq_iff_eq] at h
    rw [h.1.1, h.1.2, Ty.eq_of_sameNamed h.2]
  | .array a s, l, h => by
    cases l <;> simp only [Kind.same, Bool.false_eq_true, Bool.and_eq_true, beq_iff_eq] at h
    rw [h.1, Ty.eq_of_same h.2]
  | .sum x i, l, h => by
    cases l <;> simp only [Kind.same, Bool.false_eq_true, Bool.and_eq_true, beq_iff_eq] at h
    rw [h.1, Ty.eq_of_sameAll h.2]
  | .tuple x, l, h => by
    cases l <;> simp only [Kind.same, Bool.false_eq_true] at h
    rw [Ty.eq_of_sameAll h]
  | .generic r a n x, l, h => by
    cases l <;> simp only [Kind.same, Bool.false_eq_true, Bool.and_eq_true, beq_iff_eq] at h
    rw [h.1.1.1, h.1.1.2, Ty.eq_of_same h.1.2, Ty.eq_of_sameBound h.2]
  | .map a b, l, h => by
    cases l <;> simp only [Kind.same, Bool.false_eq_true, Bool.and_eq_true] at h
    rw [Ty.eq_of_same h.1, Ty.eq_of_same h.2]
termination_by structural k => k

private theorem Ty.eq_of_sameAll : ∀ {x y : List Ty}, Ty.sameAll x y = true → x = y
  | [], y, h => by cases y <;> simp_all [Ty.sameAll]
  | a :: x, y, h => by
    cases y <;> simp only [Ty.sameAll, Bool.false_eq_true, Bool.and_eq_true] at h
    rw [Ty.eq_of_same h.1, Ty.eq_of_sameAll h.2]
termination_by structural x => x

private theorem Field.eq_of_sameAll :
    ∀ {x y : List (Field Ty)}, Field.sameAll x y = true → x = y
  | [], y, h => by cases y <;> simp_all [Field.sameAll]
  | ⟨i, a, p⟩ :: x, y, h => by
    rcases y with _ | ⟨⟨j, b, q⟩, y⟩ <;>
      simp only [Field.sameAll, Bool.false_eq_true, Bool.and_eq_true, beq_iff_eq] at h
    rw [h.1.1.1, h.1.1.2, Ty.eq_of_same h.1.2, Field.eq_of_sameAll h.2]
termination_by structural x => x

private theorem Ty.eq_of_sameNamed :
    ∀ {x y : List (Ident × Ty)}, Ty.sameNamed x y = true → x = y
  | [], y, h => by cases y <;> simp_all [Ty.sameNamed]
  | (i, a) :: x, y, h => by
    rcases y with _ | ⟨⟨j, b⟩, y⟩ <;>
      simp only [Ty.sameNamed, Bool.false_eq_true, Bool.and_eq_true, beq_iff_eq] at h
    rw [h.1.1, Ty.eq_of_same h.1.2, Ty.eq_of_sameNamed h.2]
termination_by structural x => x

private theorem Ty.eq_of_sameBound :
    ∀ {x y : List (TypeRef × Ty)}, Ty.sameBound x y = true → x = y
  | [], y, h => by cases y <;> simp_all [Ty.sameBound]
  | (r, a) :: x, y, h => by
    rcases y with _ | ⟨⟨s, b⟩, y⟩ <;>
      simp only [Ty.sameBound, Bool.false_eq_true, Bool.and_eq_true, beq_iff_eq] at h
    rw [h.1.1, Ty.eq_of_same h.1.2, Ty.eq_of_sameBound h.2]
termination_by structural x => x

end

mutual

private theorem Ty.same_self : ∀ a : Ty, a.same a = true
  | ⟨_, _, _, k⟩ => by simp [Ty.same, Kind.same_self k]
termination_by structural a => a

private theorem Kind.same_self : ∀ k : Kind Ty, Kind.same k k = true
  | .bool => rfl
  | .int _ => by simp [Kind.same]
  | .rational _ => by simp [Kind.same]
  | .text => rfl
  | .enumeration _ => by simp [Kind.same]
  | .record x => by simp [Kind.same, Field.sameAll_self x]
  | .variant x _ _ => by simp [Kind.same, Ty.sameNamed_self x]
  | .array a _ => by simp [Kind.same, Ty.same_self a]
  | .sum x _ => by simp [Kind.same, Ty.sameAll_self x]
  | .tuple x => by simp [Kind.same, Ty.sameAll_self x]
  | .generic _ a _ x => by simp [Kind.same, Ty.same_self a, Ty.sameBound_self x]
  | .map a b => by simp [Kind.same, Ty.same_self a, Ty.same_self b]
  | .var _ => by simp [Kind.same]
  | .failure _ => by simp [Kind.same]
termination_by structural k => k

private theorem Ty.sameAll_self : ∀ x : List Ty, Ty.sameAll x x = true
  | [] => rfl
  | a :: x => by simp [Ty.sameAll, Ty.same_self a, Ty.sameAll_self x]
termination_by structural x => x

private theorem Field.sameAll_self : ∀ x : List (Field Ty), Field.sameAll x x = true
  | [] => rfl
  | ⟨_, a, _⟩ :: x => by simp [Field.sameAll, Ty.same_self a, Field.sameAll_self x]
termination_by structural x => x

private theorem Ty.sameNamed_self : ∀ x : List (Ident × Ty), Ty.sameNamed x x = true
  | [] => rfl
  | (_, a) :: x => by simp [Ty.sameNamed, Ty.same_self a, Ty.sameNamed_self x]
termination_by structural x => x

private theorem Ty.sameBound_self : ∀ x : List (TypeRef × Ty), Ty.sameBound x x = true
  | [] => rfl
  | (_, a) :: x => by simp [Ty.sameBound, Ty.same_self a, Ty.sameBound_self x]
termination_by structural x => x

end

/-- The comparison of types decides equality. -/
theorem Ty.same_iff_eq {a b : Ty} : a.same b = true ↔ a = b :=
  ⟨Ty.eq_of_same, fun h => h ▸ Ty.same_self a⟩

instance : DecidableEq Ty := fun _ _ => decidable_of_iff _ Ty.same_iff_eq

end TypedTree
