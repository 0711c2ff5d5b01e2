import TypedTree.Value

/-!
# Equality of values

Whether two values, or two type references, are the same can be decided. The comparison follows
the two sides down together and stops at the first difference.

## Main definitions

* `Value.same`, `TypeRef.same`: the comparison.
* `Value.same_iff_eq`, `TypeRef.same_iff_eq`: it decides equality.
-/

namespace TypedTree

mutual

/-- Whether two values are the same. -/
def Value.same : Value → Value → Bool
  | .void, .void => true
  | .bool a, .bool b => a == b
  | .int a, .int b => a == b
  | .rational a, .rational b => a == b
  | .ident a, .ident b => a == b
  | .text a, .text b => a == b
  | .array a, .array b => Value.sameAll a b
  | .tuple a, .tuple b => Value.sameAll a b
  | .record a, .record b => Slots.same a b
  | .variant t a, .variant u b => t == u && Fields.same a b
  | .sum i a, .sum j b => i == j && a.same b
  | .generic a x, .generic b y => TypeRef.sameAll a b && x.same y
  | .map a, .map b => Mapping.same a b
  | _, _ => false
termination_by structural x => x

/-- Whether two type references are the same. -/
def TypeRef.same : TypeRef → TypeRef → Bool
  | .primitive a, .primitive b => a == b
  | .constructed a x u, .constructed b y v =>
    a == b && TypeRef.sameAll x y && Value.sameAll u v
  | _, _ => false
termination_by structural x => x

/-- Whether two lists hold the same values. -/
def Value.sameAll : List Value → List Value → Bool
  | [], [] => true
  | a :: x, b :: y => a.same b && Value.sameAll x y
  | _, _ => false
termination_by structural x => x

/-- Whether two lists hold the same references. -/
def TypeRef.sameAll : List TypeRef → List TypeRef → Bool
  | [], [] => true
  | a :: x, b :: y => a.same b && TypeRef.sameAll x y
  | _, _ => false
termination_by structural x => x

/-- Whether two records hold the same slots. -/
def Slots.same : List (Ident × Option Value) → List (Ident × Option Value) → Bool
  | [], [] => true
  | (i, some a) :: x, (j, some b) :: y => i == j && a.same b && Slots.same x y
  | (i, none) :: x, (j, none) :: y => i == j && Slots.same x y
  | _, _ => false
termination_by structural x => x

/-- Whether two variants hold the same fields. -/
def Fields.same : List (Ident × Value) → List (Ident × Value) → Bool
  | [], [] => true
  | (i, a) :: x, (j, b) :: y => i == j && a.same b && Fields.same x y
  | _, _ => false
termination_by structural x => x

/-- Whether two mappings have the same rules and fallback. -/
def Mapping.same : Mapping Value → Mapping Value → Bool
  | ⟨r, f⟩, ⟨s, g⟩ => Rule.sameAll r s && Target.same f g
termination_by structural x => x

/-- Whether two lists hold the same rules. -/
def Rule.sameAll : List (Rule Value) → List (Rule Value) → Bool
  | [], [] => true
  | ⟨.exact a, t⟩ :: x, ⟨.exact b, u⟩ :: y => a.same b && Target.same t u && Rule.sameAll x y
  | ⟨.range a c, t⟩ :: x, ⟨.range b d, u⟩ :: y =>
    a.same b && c.same d && Target.same t u && Rule.sameAll x y
  | _, _ => false
termination_by structural x => x

/-- Whether two targets give the same answers. -/
def Target.same : Target Value → Target Value → Bool
  | .fixed a, .fixed b => a.same b
  | .itself, .itself => true
  | _, _ => false
termination_by structural x => x

end

mutual

private theorem Value.eq_of_same : ∀ {a b : Value}, a.same b = true → a = b
  | .void, b, h => by cases b <;> simp_all [Value.same]
  | .bool _, b, h => by cases b <;> simp_all [Value.same]
  | .int _, b, h => by cases b <;> simp_all [Value.same]
  | .rational _, b, h => by cases b <;> simp_all [Value.same]
  | .ident _, b, h => by cases b <;> simp_all [Value.same]
  | .text _, b, h => by cases b <;> simp_all [Value.same]
  | .array x, b, h => by
    cases b <;> simp only [Value.same, Bool.false_eq_true] at h
    rw [Value.eq_of_sameAll h]
  | .tuple x, b, h => by
    cases b <;> simp only [Value.same, Bool.false_eq_true] at h
    rw [Value.eq_of_sameAll h]
  | .record x, b, h => by
    cases b <;> simp only [Value.same, Bool.false_eq_true] at h
    rw [Slots.eq_of_same h]
  | .variant t x, b, h => by
    cases b <;> simp only [Value.same, Bool.false_eq_true, Bool.and_eq_true, beq_iff_eq] at h
    rw [h.1, Fields.eq_of_same h.2]
  | .sum i x, b, h => by
    cases b <;> simp only [Value.same, Bool.false_eq_true, Bool.and_eq_true, beq_iff_eq] at h
    rw [h.1, Value.eq_of_same h.2]
  | .generic r x, b, h => by
    cases b <;> simp only [Value.same, Bool.false_eq_true, Bool.and_eq_true] at h
    rw [TypeRef.eq_of_sameAll h.1, Value.eq_of_same h.2]
  | .map ⟨r, f⟩, b, h => by
    cases b <;> simp only [Value.same, Bool.false_eq_true] at h
    rename_i m
    obtain ⟨s, g⟩ := m
    simp only [Mapping.same, Bool.and_eq_true] at h
    rw [Rule.eq_of_sameAll h.1, Target.eq_of_same h.2]
termination_by structural a => a

private theorem TypeRef.eq_of_same : ∀ {a b : TypeRef}, a.same b = true → a = b
  | .primitive _, b, h => by cases b <;> simp_all [TypeRef.same]
  | .constructed c x u, b, h => by
    cases b <;> simp only [TypeRef.same, Bool.false_eq_true, Bool.and_eq_true, beq_iff_eq] at h
    rw [h.1.1, TypeRef.eq_of_sameAll h.1.2, Value.eq_of_sameAll h.2]
termination_by structural a => a

private theorem Value.eq_of_sameAll : ∀ {x y : List Value}, Value.sameAll x y = true → x = y
  | [], y, h => by cases y <;> simp_all [Value.sameAll]
  | a :: x, y, h => by
    cases y <;> simp only [Value.sameAll, Bool.false_eq_true, Bool.and_eq_true] at h
    rw [Value.eq_of_same h.1, Value.eq_of_sameAll h.2]
termination_by structural x => x

private theorem TypeRef.eq_of_sameAll :
    ∀ {x y : List TypeRef}, TypeRef.sameAll x y = true → x = y
  | [], y, h => by cases y <;> simp_all [TypeRef.sameAll]
  | a :: x, y, h => by
    cases y <;> simp only [TypeRef.sameAll, Bool.false_eq_true, Bool.and_eq_true] at h
    rw [TypeRef.eq_of_same h.1, TypeRef.eq_of_sameAll h.2]
termination_by structural x => x

private theorem Slots.eq_of_same :
    ∀ {x y : List (Ident × Option Value)}, Slots.same x y = true → x = y
  | [], y, h => by cases y <;> simp_all [Slots.same]
  | (i, none) :: x, y, h => by
    rcases y with _ | ⟨⟨j, _ | b⟩, y⟩ <;>
      simp only [Slots.same, Bool.false_eq_true, Bool.and_eq_true, beq_iff_eq] at h
    rw [h.1, Slots.eq_of_same h.2]
  | (i, some a) :: x, y, h => by
    rcases y with _ | ⟨⟨j, _ | b⟩, y⟩ <;>
      simp only [Slots.same, Bool.false_eq_true, Bool.and_eq_true, beq_iff_eq] at h
    rw [h.1.1, Value.eq_of_same h.1.2, Slots.eq_of_same h.2]
termination_by structural x => x

private theorem Fields.eq_of_same :
    ∀ {x y : List (Ident × Value)}, Fields.same x y = true → x = y
  | [], y, h => by cases y <;> simp_all [Fields.same]
  | (i, a) :: x, y, h => by
    rcases y with _ | ⟨⟨j, b⟩, y⟩ <;>
      simp only [Fields.same, Bool.false_eq_true, Bool.and_eq_true, beq_iff_eq] at h
    rw [h.1.1, Value.eq_of_same h.1.2, Fields.eq_of_same h.2]
termination_by structural x => x

private theorem Rule.eq_of_sameAll :
    ∀ {x y : List (Rule Value)}, Rule.sameAll x y = true → x = y
  | [], y, h => by cases y <;> simp_all [Rule.sameAll]
  | ⟨.exact a, t⟩ :: x, y, h => by
    rcases y with _ | ⟨⟨b | ⟨b, d⟩, u⟩, y⟩ <;>
      simp only [Rule.sameAll, Bool.false_eq_true, Bool.and_eq_true] at h
    rw [Value.eq_of_same h.1.1, Target.eq_of_same h.1.2, Rule.eq_of_sameAll h.2]
  | ⟨.range a c, t⟩ :: x, y, h => by
    rcases y with _ | ⟨⟨b | ⟨b, d⟩, u⟩, y⟩ <;>
      simp only [Rule.sameAll, Bool.false_eq_true, Bool.and_eq_true] at h
    rw [Value.eq_of_same h.1.1.1, Value.eq_of_same h.1.1.2, Target.eq_of_same h.1.2,
      Rule.eq_of_sameAll h.2]
termination_by structural x => x

private theorem Target.eq_of_same : ∀ {x y : Target Value}, Target.same x y = true → x = y
  | .itself, y, h => by cases y <;> simp_all [Target.same]
  | .fixed a, y, h => by
    cases y <;> simp only [Target.same, Bool.false_eq_true] at h
    rw [Value.eq_of_same h]
termination_by structural x => x

end

mutual

private theorem Value.same_self : ∀ a : Value, a.same a = true
  | .void => rfl
  | .bool _ => by simp [Value.same]
  | .int _ => by simp [Value.same]
  | .rational _ => by simp [Value.same]
  | .ident _ => by simp [Value.same]
  | .text _ => by simp [Value.same]
  | .array x => by simp [Value.same, Value.sameAll_self x]
  | .tuple x => by simp [Value.same, Value.sameAll_self x]
  | .record x => by simp [Value.same, Slots.same_self x]
  | .variant _ x => by simp [Value.same, Fields.same_self x]
  | .sum _ x => by simp [Value.same, Value.same_self x]
  | .generic r x => by simp [Value.same, TypeRef.sameAll_self r, Value.same_self x]
  | .map ⟨r, f⟩ => by simp [Value.same, Mapping.same, Rule.sameAll_self r, Target.same_self f]
termination_by structural a => a

private theorem TypeRef.same_self : ∀ a : TypeRef, a.same a = true
  | .primitive _ => by simp [TypeRef.same]
  | .constructed _ x u => by simp [TypeRef.same, TypeRef.sameAll_self x, Value.sameAll_self u]
termination_by structural a => a

private theorem Value.sameAll_self : ∀ x : List Value, Value.sameAll x x = true
  | [] => rfl
  | a :: x => by simp [Value.sameAll, Value.same_self a, Value.sameAll_self x]
termination_by structural x => x

private theorem TypeRef.sameAll_self : ∀ x : List TypeRef, TypeRef.sameAll x x = true
  | [] => rfl
  | a :: x => by simp [TypeRef.sameAll, TypeRef.same_self a, TypeRef.sameAll_self x]
termination_by structural x => x

private theorem Slots.same_self : ∀ x : List (Ident × Option Value), Slots.same x x = true
  | [] => rfl
  | (_, none) :: x => by simp [Slots.same, Slots.same_self x]
  | (_, some a) :: x => by simp [Slots.same, Value.same_self a, Slots.same_self x]
termination_by structural x => x

private theorem Fields.same_self : ∀ x : List (Ident × Value), Fields.same x x = true
  | [] => rfl
  | (_, a) :: x => by simp [Fields.same, Value.same_self a, Fields.same_self x]
termination_by structural x => x

private theorem Rule.sameAll_self : ∀ x : List (Rule Value), Rule.sameAll x x = true
  | [] => rfl
  | ⟨.exact a, t⟩ :: x => by
    simp [Rule.sameAll, Value.same_self a, Target.same_self t, Rule.sameAll_self x]
  | ⟨.range a c, t⟩ :: x => by
    simp [Rule.sameAll, Value.same_self a, Value.same_self c, Target.same_self t,
      Rule.sameAll_self x]
termination_by structural x => x

private theorem Target.same_self : ∀ x : Target Value, Target.same x x = true
  | .itself => rfl
  | .fixed a => by simp [Target.same, Value.same_self a]
termination_by structural x => x

end

/-- The comparison of values decides equality. -/
theorem Value.same_iff_eq {a b : Value} : a.same b = true ↔ a = b :=
  ⟨Value.eq_of_same, fun h => h ▸ Value.same_self a⟩

/-- The comparison of references decides equality. -/
theorem TypeRef.same_iff_eq {a b : TypeRef} : a.same b = true ↔ a = b :=
  ⟨TypeRef.eq_of_same, fun h => h ▸ TypeRef.same_self a⟩

instance : DecidableEq Value := fun _ _ => decidable_of_iff _ Value.same_iff_eq

instance : DecidableEq TypeRef := fun _ _ => decidable_of_iff _ TypeRef.same_iff_eq

end TypedTree
