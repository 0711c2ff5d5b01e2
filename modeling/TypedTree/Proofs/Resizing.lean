import TypedTree.Proofs.Defaults
import TypedTree.Ty.Edit

/-!
# Arrays within their bounds

The three changes to the length of an array are what they are for lists: cutting the end off or
adding default items there, putting a default item in, and taking an item out. A change goes through
just if its position is in the list and the new length is within the bounds.

Bounds are 32-bit numbers and lengths are not. A length is compared with the bounds after it was
lowered to the largest 32-bit number, so an upper bound that is this number holds nothing back. It
is the upper bound of lists.

## Main definitions

* `SizeBounds.Admits`: the lengths within bounds.
* `ArrayEdit.InRange`, `ArrayEdit.edited`: the changes as changes to lists.

## Main statements

* `ArrayEdit.apply_eq_ok`: when a change goes through, and what it makes of the array.
* `ArrayEdit.apply_within_bounds`: the changes one by one, and the check of arrays.
* `ArrayEdit.insert_at_largest`: an array that outgrows its upper bound.
-/

namespace TypedTree

namespace SizeBounds

variable {size : SizeBounds} {n : Nat}

/-- Whether a length is within bounds, where the largest 32-bit number is no upper bound. -/
def Admits (size : SizeBounds) (n : Nat) : Prop :=
  size.min.toNat ≤ n ∧ (n ≤ size.max.toNat ∨ size.max.toNat = UInt32.size - 1)

/-- Lowering a length to a 32-bit number shows only at the largest upper bound. -/
theorem allows_saturate : size.Allows (saturate n) ↔ size.Admits n := by
  have lowered : (saturate n).toNat = Min.min n (UInt32.size - 1) := by
    refine UInt32.toNat_ofNat_of_lt' (Nat.lt_of_le_of_lt (Nat.min_le_right _ _) ?_)
    decide
  have min_small := size.min.toNat_lt
  have max_small := size.max.toNat_lt
  rw [Allows, Admits, UInt32.le_iff_toNat_le, UInt32.le_iff_toNat_le, lowered]
  simp only [UInt32.size] at *
  omega

/-- Of 32-bit numbers the bounds admit those between them. -/
theorem allows_iff {n : UInt32} : size.Allows n ↔ size.Admits n.toNat := by
  rw [← allows_saturate, saturate_toNat]

/-- Where the length or the upper bound is smaller than the largest 32-bit number, a length is
within bounds if it is between them. -/
theorem admits_iff (small : n < UInt32.size ∨ size.max.toNat < UInt32.size - 1) :
    size.Admits n ↔ size.min.toNat ≤ n ∧ n ≤ size.max.toNat := by
  rw [Admits]
  simp only [UInt32.size] at *
  omega

end SizeBounds

namespace ArrayEdit

variable {o : Oracle} {name : String} {t element : Ty} {size : SizeBounds} {d w : Value}
  {items : List Value} {e : ArrayEdit}

/-- Whether the position of a change is in a list. -/
def InRange (items : List Value) : ArrayEdit → Prop
  | .resize _ => True
  | .insert pos => pos ≤ items.length
  | .remove pos => pos < items.length

/-- What a change makes of a list, given the item that it adds. -/
def edited (d : Value) (items : List Value) : ArrayEdit → List Value
  | .resize n => items.take n.toNat ++ List.replicate (n.toNat - items.length) d
  | .insert pos => items.insertIdx pos d
  | .remove pos => items.eraseIdx pos

theorem length_resize {n : UInt32} : (edited d items (.resize n)).length = n.toNat := by
  rw [edited, List.length_append, List.length_take, List.length_replicate]
  omega

theorem answer_checked {n : UInt32} {x : Attempt Value} :
    (do Attempt.ofExcept (size.check n); x : Attempt Value).answer o = .ok w ↔
      size.Allows n ∧ x.answer o = .ok w := by
  rw [Attempt.answer_bind, Attempt.answer_ofExcept, Outcome.seq_eq_ok, SizeBounds.check_eq_ok]

/-- A change goes through just if its position is in the list and the new length is within the
bounds. -/
theorem apply_eq_ok (hd : element.default.answer o = .ok d) :
    (e.apply name element size (.array items)).answer o = .ok w ↔
      e.InRange items ∧ size.Admits (e.edited d items).length ∧ .array (e.edited d items) = w := by
  cases e with
  | resize n =>
    rw [length_resize, ← SizeBounds.allows_iff, apply, answer_checked, InRange, true_and, edited]
    refine and_congr_right fun _ => ?_
    split
    · rename_i same
      simp [← same]
    · split
      · rename_i shorter
        simp [Nat.sub_eq_zero_of_le (Nat.le_of_lt shorter)]
      · rename_i longer
        simp [List.take_of_length_le (Nat.le_of_not_lt longer), hd]
  | insert pos =>
    simp only [apply, InRange, edited]
    split
    · rename_i beyond
      simp [Nat.not_le_of_lt beyond]
    · rename_i inside
      have within := Nat.le_of_not_lt inside
      rw [List.length_insertIdx_of_le_length within, ← SizeBounds.allows_saturate, answer_checked]
      simp [hd, within]
  | remove pos =>
    simp only [apply, InRange, edited]
    split
    · rename_i beyond
      simp [Nat.not_lt_of_le beyond]
    · rename_i inside
      have within := Nat.lt_of_not_le inside
      rw [List.length_eraseIdx_of_lt within, ← SizeBounds.allows_saturate, answer_checked]
      simp [within]

theorem accepts_array (hk : t.kind = .array element size) :
    t.Accepts o (.array items) ↔
      size.Admits items.length ∧ ∀ v ∈ items, element.Accepts o v := by
  rw [Ty.accepts_iff, hk, Kind.Holds, SizeBounds.allows_saturate]

/-- Changes of arrays are changes of lists within bounds. For an array of a type whose items have a
default and whose bounds admit its length: it is resized to just the sizes between the bounds, and
then keeps its first items and goes on with defaults; a default goes in at just the positions up to
its end, if the bounds admit one more item; and any item can be taken out, if the bounds admit one
item less. The lengths of all results are admitted. Arrays are accepted if their length is admitted
and their items are accepted. What is admitted lies between the bounds, but if the upper bound is
the largest 32-bit number, greater lengths are admitted too. -/
theorem apply_within_bounds (hk : t.kind = .array element size)
    (hd : element.default.answer o = .ok d) (admitted : size.Admits items.length) :
    (∀ n w, (apply t.name element size (.array items) (.resize n)).answer o = .ok w ↔
      (size.min ≤ n ∧ n ≤ size.max) ∧
        .array (items.take n.toNat ++ List.replicate (n.toNat - items.length) d) = w) ∧
      (∀ pos w, (apply t.name element size (.array items) (.insert pos)).answer o = .ok w ↔
        pos ≤ items.length ∧
          (items.length + 1 ≤ size.max.toNat ∨ size.max.toNat = UInt32.size - 1) ∧
          .array (items.insertIdx pos d) = w) ∧
      (∀ pos w, (apply t.name element size (.array items) (.remove pos)).answer o = .ok w ↔
        pos < items.length ∧ size.min.toNat ≤ items.length - 1 ∧ .array (items.eraseIdx pos) = w) ∧
      (∀ e w, (apply t.name element size (.array items) e).answer o = .ok w →
        ∃ changed, .array changed = w ∧ size.Admits changed.length) ∧
      (∀ others, t.Accepts o (.array others) ↔
        size.Admits others.length ∧ ∀ v ∈ others, element.Accepts o v) ∧
      ∀ n, n < UInt32.size ∨ size.max.toNat < UInt32.size - 1 →
        (size.Admits n ↔ size.min.toNat ≤ n ∧ n ≤ size.max.toNat) := by
  refine ⟨fun n w => ?_, fun pos w => ?_, fun pos w => ?_, fun e w made => ?_,
    fun others => accepts_array hk, fun n => SizeBounds.admits_iff⟩
  · rw [apply_eq_ok hd, length_resize, ← SizeBounds.allows_iff, InRange, true_and]
    rfl
  · rw [apply_eq_ok hd]
    refine and_congr_right fun within => ?_
    rw [edited, List.length_insertIdx_of_le_length within, SizeBounds.Admits,
      and_iff_right (Nat.le_succ_of_le admitted.1)]
  · rw [apply_eq_ok hd]
    refine and_congr_right fun within => ?_
    have upper : items.length - 1 ≤ size.max.toNat ∨ size.max.toNat = UInt32.size - 1 :=
      admitted.2.imp_left (Nat.le_trans (Nat.sub_le _ _))
    rw [edited, List.length_eraseIdx_of_lt within, SizeBounds.Admits, and_iff_left upper]
  · obtain ⟨-, fits, rfl⟩ := (apply_eq_ok hd).1 made
    exact ⟨_, rfl, fits⟩

/-- An array of at most three items that has three of them: nothing goes in, the middle one can be
taken out. -/
theorem apply_within_bounds_full :
    ∃ t element size, (Registry.core 0).resolve (.array .bool 1 3 1) = .ok t ∧
      t.kind = .array element size ∧
      element.default.answer (Registry.core 0).oracle = .ok (.bool false) ∧ size.Admits 3 ∧
      (∀ pos w, (apply t.name element size (.array [.bool true, .bool false, .bool true])
        (.insert pos)).answer (Registry.core 0).oracle ≠ .ok w) ∧
      (apply t.name element size (.array [.bool true, .bool false, .bool true])
        (.remove 1)).answer (Registry.core 0).oracle = .ok (.array [.bool true, .bool true]) := by
  obtain ⟨t, element, size, resolved, hk, hd, min, max⟩ : ∃ t element size,
      (Registry.core 0).resolve (.array .bool 1 3 1) = .ok t ∧ t.kind = .array element size ∧
        element.default.answer (Registry.core 0).oracle = .ok (.bool false) ∧
        size.min.toNat = 1 ∧ size.max.toNat = 3 :=
    ⟨_, _, _, rfl, rfl, by rw [Ty.default]; rfl, rfl, rfl⟩
  have admitted : size.Admits [Value.bool true, .bool false, .bool true].length :=
    ⟨by rw [min]; decide, .inl (Nat.le_of_eq max.symm)⟩
  obtain ⟨-, insert, remove, -⟩ := apply_within_bounds hk hd admitted
  refine ⟨t, element, size, resolved, hk, hd, admitted, fun pos w made => ?_, ?_⟩
  · obtain ⟨-, room, -⟩ := (insert pos w).1 made
    simp only [List.length_cons, List.length_nil, max, UInt32.size] at room
    omega
  · exact (remove 1 _).2 ⟨by decide, by rw [min]; decide, rfl⟩

/-- A list of as many items as there are 32-bit numbers but one is at its upper bound, and takes one
more. -/
theorem insert_at_largest :
    ∃ t element size, (Registry.core 0).resolve (.list .bool) = .ok t ∧
      t.kind = .array element size ∧
      t.Accepts (Registry.core 0).oracle (.array (List.replicate 4294967295 (.bool false))) ∧
      size.max.toNat = 4294967295 ∧
      ∃ items, (apply t.name element size (.array (List.replicate 4294967295 (.bool false)))
          (.insert 0)).answer (Registry.core 0).oracle = .ok (.array items) ∧
        items.length = 4294967296 ∧ t.Accepts (Registry.core 0).oracle (.array items) := by
  obtain ⟨t, element, size, resolved, hk, hd, sound, min, max⟩ : ∃ t element size,
      (Registry.core 0).resolve (.list .bool) = .ok t ∧ t.kind = .array element size ∧
        element.default.answer (Registry.core 0).oracle = .ok (.bool false) ∧
        element.Accepts (Registry.core 0).oracle (.bool false) ∧
        size.min.toNat = 0 ∧ size.max.toNat = 4294967295 :=
    ⟨_, _, _, rfl, rfl, by rw [Ty.default]; rfl, Ty.accepts_iff.2 trivial, rfl, rfl⟩
  have unbounded (n : Nat) : size.Admits n := ⟨min ▸ Nat.zero_le n, .inr max⟩
  have allFalse (n : Nat) :
      t.Accepts (Registry.core 0).oracle (.array (List.replicate n (.bool false))) := by
    refine (accepts_array hk).2 ⟨unbounded _, fun v hv => ?_⟩
    rwa [List.eq_of_mem_replicate hv]
  have longer : edited (.bool false) (List.replicate 4294967295 (.bool false)) (.insert 0) =
      List.replicate 4294967296 (.bool false) := rfl
  refine ⟨t, element, size, resolved, hk, allFalse _, max, List.replicate 4294967296 (.bool false),
    ?_, List.length_replicate, allFalse _⟩
  rw [apply_eq_ok hd, longer]
  exact ⟨Nat.zero_le _, unbounded _, rfl⟩

end ArrayEdit

end TypedTree
