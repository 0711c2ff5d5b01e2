import TypedTree.Path
import TypedTree.Subtyping

/-!
# Children

A compound value has children that steps lead to: the active fields of a record, the fields of a
variant, the items of an array or tuple, the content of a sum or of a generic value, and the
fixed answers of a mapping. A type and a value together have a list of `Place`s, one per child in
order, from which children are read. How many there are and at which index a step leads to one
follows from the kind alone, without a look at the list; so does `Ty.withChild`, which writes to
the place at an index.

A step to an item or an entry is a 32-bit number, so a place beyond that range has none. The
step to the content of a sum is the index of the summand, and to the content of a generic value
zero.

## Main definitions

* `Place`, `Ty.places`: where the children are.
* `Child`, `Ty.child?`, `Ty.children`: the children.
* `Ty.childCount`, `Ty.childIndex?`: their number, and the index of the child behind a step.
* `Ty.withChild`: the value with another child.

## Main statements

* `Ty.childCount_eq`, `Ty.childIndex?_eq`: number and indices are those of the places.
-/

namespace TypedTree

/-- A place of a value where a child is. -/
structure Place where
  /-- The step that leads to it, if there is one. -/
  step? : Option Step
  value : Value
  /-- The type of the child, if the type of the whole has one for it. -/
  ref? : Option TypeRef

/-- A child of a value. -/
structure Child where
  step : Step
  value : Value
  /-- The type of the child. -/
  ref : TypeRef

namespace Place

/-- The child at a place that has both a step and a type. -/
def child? (p : Place) : Option Child := do
  let step ← p.step?
  let ref ← p.ref?
  some ⟨step, p.value, ref⟩

/-- The step to a numbered place. -/
def indexStep? (i : Nat) : Option Step :=
  if i < UInt32.size then some (.index (.ofNat i)) else none

/-- A place is behind the step that bears its number. -/
theorem indexStep?_eq_some_iff {i : Nat} {n : UInt32} :
    indexStep? i = some (.index n) ↔ i = n.toNat := by
  have small := n.toNat_lt_size
  unfold indexStep?
  constructor
  · intro found
    split at found
    · rename_i inside
      have same : UInt32.ofNat i = n := Step.index.inj (Option.some.inj found)
      rw [← same, UInt32.toNat_ofNat_of_lt' inside]
    · cases found
  · rintro rfl
    rw [if_pos small, UInt32.ofNat_toNat]

/-- No number of a place makes its step the name of a field. -/
theorem indexStep?_ne_field (i : Nat) (id : Ident) : indexStep? i ≠ some (.field id) := by
  unfold indexStep?
  split <;> simp

end Place

namespace Ty

/-- The places of the active fields of a record. -/
def recordPlaces (fields : List (Field Ty)) (slots : Slots) : List Place :=
  slots.active.map fun s =>
    ⟨some (.field s.1), s.2, (fields.find? (·.id == s.1)).map (·.type.ref)⟩

/-- The places of the fields of a variant. -/
def variantPlaces (declared : List (Ident × Ty)) (fields : Fields) : List Place :=
  fields.map fun f =>
    ⟨some (.field f.1), f.2, (declared.find? (·.1 == f.1)).map (·.2.ref)⟩

/-- The places of the items of an array. -/
def arrayPlaces (element : Ty) (items : List Value) : List Place :=
  items.mapIdx fun i v => ⟨Place.indexStep? i, v, some element.ref⟩

/-- The places of the items of a tuple. -/
def tuplePlaces (slots : List Ty) (items : List Value) : List Place :=
  items.mapIdx fun i v => ⟨Place.indexStep? i, v, slots[i]?.map (·.ref)⟩

/-- The places of the fixed answers of a mapping, by position among the entries. -/
def mapPlaces (target : Ty) (table : Mapping Value) : List Place :=
  (table.entries.mapIdx fun i e => (i, e)).filterMap fun e =>
    match e.2.target with
    | .fixed v => some ⟨Place.indexStep? e.1, v, some target.ref⟩
    | .itself => none

/-- The places of a value at a type, in order. -/
def places (t : Ty) (v : Value) : List Place :=
  match t.kind, v with
  | .record fields, .record slots => recordPlaces fields slots
  | .variant declared _ _, .variant _ fields => variantPlaces declared fields
  | .array element _, .array items => arrayPlaces element items
  | .tuple slots, .tuple items => tuplePlaces slots items
  | .sum summands _, .sum index inner =>
    [⟨some (.index index), inner, summands[index.toNat]?.map (·.ref)⟩]
  | .generic body _ vars _, .generic bindings inner =>
    [⟨some (.index 0), inner, (body.expand vars bindings).toOption⟩]
  | .map _ target, .map table => mapPlaces target table
  | _, _ => []

/-- A fixed answer is smaller than the mapping. -/
theorem sizeOf_lt_of_mem_mapPlaces {target : Ty} {table : Mapping Value} {p : Place}
    (h : p ∈ mapPlaces target table) : sizeOf p.value < sizeOf table := by
  obtain ⟨⟨i, e⟩, hm, hp⟩ := List.mem_filterMap.1 h
  obtain ⟨j, hj, hje⟩ := List.mem_mapIdx.1 hm
  obtain ⟨rfl, rfl⟩ := Prod.mk.inj hje
  have he : table.entries[j] ∈ table.entries := List.getElem_mem hj
  generalize table.entries[j] = e at he hp
  have hlt : sizeOf e.target < sizeOf table := by
    rcases table with ⟨rules, fallback⟩
    rcases List.mem_append.1 he with he | he
    · obtain ⟨⟨pattern, target⟩, hr, rfl⟩ := List.mem_map.1 he
      have hs := List.sizeOf_lt_of_mem hr
      simp only [Entry.ofRule, Rule.mk.sizeOf_spec, Mapping.mk.sizeOf_spec] at hs ⊢
      omega
    · obtain rfl := List.mem_singleton.1 he
      simp only [Entry.ofFallback, Mapping.mk.sizeOf_spec]
      omega
  split at hp
  · rename_i v hv
    obtain rfl := Option.some.inj hp
    rw [show e.target = .fixed v from hv, Target.fixed.sizeOf_spec] at hlt
    exact Nat.lt_of_le_of_lt (Nat.le_add_left ..) hlt
  · cases hp

/-- A child is smaller than the whole. -/
theorem sizeOf_lt_of_mem_places {t : Ty} {v : Value} {p : Place} (h : p ∈ t.places v) :
    sizeOf p.value < sizeOf v := by
  unfold places at h
  split at h
  · obtain ⟨⟨id, w⟩, hs, rfl⟩ := List.mem_map.1 h
    obtain ⟨⟨id', content⟩, hc, he⟩ := List.mem_filterMap.1 hs
    cases content with
    | none => cases he
    | some w' =>
      obtain ⟨rfl, rfl⟩ := Prod.mk.inj (Option.some.inj he)
      have := List.sizeOf_lt_of_mem hc
      simp only [Prod.mk.sizeOf_spec, Option.some.sizeOf_spec, Value.record.sizeOf_spec] at this ⊢
      omega
  · obtain ⟨⟨id, w⟩, hs, rfl⟩ := List.mem_map.1 h
    have := List.sizeOf_lt_of_mem hs
    simp only [Prod.mk.sizeOf_spec, Value.variant.sizeOf_spec] at this ⊢
    omega
  · obtain ⟨i, hi, rfl⟩ := List.mem_mapIdx.1 h
    have := List.sizeOf_lt_of_mem (List.getElem_mem hi)
    simp only [Value.array.sizeOf_spec]
    omega
  · obtain ⟨i, hi, rfl⟩ := List.mem_mapIdx.1 h
    have := List.sizeOf_lt_of_mem (List.getElem_mem hi)
    simp only [Value.tuple.sizeOf_spec]
    omega
  · obtain rfl := List.mem_singleton.1 h
    simp only [Value.sum.sizeOf_spec]
    omega
  · obtain rfl := List.mem_singleton.1 h
    simp only [Value.generic.sizeOf_spec]
    omega
  · have := sizeOf_lt_of_mem_mapPlaces h
    simp only [Value.map.sizeOf_spec]
    omega
  · cases h

/-- The positions of the fixed answers of a mapping among its entries. -/
def answerPositions (table : Mapping Value) : List Nat :=
  ((table.entries.mapIdx fun i e => (i, e)).filter fun e =>
    match e.2.target with
    | .fixed _ => true
    | .itself => false).map (·.1)

/-- How many children a value has. -/
def childCount (t : Ty) (v : Value) : Nat :=
  match t.kind, v with
  | .record _, .record slots => (Slots.active slots).length
  | .variant .., .variant _ fields => fields.length
  | .array .., .array items => items.length
  | .tuple _, .tuple items => items.length
  | .sum .., .sum .. => 1
  | .generic .., .generic .. => 1
  | .map .., .map table => (answerPositions table).length
  | _, _ => 0

/-- The child at an index. -/
def child? (t : Ty) (v : Value) (i : Nat) : Option Child :=
  (t.places v)[i]?.bind Place.child?

/-- All children. -/
def children (t : Ty) (v : Value) : List Child :=
  (t.places v).filterMap Place.child?

theorem sizeOf_lt_of_mem_children {t : Ty} {v : Value} {c : Child} (h : c ∈ t.children v) :
    sizeOf c.value < sizeOf v := by
  obtain ⟨p, hp, hc⟩ := List.mem_filterMap.1 h
  obtain ⟨step, -, hc⟩ := Option.bind_eq_some_iff.1 hc
  obtain ⟨ref, -, hc⟩ := Option.bind_eq_some_iff.1 hc
  obtain rfl := Option.some.inj hc
  exact sizeOf_lt_of_mem_places hp

/-- The index of the first child behind a step. -/
def childIndex? (t : Ty) (v : Value) (step : Step) : Option Nat :=
  match t.kind, v with
  | .record _, .record slots => do
    let wanted ← step.field?
    (Slots.active slots).findIdx? (·.1 == wanted)
  | .variant .., .variant _ fields => do
    let wanted ← step.field?
    fields.findIdx? (·.1 == wanted)
  | .array .., _ | .tuple _, _ => do
    let index ← step.index?
    if index.toNat < t.childCount v then some index.toNat else none
  | .sum .., .sum summand _ => do
    let index ← step.index?
    if index = summand then some 0 else none
  | .generic .., .generic .. => if step = .index 0 then some 0 else none
  | .map .., .map table => do
    let index ← step.index?
    (answerPositions table).findIdx? (· == index.toNat)
  | _, _ => none

/-! ## Number and indices of places -/

theorem step_answers (target : Ty) (table : Mapping Value) :
    (mapPlaces target table).map (·.step?) = (answerPositions table).map Place.indexStep? := by
  rw [mapPlaces, answerPositions]
  induction table.entries.mapIdx fun i e => (i, e) with
  | nil => rfl
  | cons e rest ih => rcases e with ⟨i, pattern, _ | _⟩ <;> simp [ih]

theorem step_items (label : Nat → Option TypeRef) (items : List Value) :
    (items.mapIdx fun i v => (⟨Place.indexStep? i, v, label i⟩ : Place)).map (·.step?) =
      (List.range items.length).map Place.indexStep? := by
  rw [List.range_eq_range', ← List.zipIdx_map_snd, List.mapIdx_eq_zipIdx_map, List.map_map,
    List.map_map]
  rfl

/-- Steps lead to the same index in lists of places with the same steps. -/
theorem findIdx?_of_steps {α : Type} {places : List Place} {labels : List α}
    {stepOf : α → Option Step} (steps : places.map (·.step?) = labels.map stepOf) (step : Step) :
    places.findIdx? (·.step? == some step) = labels.findIdx? (stepOf · == some step) := by
  have found := congrArg (List.findIdx? (· == some step)) steps
  rwa [List.findIdx?_map, List.findIdx?_map] at found

/-- Where places are numbered, a step leads to the place with its number. -/
theorem findIdx?_numbered {places : List Place} {numbers : List Nat}
    (steps : places.map (·.step?) = numbers.map Place.indexStep?) (step : Step) :
    places.findIdx? (·.step? == some step) =
      step.index?.bind fun n => numbers.findIdx? (· == n.toNat) := by
  rw [findIdx?_of_steps steps]
  cases step with
  | field id => simp [Step.index?, List.findIdx?_eq_none_iff, Place.indexStep?_ne_field]
  | index n =>
    have same (i : Nat) : (Place.indexStep? i == some (.index n)) = (i == n.toNat) := by
      rw [Bool.eq_iff_iff, beq_iff_eq, beq_iff_eq, Place.indexStep?_eq_some_iff]
    simp [Step.index?, same]

/-- Where places are named, a step leads to the place with its name. -/
theorem findIdx?_named {places : List Place} {members : List (Ident × Value)}
    (steps : places.map (·.step?) = members.map fun m => some (.field m.1)) (step : Step) :
    places.findIdx? (·.step? == some step) =
      step.field?.bind fun id => members.findIdx? (·.1 == id) := by
  rw [findIdx?_of_steps steps]
  cases step with
  | index n => simp [Step.field?, List.findIdx?_eq_none_iff]
  | field id =>
    have same (name : Ident) : (some (Step.field name) == some (.field id)) = (name == id) := by
      rw [Bool.eq_iff_iff, beq_iff_eq, beq_iff_eq, Option.some.injEq, Step.field.injEq]
    simp [Step.field?, same]

theorem findIdx?_range (count n : Nat) :
    (List.range count).findIdx? (· == n) = if n < count then some n else none := by
  split
  · rename_i inside
    refine List.findIdx?_eq_some_iff_getElem.2 ⟨by simpa, by simp, fun j before => ?_⟩
    simpa using Nat.ne_of_lt before
  · rename_i outside
    simp only [List.findIdx?_eq_none_iff, List.mem_range, beq_eq_false_iff_ne]
    omega

theorem findIdx?_singleton (p : Place) (step : Step) :
    [p].findIdx? (·.step? == some step) = if p.step? = some step then some 0 else none := by
  simp [List.findIdx?_cons]

/-- There are as many children as places. -/
theorem childCount_eq (t : Ty) (v : Value) : t.childCount v = (t.places v).length := by
  obtain ⟨home, ref, name, kind⟩ := t
  cases kind with
  | map source target =>
    cases v with
    | map table =>
      have steps := congrArg List.length (step_answers target table)
      simpa [childCount, places] using steps.symm
    | _ => rfl
  | _ => cases v <;> simp [childCount, places, recordPlaces, variantPlaces, arrayPlaces, tuplePlaces]

/-- A step leads to the first place behind it. -/
theorem childIndex?_eq (t : Ty) (v : Value) (step : Step) :
    t.childIndex? v step = (t.places v).findIdx? (·.step? == some step) := by
  obtain ⟨home, ref, name, kind⟩ := t
  cases kind with
  | record fields =>
    cases v with
    | record slots => exact (findIdx?_named (by simp [places, recordPlaces]) step).symm
    | _ => rfl
  | variant declared tags initial =>
    cases v with
    | variant tag fields => exact (findIdx?_named (by simp [places, variantPlaces]) step).symm
    | _ => rfl
  | array element size =>
    cases v with
    | array items =>
      refine .trans ?_ (findIdx?_numbered (step_items (fun _ => some element.ref) items) step).symm
      simp only [findIdx?_range]
      rfl
    | _ => cases step <;> rfl
  | tuple slots =>
    cases v with
    | tuple items =>
      refine .trans ?_ (findIdx?_numbered (step_items (fun i => slots[i]?.map (·.ref)) items) step).symm
      simp only [findIdx?_range]
      rfl
    | _ => cases step <;> rfl
  | sum summands initial =>
    cases v with
    | sum summand inner =>
      refine .trans ?_ (findIdx?_singleton _ step).symm
      cases step <;> simp [childIndex?, Step.index?, eq_comm]
    | _ => rfl
  | generic body inner vars bound =>
    cases v with
    | generic bindings inner =>
      refine .trans ?_ (findIdx?_singleton _ step).symm
      simp [childIndex?, eq_comm]
    | _ => rfl
  | map source target =>
    cases v with
    | map table => exact (findIdx?_numbered (step_answers target table) step).symm
    | _ => rfl
  | _ => rfl

/-- Put a value into the field at an index. -/
def setField? (child : Value) : Nat → Fields → Option Fields
  | _, [] => none
  | 0, f :: rest => some ((f.1, child) :: rest)
  | i + 1, f :: rest => (setField? child i rest).map (f :: ·)

/-- Put a value into the item at an index. -/
def setItem? (child : Value) (i : Nat) (items : List Value) : Option (List Value) :=
  if i < items.length then some (items.set i child) else none

/-- Put a value into the fixed answer at an index, counting fixed answers only, the fallback
last. -/
def setAnswer? (child : Value) (fallback : Target Value) :
    Nat → List (Rule Value) → Option (Mapping Value)
  | i, [] =>
    match i, fallback with
    | 0, .fixed _ => some ⟨[], .fixed child⟩
    | _, _ => none
  | i, ⟨p, .itself⟩ :: rules =>
    (setAnswer? child fallback i rules).map fun m => { m with rules := ⟨p, .itself⟩ :: m.rules }
  | 0, ⟨p, .fixed _⟩ :: rules => some ⟨⟨p, .fixed child⟩ :: rules, fallback⟩
  | i + 1, ⟨p, .fixed v⟩ :: rules =>
    (setAnswer? child fallback i rules).map fun m => { m with rules := ⟨p, .fixed v⟩ :: m.rules }

/-- Put a value into the place at an index, if the value has the form of the type. -/
def setChild? (t : Ty) (v : Value) (i : Nat) (child : Value) : Option Value :=
  match t.kind, v with
  | .record _, .record slots => (Slots.setActive? child i slots).map .record
  | .variant .., .variant tag fields => (setField? child i fields).map (.variant tag)
  | .array .., .array items => (setItem? child i items).map .array
  | .tuple _, .tuple items => (setItem? child i items).map .tuple
  | .sum .., .sum index _ => if i = 0 then some (.sum index child) else none
  | .generic .., .generic bindings _ => if i = 0 then some (.generic bindings child) else none
  | .map .., .map table => (setAnswer? child table.fallback i table.rules).map .map
  | _, _ => none

/-- The value with another child at an index. Neither the child nor the result is checked. -/
def withChild (t : Ty) (v : Value) (i : Nat) (child : Value) : Except TypeError Value :=
  match t.setChild? v i child with
  | some w => .ok w
  | none => .error (.invalidValue t.name ("no child at index " ++ toString i))

end Ty

end TypedTree
