import TypedTree.Proofs.Nodes

/-!
# Steps of accepted values

The children of an accepted value are behind different steps: names of record and tag fields do not
repeat, items and entries are numbered, and a sum or a generic value has one child only. So a step
taken from a child leads back to the child, and index and step of a child determine each other.

## Main definitions

* `Ty.steps`: the steps to the places of a value.

## Main statements

* `Ty.nodup_steps`: the steps to the places of an accepted value are different.
* `Node.Valid.behind?_of_child?`: the step of a child leads to the child.
-/

namespace TypedTree

variable {o : Oracle} {v : Value} {i j : Nat}

/-- Numbered places with the same step have the same number. -/
theorem Place.indexStep?_inj {s : Step} (hi : Place.indexStep? i = some s)
    (hj : Place.indexStep? j = some s) : i = j := by
  cases s with
  | field id => exact absurd hi (indexStep?_ne_field i id)
  | index n => rw [indexStep?_eq_some_iff.1 hi, indexStep?_eq_some_iff.1 hj]

/-- Answers stand at rising positions. -/
theorem Mapping.positions_sublist (pos : Nat) (rules : List (Rule Value))
    (fallback : Target Value) :
    ((answersFrom pos rules fallback).map (·.1)).Sublist
      (List.range' pos (rules.length + 1)) := by
  induction rules generalizing pos with
  | nil => cases fallback <;> simp [answersFrom]
  | cons rule rules ih =>
    rw [List.length_cons, List.range'_succ]
    rcases rule with ⟨p, w | _⟩
    · exact (ih (pos + 1)).cons_cons pos
    · exact (ih (pos + 1)).cons pos

theorem Slots.active_sublist (slots : Slots) :
    ((active slots).map (·.1)).Sublist (slots.map (·.1)) := by
  induction slots with
  | nil => exact .slnil
  | cons slot slots ih =>
    rcases slot with ⟨id, _ | w⟩
    · exact ih.cons id
    · exact ih.cons_cons id

/-- The slots of a record value bear the names of the fields. -/
theorem Slots.names_of_fits {slots : Slots} {fields : List (Field Ty)}
    (h : List.Forall₂ (fun s f => Field.Fits o f s) slots fields) :
    slots.map (·.1) = fields.map (·.id) := by
  induction h with
  | nil => rfl
  | cons fits _ ih => rw [List.map_cons, List.map_cons, ih, fits.1]

/-- The fields of a variant value bear the names of the fields of its tag. -/
theorem Fields.names_of_fits {fields : Fields} {wanted : List (Ident × Ty)}
    (count : fields.length = wanted.length)
    (h : ∀ p ∈ fields.zip wanted, p.2.1 = p.1.1 ∧ p.2.2.Accepts o p.1.2) :
    fields.map (·.1) = wanted.map (·.1) := by
  induction fields generalizing wanted with
  | nil => simp [List.length_eq_zero_iff.1 count.symm]
  | cons f fields ih =>
    obtain ⟨w, wanted, rfl⟩ := List.exists_cons_of_length_eq_add_one count.symm
    rw [List.zip_cons_cons, List.forall_mem_cons] at h
    rw [List.map_cons, List.map_cons, ih (Nat.succ.inj count) h.2, h.1.1]

namespace Ty

/-- The steps to the places of a value, in order. -/
def steps (t : Ty) (v : Value) : List Step :=
  (t.places v).filterMap (·.step?)

/-! ## One kind at a time -/

variable {home : Nat} {ref : TypeRef} {name : String}

theorem nodup_numbered {numbers : List Nat} (h : numbers.Nodup) :
    (numbers.filterMap Place.indexStep?).Nodup :=
  h.filterMap fun _ _ _ hi hj => Place.indexStep?_inj hi hj

theorem nodup_named {names : List Ident} (h : names.Nodup) : (names.map Step.field).Nodup :=
  h.map fun _ _ same => Step.field.inj same

theorem steps_record (fields : List (Field Ty)) (slots : Slots) :
    steps ⟨home, ref, name, .record fields⟩ (.record slots) =
      (slots.active.map (·.1)).map .field := by
  simp [steps, places, recordPlaces, List.filterMap_map, Function.comp_def]

theorem steps_variant (declared : List (Ident × Ty)) (tags : List Tag) (initial : Tag)
    (tag : Ident) (fields : Fields) :
    steps ⟨home, ref, name, .variant declared tags initial⟩ (.variant tag fields) =
      (fields.map (·.1)).map .field := by
  simp [steps, places, variantPlaces, List.filterMap_map, Function.comp_def]

/-- The items of arrays and tuples are numbered. -/
theorem steps_items (label : Nat → Option TypeRef) (items : List Value) :
    (items.mapIdx fun i v => (⟨Place.indexStep? i, v, label i⟩ : Place)).filterMap (·.step?) =
      (List.range items.length).filterMap Place.indexStep? := by
  have numbered := congrArg (List.filterMap id) (step_items label items)
  rwa [List.filterMap_map, List.filterMap_map] at numbered

theorem steps_map (source target : Ty) (table : Mapping Value) :
    steps ⟨home, ref, name, .map source target⟩ (.map table) =
      (table.answers.map (·.1)).filterMap Place.indexStep? := by
  simp [steps, places, mapPlaces_eq, List.filterMap_map]

/-- The steps to the places of an accepted value are different. -/
theorem nodup_steps {t : Ty} (formed : t.kind.Formed) (h : t.Accepts o v) :
    (t.steps v).Nodup := by
  obtain ⟨home, ref, name, kind⟩ := t
  rw [accepts_iff] at h
  cases kind with
  | record fields =>
    cases v with
    | record slots =>
      have names : (fields.map (·.id)).Nodup := formed
      rw [← Slots.names_of_fits h] at names
      rw [steps_record]
      exact nodup_named (names.sublist (Slots.active_sublist slots))
    | _ => exact h.elim
  | variant declared tags initial =>
    have formed : Kind.VariantFormed declared tags initial := formed
    cases v with
    | variant tag fields =>
      obtain ⟨d, found, count, each⟩ := h
      have listed : d ∈ tags := List.mem_of_find?_eq_some found
      have names := nodup_tagFields formed.fields_nodup (formed.positions_nodup d listed)
      have count' : fields.length = (tagFields declared d).length := by
        rw [count, length_tagFields (formed.positions_lt d listed)]
      rw [steps_variant, Fields.names_of_fits count' each]
      exact nodup_named names
    | _ => exact h.elim
  | array element size =>
    cases v with
    | array items =>
      show (List.filterMap _ (arrayPlaces element items)).Nodup
      rw [arrayPlaces, steps_items fun _ => some element.ref]
      exact nodup_numbered List.nodup_range
    | _ => exact h.elim
  | tuple slots =>
    cases v with
    | tuple items =>
      show (List.filterMap _ (tuplePlaces slots items)).Nodup
      rw [tuplePlaces, steps_items fun i => slots[i]?.map (·.ref)]
      exact nodup_numbered List.nodup_range
    | _ => exact h.elim
  | map source target =>
    cases v with
    | map table =>
      rw [steps_map]
      exact nodup_numbered ((List.nodup_range').sublist (Mapping.positions_sublist 0 _ _))
    | _ => exact h.elim
  | sum summands initial =>
    cases v with
    | sum index inner => simp [steps, places]
    | _ => exact h.elim
  | generic body generic vars bound =>
    cases v with
    | generic bindings inner => simp [steps, places]
    | _ => exact h.elim
  | _ => simp [steps, places]

/-! ## Steps and indices -/

/-- Where steps are different, the step of a child is found at its index. -/
theorem childIndex?_of_child? {t : Ty} {c : Child} (nodup : (t.steps v).Nodup)
    (h : t.child? v i = some c) : t.childIndex? v c.step = some i := by
  obtain ⟨inside, place⟩ := List.getElem?_eq_some_iff.1 (place_of_child? h)
  rw [childIndex?_eq]
  refine List.findIdx?_eq_some_iff_getElem.2 ⟨inside, by simp [place], ?_⟩
  intro j before found
  have distinct := List.pairwise_iff_getElem.1 (List.pairwise_filterMap.1 nodup) j i
    (Nat.lt_trans before inside) inside before
  have step : (t.places v)[j].step? = some c.step := by simpa using found
  have step' : (t.places v)[i].step? = some c.step := by rw [place]
  exact distinct c.step step c.step step' rfl

end Ty

/-- From a valid node, the step of a child leads to the child. -/
theorem Node.Valid.behind?_of_child? {home : Nat} {n : Node} {c : Child}
    (h : n.Valid (.core home)) (hc : n.child? i = some c) : n.behind? c.step = some (i, c) := by
  have nodup := Ty.nodup_steps (Registry.forms_of_owns h.owned).kind h.accepted
  exact Node.behind?_eq_some.2 ⟨Ty.childIndex?_of_child? nodup hc, hc⟩

end TypedTree
