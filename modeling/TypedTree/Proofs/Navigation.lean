import TypedTree.Proofs.Comparison
import TypedTree.Proofs.Runs
import TypedTree.Proofs.Steps

/-!
# Children by index, by step and in a list

Children are counted, listed, read at an index, found behind a step and replaced at an index. All of
this looks at the places of a value, but a place is a child only if there is a step to it and a type
for it. At an accepted value there is a type for every place, and a step unless the value is wider
than a step can number, so there every place is a child and the ways to children agree.

## Main definitions

* `Value.width`: how many numbered places a value can have.
* `Ty.Navigable`: what the ways to children agree on.

## Main statements

* `Registry.Forms.exists_type_of_mem_places`: the types at the places of an accepted value resolve.
* `Registry.navigable`: at accepted values the ways to children agree.
-/

namespace TypedTree

/-- How many places of a value are numbered at most: the items of an array or tuple, and the entries
of a mapping. -/
def Value.width : Value → Nat
  | .array items | .tuple items => items.length
  | .map table => table.rules.length + 1
  | _ => 0

/-- There is a step to every number in range. -/
theorem Place.exists_indexStep? {i : Nat} (h : i < UInt32.size) :
    ∃ s, Place.indexStep? i = some s :=
  ⟨.index (.ofNat i), if_pos h⟩

variable {r : Registry} {t s : Ty} {v w : Value} {p : Place} {i : Nat} {c : Child}

/-! ## Every place is a child -/

/-- There is a step to every place of a value that is not too wide. -/
theorem Ty.exists_step_of_mem_places (narrow : v.width ≤ UInt32.size) (hp : p ∈ t.places v) :
    ∃ s, p.step? = some s := by
  unfold places at hp
  split at hp
  · obtain ⟨slot, -, rfl⟩ := List.mem_map.1 hp
    exact ⟨_, rfl⟩
  · obtain ⟨f, -, rfl⟩ := List.mem_map.1 hp
    exact ⟨_, rfl⟩
  · obtain ⟨i, inside, rfl⟩ := List.mem_mapIdx.1 hp
    exact Place.exists_indexStep? (Nat.lt_of_lt_of_le inside narrow)
  · obtain ⟨i, inside, rfl⟩ := List.mem_mapIdx.1 hp
    exact Place.exists_indexStep? (Nat.lt_of_lt_of_le inside narrow)
  · obtain rfl := List.mem_singleton.1 hp
    exact ⟨_, rfl⟩
  · obtain rfl := List.mem_singleton.1 hp
    exact ⟨_, rfl⟩
  · rename_i source target table _
    rw [mapPlaces_eq] at hp
    obtain ⟨m, hm, rfl⟩ := List.mem_map.1 hp
    have position := (Mapping.positions_sublist 0 table.rules table.fallback).subset
      (List.mem_map_of_mem hm)
    have inside : m.1 < table.rules.length + 1 := by simpa using position
    exact Place.exists_indexStep? (Nat.lt_of_lt_of_le inside narrow)
  · cases hp

namespace Registry.Forms

/-- The types at the places of an accepted value resolve. -/
theorem exists_type_of_mem_places (h : r.Forms t) (hv : t.Accepts r.oracle v)
    (hp : p ∈ t.places v) : ∃ ref s, p.ref? = some ref ∧ r.resolve ref = .ok s := by
  obtain ⟨home, ref, name, kind⟩ := t
  rw [Ty.accepts_iff] at hv
  have part (s : Ty) (hs : s ∈ kind.parts) :
      ∃ ref s', some s.ref = some ref ∧ r.resolve ref = .ok s' :=
    ⟨s.ref, s, rfl, h.owns_parts s hs⟩
  cases kind with
  | record fields =>
    cases v with
    | record slots =>
      obtain ⟨slot, hs, rfl⟩ := List.mem_map.1 hp
      obtain ⟨i, hi⟩ := List.getElem?_of_mem hs
      obtain ⟨f, hf, named, -⟩ := Slots.accepts_active hv hi
      have found : fields.find? (·.id == f.id) = some f := find?_key h.kind hf
      rw [named] at found
      simpa [found] using part f.type (List.mem_map_of_mem hf)
    | _ => simp [Ty.places] at hp
  | variant declared tags initial =>
    cases v with
    | variant tag fields =>
      obtain ⟨f, hf, rfl⟩ := List.mem_map.1 hp
      obtain ⟨i, hi⟩ := List.getElem?_of_mem hf
      obtain ⟨d, hd, count, each⟩ := hv
      have formed : Kind.VariantFormed declared tags initial := h.kind
      rw [← Ty.length_tagFields (formed.positions_lt d (List.mem_of_find?_eq_some hd))] at count
      obtain ⟨e, he, named, -⟩ := Fields.accepts_field each count hi
      have listed := Ty.mem_of_mem_tagFields he
      have found : declared.find? (·.1 == e.1) = some e := find?_key formed.fields_nodup listed
      rw [named] at found
      simpa [found] using part e.2 (List.mem_map_of_mem listed)
    | _ => simp [Ty.places] at hp
  | array element size =>
    cases v with
    | array items =>
      obtain ⟨i, -, rfl⟩ := List.mem_mapIdx.1 hp
      exact part element List.mem_cons_self
    | _ => simp [Ty.places] at hp
  | tuple slots =>
    cases v with
    | tuple items =>
      obtain ⟨i, inside, rfl⟩ := List.mem_mapIdx.1 hp
      have inside' : i < slots.length := by rwa [← List.Forall₂.length_eq hv]
      simpa [inside'] using part slots[i] (List.getElem_mem inside')
    | _ => simp [Ty.places] at hp
  | sum summands initial =>
    cases v with
    | sum index inner =>
      obtain rfl := List.mem_singleton.1 hp
      obtain ⟨s, summand, -⟩ := hv
      simpa [summand] using part s (List.mem_of_getElem? summand)
    | _ => simp [Ty.places] at hp
  | generic body generic vars bound =>
    cases v with
    | generic bindings inner =>
      obtain rfl := List.mem_singleton.1 hp
      obtain ⟨-, -, s, ⟨ref, expand, resolve⟩, -⟩ := hv
      exact ⟨ref, s, by simp [expand, Except.toOption], resolve⟩
    | _ => simp [Ty.places] at hp
  | map source target =>
    cases v with
    | map table =>
      have hp : p ∈ Ty.mapPlaces target table := hp
      rw [Ty.mapPlaces_eq] at hp
      obtain ⟨m, -, rfl⟩ := List.mem_map.1 hp
      exact part target (by simp [Kind.parts])
    | _ => simp [Ty.places] at hp
  | _ => simp [Ty.places] at hp

/-- Every place of an accepted value that is not too wide is a child. -/
theorem exists_child_of_mem_places (h : r.Forms t) (hv : t.Accepts r.oracle v)
    (narrow : v.width ≤ UInt32.size) (hp : p ∈ t.places v) : ∃ c, p.child? = some c := by
  obtain ⟨step, hs⟩ := Ty.exists_step_of_mem_places narrow hp
  obtain ⟨ref, -, hr, -⟩ := h.exists_type_of_mem_places hv hp
  exact ⟨⟨step, p.value, ref⟩, by simp [Place.child?, hs, hr]⟩

end Registry.Forms

/-! ## The ways to children -/

/-- What the ways to the children of a value agree on. -/
structure Ty.Navigable (r : Registry) (t : Ty) (v : Value) : Prop where
  /-- The list of children has the child at every index. -/
  getElem?_children : ∀ i, (t.children v)[i]? = t.child? v i
  childCount_eq : t.childCount v = (t.children v).length
  isSome_child? : ∀ i, (t.child? v i).isSome = true ↔ i < t.childCount v
  nodup_steps : ((t.children v).map (·.step)).Nodup
  childIndex?_eq_some : ∀ s i, t.childIndex? v s = some i ↔ ∃ c, t.child? v i = some c ∧ c.step = s
  /-- The type of a child resolves and accepts the child. -/
  typed : ∀ {i c}, t.child? v i = some c →
    ∃ s, r.resolve c.ref = .ok s ∧ (s.check c.value).answer r.oracle = .ok ()
  /-- Replacing a child by a value of its type gives a value of the whole type that differs in this
  child only. -/
  replaced : ∀ {i c s w}, t.child? v i = some c → r.resolve c.ref = .ok s →
    (s.check w).answer r.oracle = .ok () →
    ∃ v', t.withChild v i w = .ok v' ∧ (t.check v').answer r.oracle = .ok () ∧
      t.child? v' i = some { c with value := w } ∧ ∀ j, i ≠ j → t.child? v' j = t.child? v j
  /-- Replacing a child by itself changes nothing. -/
  unchanged : ∀ {i c}, t.child? v i = some c → t.withChild v i c.value = .ok v

namespace Ty

theorem withChild_eq_ok {v' : Value} :
    t.withChild v i w = .ok v' ↔ t.setChild? v i w = some v' := by
  rw [withChild]
  cases t.setChild? v i w <;> simp

/-- Where every place is a child, the list of children has the child at every index. -/
theorem getElem?_children (h : ∀ p ∈ t.places v, ∃ c, p.child? = some c) (i : Nat) :
    (t.children v)[i]? = t.child? v i := by
  rw [children, child?]
  generalize t.places v = ps at h
  induction ps generalizing i with
  | nil => simp
  | cons p ps ih =>
    obtain ⟨⟨c, hc⟩, rest⟩ := List.forall_mem_cons.1 h
    rw [List.filterMap_cons_some hc]
    cases i with
    | zero => simp [hc]
    | succ i => simpa using ih i rest

theorem steps_children (t : Ty) (v : Value) :
    ((t.children v).map (·.step)).Sublist (t.steps v) := by
  rw [children, steps, List.map_filterMap]
  induction t.places v with
  | nil => simp
  | cons p ps ih =>
    obtain ⟨_ | step, value, _ | ref⟩ := p
    · simpa [Place.child?] using ih
    · simpa [Place.child?] using ih
    · simpa [Place.child?] using ih.cons step
    · simpa [Place.child?] using ih.cons_cons step

end Ty

namespace Registry

/-- The ways to the children of an accepted value agree, unless the value is too wide. -/
theorem Forms.navigable_of_accepts (h : r.Forms t) (hv : t.Accepts r.oracle v)
    (narrow : v.width ≤ UInt32.size) : t.Navigable r v := by
  have every (p : Place) (hp : p ∈ t.places v) : ∃ c, p.child? = some c :=
    h.exists_child_of_mem_places hv narrow hp
  have at_index (i : Nat) : (t.children v)[i]? = t.child? v i := Ty.getElem?_children every i
  have isSome (i : Nat) : (t.child? v i).isSome = true ↔ i < t.childCount v := by
    rw [Ty.child?, Ty.childCount_eq]
    constructor
    · intro some
      obtain ⟨c, hc⟩ := Option.isSome_iff_exists.1 some
      exact (List.getElem?_eq_some_iff.1 (Ty.place_of_child? hc)).1
    · intro inside
      obtain ⟨c, hc⟩ := every _ (List.getElem_mem inside)
      simp [inside, hc]
  have nodup := Ty.nodup_steps h.kind hv
  have typed {i : Nat} {c : Child} (hc : t.child? v i = some c) :
      ∃ s, r.resolve c.ref = .ok s ∧ s.Accepts r.oracle c.value := by
    obtain ⟨ref, s, same, resolve⟩ :=
      h.exists_type_of_mem_places hv (List.mem_of_getElem? (Ty.place_of_child? hc))
    obtain rfl := Option.some.inj same
    exact ⟨s, resolve, h.accepts_child hv hc resolve⟩
  refine ⟨at_index, ?_, isSome, nodup.sublist (Ty.steps_children t v), ?_, typed, ?_, ?_⟩
  · rw [Ty.childCount_eq]
    refine (List.length_filterMap_eq_countP ..).symm ▸ (List.countP_eq_length.2 ?_).symm
    intro p hp
    obtain ⟨c, hc⟩ := every p hp
    simp [hc]
  · intro s i
    constructor
    · intro found
      have behind := found
      rw [Ty.childIndex?_eq] at behind
      obtain ⟨inside, step, -⟩ := List.findIdx?_eq_some_iff_getElem.1 behind
      rw [← Ty.childCount_eq] at inside
      obtain ⟨c, hc⟩ := Option.isSome_iff_exists.1 ((isSome i).2 inside)
      have same := Ty.childIndex?_of_child? nodup hc
      exact ⟨c, hc, Ty.childIndex?_inj same found⟩
    · rintro ⟨c, hc, rfl⟩
      exact Ty.childIndex?_of_child? nodup hc
  · intro i c s w hc resolve hw
    obtain ⟨v', written⟩ := Ty.exists_setChild? hc w
    refine ⟨v', Ty.withChild_eq_ok.2 written, h.accepts_setChild? hv hc resolve hw written, ?_, ?_⟩
    · exact Ty.child?_setChild? written hc
    · intro j other
      exact Ty.child?_setChild?_of_ne written other
  · intro i c hc
    exact Ty.withChild_eq_ok.2 (Ty.setChild?_value hc)

/-- Over the core registry, with any policy for what does not resolve, the ways to the children of
an accepted value agree. -/
theorem navigable {home : Nat} {policy : FailurePolicy} {ref : TypeRef}
    (resolved : (core home).resolveBy policy ref = .ok t)
    (accepted : (t.check v).answer (core home).oracle = .ok ())
    (narrow : v.width ≤ UInt32.size) : t.Navigable (core home) v := by
  rcases owns_or_isFailure resolved with owned | ⟨e, failure⟩
  · exact (forms_of_owns owned).navigable_of_accepts accepted narrow
  · rw [← Ty.Accepts, Ty.accepts_iff, failure] at accepted
    exact accepted.elim

/-- A mapping whose middle rule answers with its input: only the first and the last answer are
children, behind the steps to their positions. -/
theorem navigable_mapping :
    ∃ t, (core 0).resolveBy .strict (.map .bool .bool) = .ok t ∧
      let v : Value := .map ⟨[⟨.exact (.bool true), .fixed (.bool false)⟩,
        ⟨.exact (.bool false), .itself⟩], .fixed (.bool true)⟩
      t.Navigable (core 0) v ∧ t.childCount v = 2 ∧
        ∃ c, t.child? v 1 = some c ∧ c.step = .index 2 := by
  have resolved : (core 0).resolveBy .strict (.map .bool .bool) = .ok _ := rfl
  refine ⟨_, resolved, ?_⟩
  intro v
  have truth (b : Bool) : ((core 0).primitiveType Core.boolPrimitive).Accepts (core 0).oracle
      (.bool b) := rfl
  have own : (core 0).Owns ((core 0).primitiveType Core.boolPrimitive) := rfl
  have same : Target.Fits (core 0).oracle ((core 0).primitiveType Core.boolPrimitive)
      ((core 0).primitiveType Core.boolPrimitive) .itself := by
    simp [Target.Fits, oracle_compare, compare_self own, Inclusion.isSubtype]
  have accepted : Kind.Holds (core 0).oracle (.map ((core 0).primitiveType Core.boolPrimitive)
      ((core 0).primitiveType Core.boolPrimitive)) v := by
    refine ⟨?_, truth true⟩
    simp only [List.forall_mem_cons]
    exact ⟨⟨truth true, truth false⟩, ⟨truth false, same⟩, by simp⟩
  have ways := navigable resolved (Ty.accepts_iff.2 accepted) (by decide)
  exact ⟨ways, rfl, (ways.childIndex?_eq_some (.index 2) 1).1 (by decide)⟩

end Registry

end TypedTree
