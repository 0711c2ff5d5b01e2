import TypedTree.Ty.Child
import Mathlib.Data.List.Basic

/-!
# Writing to places

`Ty.setChild?` puts a value into one place of a compound value. Records, variants, arrays, tuples
and mappings each count their places in a way of their own, but they follow the same laws: the
written place shows the new value and all others what they showed, writing twice is writing the
second time, and writing what is there changes nothing.

## Main definitions

* `LawfulWrite`: the laws, for a whole with labelled members.
* `Place.put`: a place with another value.

## Main statements

* `Ty.lawfulWrite`: writing to the places of a value is lawful.
* `Ty.places_setChild?`: the places after a write.
* `Ty.setChild?_value`, `Ty.setChild?_setChild?`: writing what is there, and writing twice.
-/

namespace TypedTree

/-- The laws of writing to the members of a whole one at a time. Labels stay as they are. -/
structure LawfulWrite {σ Λ : Type} (members : σ → List (Λ × Value))
    (write : Value → Nat → σ → Option σ) (s : σ) : Prop where
  isSome_write : ∀ w i, (write w i s).isSome = true ↔ i < (members s).length
  members_write : ∀ {w i s'}, write w i s = some s' →
    members s' = (members s).modify i fun m => (m.1, w)
  write_write : ∀ {w i s'} x, write w i s = some s' → write x i s' = write x i s
  write_member : ∀ {i m}, (members s)[i]? = some m → write m.2 i s = some s

namespace LawfulWrite

variable {σ τ Λ Μ : Type} {members : σ → List (Λ × Value)} {write : Value → Nat → σ → Option σ}
  {members' : τ → List (Μ × Value)} {write' : Value → Nat → τ → Option τ}

/-- The laws carry over to a whole of which another is the content, with labels of its own. -/
theorem embed {s : σ} (h : LawfulWrite members write s) (content : σ → τ) (label : Λ → Μ)
    (hm : ∀ s, members' (content s) = (members s).map fun m => (label m.1, m.2))
    (hw : ∀ w i s, write' w i (content s) = (write w i s).map content) :
    LawfulWrite members' write' (content s) where
  isSome_write w i := by
    simpa [hm, hw] using h.isSome_write w i
  members_write {w i s'} hs := by
    obtain ⟨s'', written, rfl⟩ := Option.map_eq_some_iff.1 (hw .. ▸ hs)
    rw [hm, hm, h.members_write written]
    apply List.ext_getElem?
    intro j
    by_cases hj : i = j <;> simp [hj, Function.comp_def]
  write_write {w i s'} x hs := by
    obtain ⟨s'', written, rfl⟩ := Option.map_eq_some_iff.1 (hw .. ▸ hs)
    rw [hw, hw, h.write_write x written]
  write_member {i m} hi := by
    obtain ⟨m', hm', rfl⟩ := Option.map_eq_some_iff.1 (List.getElem?_map .. ▸ hm s ▸ hi)
    rw [hw, h.write_member hm', Option.map_some]

end LawfulWrite

namespace Slots

variable (id : Ident) (v w : Value) (i : Nat) (s : Slots)

@[simp] theorem active_nil : active [] = [] := rfl

@[simp] theorem active_cons_none : active ((id, none) :: s) = active s := rfl

@[simp] theorem active_cons_some : active ((id, some v) :: s) = (id, v) :: active s := rfl

@[simp] theorem setActive?_nil : setActive? w i [] = none := by
  cases i <;> rfl

@[simp] theorem setActive?_cons_none :
    setActive? w i ((id, none) :: s) = (setActive? w i s).map ((id, none) :: ·) := by
  cases i <;> rfl

@[simp] theorem setActive?_zero :
    setActive? w 0 ((id, some v) :: s) = some ((id, some w) :: s) := rfl

@[simp] theorem setActive?_succ :
    setActive? w (i + 1) ((id, some v) :: s) = (setActive? w i s).map ((id, some v) :: ·) := rfl

/-- Writing to the active fields of a record. -/
theorem lawfulWrite : LawfulWrite active setActive? s where
  isSome_write w i := by
    induction s generalizing i with
    | nil => simp
    | cons slot s ih =>
      rcases slot with ⟨id, _ | v⟩
      · simp [ih]
      · cases i <;> simp [ih]
  members_write {w i s'} h := by
    induction s generalizing i s' with
    | nil => simp at h
    | cons slot s ih =>
      rcases slot with ⟨id, _ | v⟩
      · obtain ⟨s'', hs, rfl⟩ : ∃ s'', setActive? w i s = some s'' ∧ (id, none) :: s'' = s' := by
          simpa using h
        simp [ih hs]
      · cases i with
        | zero =>
          obtain rfl : (id, some w) :: s = s' := by simpa using h
          simp
        | succ i =>
          obtain ⟨s'', hs, rfl⟩ : ∃ s'', setActive? w i s = some s'' ∧ (id, some v) :: s'' = s' := by
            simpa using h
          simp [ih hs]
  write_write {w i s'} x h := by
    induction s generalizing i s' with
    | nil => simp at h
    | cons slot s ih =>
      rcases slot with ⟨id, _ | v⟩
      · obtain ⟨s'', hs, rfl⟩ : ∃ s'', setActive? w i s = some s'' ∧ (id, none) :: s'' = s' := by
          simpa using h
        simp [ih hs]
      · cases i with
        | zero =>
          obtain rfl : (id, some w) :: s = s' := by simpa using h
          simp
        | succ i =>
          obtain ⟨s'', hs, rfl⟩ : ∃ s'', setActive? w i s = some s'' ∧ (id, some v) :: s'' = s' := by
            simpa using h
          simp [ih hs]
  write_member {i m} h := by
    induction s generalizing i with
    | nil => simp at h
    | cons slot s ih =>
      rcases slot with ⟨id, _ | v⟩
      · simp [ih (by simpa using h)]
      · cases i with
        | zero =>
          obtain rfl : (id, v) = m := by simpa using h
          simp
        | succ i => simp [ih (by simpa using h)]

end Slots

/-- Writing to the fields of a variant. -/
theorem Fields.lawfulWrite (s : Fields) :
    LawfulWrite (fun fields : Fields => fields) Ty.setField? s where
  isSome_write w i := by
    induction s generalizing i with
    | nil => cases i <;> simp [Ty.setField?]
    | cons f s ih => cases i <;> simp [Ty.setField?, ih]
  members_write {w i s'} h := by
    induction s generalizing i s' with
    | nil => cases i <;> simp [Ty.setField?] at h
    | cons f s ih =>
      cases i with
      | zero => simpa [Ty.setField?, eq_comm] using h
      | succ i =>
        obtain ⟨s'', hs, rfl⟩ := Option.map_eq_some_iff.1 h
        simp [ih hs]
  write_write {w i s'} x h := by
    induction s generalizing i s' with
    | nil => cases i <;> simp [Ty.setField?] at h
    | cons f s ih =>
      cases i with
      | zero =>
        obtain rfl := Option.some.inj h
        rfl
      | succ i =>
        obtain ⟨s'', hs, rfl⟩ := Option.map_eq_some_iff.1 h
        simp [Ty.setField?, ih hs]
  write_member {i m} h := by
    induction s generalizing i with
    | nil => simp at h
    | cons f s ih =>
      cases i with
      | zero =>
        obtain rfl : f = m := by simpa using h
        rfl
      | succ i => simp [Ty.setField?, ih (by simpa using h)]

/-- Writing to the items of an array or tuple. -/
theorem Items.lawfulWrite (s : List Value) :
    LawfulWrite (fun items : List Value => items.mapIdx fun i v => (i, v)) Ty.setItem? s where
  isSome_write w i := by
    by_cases h : i < s.length <;> simp [Ty.setItem?, h]
  members_write {w i s'} h := by
    obtain ⟨-, rfl⟩ : i < s.length ∧ s.set i w = s' := by simpa [Ty.setItem?] using h
    apply List.ext_getElem?
    intro j
    by_cases hj : i = j
    · subst hj
      by_cases hi : i < s.length <;> simp [hi]
    · simp [hj]
  write_write {w i s'} x h := by
    obtain ⟨hi, rfl⟩ : i < s.length ∧ s.set i w = s' := by simpa [Ty.setItem?] using h
    simp [Ty.setItem?]
  write_member {i m} h := by
    obtain ⟨v, hv, rfl⟩ : ∃ v, s[i]? = some v ∧ (i, v) = m := by simpa using h
    obtain ⟨hi, rfl⟩ := List.getElem?_eq_some_iff.1 hv
    simp [Ty.setItem?, hi]

/-- Writing to the only content of a whole. -/
theorem Content.lawfulWrite (v : Value) :
    LawfulWrite (fun v => [((), v)]) (fun w i _ => if i = 0 then some w else none) v where
  isSome_write w i := by simp
  members_write {w i s'} h := by
    obtain ⟨rfl, rfl⟩ : i = 0 ∧ w = s' := by simpa using h
    rfl
  write_write x h := by simp
  write_member {i m} h := by
    cases i <;> simp at h
    simp [← h]

namespace Mapping

/-- The fixed answers of rules and of the fallback behind them, with their positions; the first
rule stands at position `pos`. -/
def answersFrom (pos : Nat) : List (Rule Value) → Target Value → List (Nat × Value)
  | [], .fixed v => [(pos, v)]
  | [], .itself => []
  | ⟨_, .fixed v⟩ :: rules, fallback => (pos, v) :: answersFrom (pos + 1) rules fallback
  | ⟨_, .itself⟩ :: rules, fallback => answersFrom (pos + 1) rules fallback

/-- The fixed answers of a mapping with their positions among the entries. -/
def answers (table : Mapping Value) : List (Nat × Value) :=
  answersFrom 0 table.rules table.fallback

/-- Writing to the fixed answers of a mapping. -/
def setAnswer? (w : Value) (i : Nat) (table : Mapping Value) : Option (Mapping Value) :=
  Ty.setAnswer? w table.fallback i table.rules

variable (pos i : Nat) (p : Pattern Value) (v w : Value) (f : Target Value)
  (rules : List (Rule Value))

@[simp] theorem setAnswer?_nil_itself : Ty.setAnswer? w .itself i [] = none := by
  cases i <;> rfl

@[simp] theorem setAnswer?_nil_zero :
    Ty.setAnswer? w (.fixed v) 0 [] = some ⟨[], .fixed w⟩ := rfl

@[simp] theorem setAnswer?_nil_succ : Ty.setAnswer? w (.fixed v) (i + 1) [] = none := rfl

@[simp] theorem setAnswer?_itself :
    Ty.setAnswer? w f i (⟨p, .itself⟩ :: rules) =
      (Ty.setAnswer? w f i rules).map fun m => { m with rules := ⟨p, .itself⟩ :: m.rules } := by
  cases i <;> rfl

@[simp] theorem setAnswer?_zero :
    Ty.setAnswer? w f 0 (⟨p, .fixed v⟩ :: rules) = some ⟨⟨p, .fixed w⟩ :: rules, f⟩ := rfl

@[simp] theorem setAnswer?_succ :
    Ty.setAnswer? w f (i + 1) (⟨p, .fixed v⟩ :: rules) =
      (Ty.setAnswer? w f i rules).map fun m => { m with rules := ⟨p, .fixed v⟩ :: m.rules } := rfl

/-- Writing to the fixed answers of rules and a fallback. -/
theorem lawfulWrite_from :
    LawfulWrite (fun table : Mapping Value => answersFrom pos table.rules table.fallback)
      setAnswer? ⟨rules, f⟩ where
  isSome_write w i := by
    simp only [setAnswer?]
    induction rules generalizing i pos with
    | nil => cases f <;> cases i <;> simp [answersFrom]
    | cons rule rules ih =>
      rcases rule with ⟨p, v | _⟩
      · cases i <;> simp [answersFrom, ih (pos + 1)]
      · simp [answersFrom, ih (pos + 1)]
  members_write {w i s'} h := by
    simp only [setAnswer?] at h ⊢
    induction rules generalizing i pos s' with
    | nil =>
      cases f <;> cases i <;> simp [eq_comm (b := s')] at h
      simp [h, answersFrom]
    | cons rule rules ih =>
      rcases rule with ⟨p, v | _⟩
      · cases i with
        | zero =>
          obtain rfl : ⟨⟨p, .fixed w⟩ :: rules, f⟩ = s' := by simpa using h
          simp [answersFrom]
        | succ i =>
          obtain ⟨m, hm, rfl⟩ := Option.map_eq_some_iff.1 (setAnswer?_succ .. ▸ h)
          simp [answersFrom, ih (pos + 1) hm]
      · obtain ⟨m, hm, rfl⟩ := Option.map_eq_some_iff.1 (setAnswer?_itself .. ▸ h)
        simp [answersFrom, ih (pos + 1) hm]
  write_write {w i s'} x h := by
    simp only [setAnswer?] at h ⊢
    induction rules generalizing i s' with
    | nil =>
      cases f <;> cases i <;> simp [eq_comm (b := s')] at h
      simp [h]
    | cons rule rules ih =>
      rcases rule with ⟨p, v | _⟩
      · cases i with
        | zero =>
          obtain rfl : ⟨⟨p, .fixed w⟩ :: rules, f⟩ = s' := by simpa using h
          simp
        | succ i =>
          obtain ⟨m, hm, rfl⟩ := Option.map_eq_some_iff.1 (setAnswer?_succ .. ▸ h)
          simp [ih hm]
      · obtain ⟨m, hm, rfl⟩ := Option.map_eq_some_iff.1 (setAnswer?_itself .. ▸ h)
        simp [ih hm]
  write_member {i m} h := by
    simp only [setAnswer?] at h ⊢
    induction rules generalizing i pos with
    | nil =>
      cases f <;> cases i <;> simp [answersFrom] at h ⊢
      simp [← h]
    | cons rule rules ih =>
      rcases rule with ⟨p, v | _⟩
      · cases i with
        | zero =>
          obtain rfl : (pos, v) = m := by simpa [answersFrom] using h
          simp
        | succ i => simp [ih (pos + 1) (by simpa [answersFrom] using h)]
      · simp [ih (pos + 1) (by simpa [answersFrom] using h)]

end Mapping

namespace Place

/-- The step to a place and the type of its child. -/
def label (p : Place) : Option Step × Option TypeRef :=
  (p.step?, p.ref?)

/-- A place with another value. -/
def put (w : Value) (p : Place) : Place :=
  { p with value := w }

end Place

namespace Ty

variable (t : Ty) (v : Value)

/-- The values in the places of a value, with the labels of the places. -/
def members (v : Value) : List ((Option Step × Option TypeRef) × Value) :=
  (t.places v).map fun p => (p.label, p.value)

/-- The place of an answer at some position, if it is fixed. -/
def answerPlace? (target : Ty) (e : Nat × Entry Value) : Option Place :=
  match e.2.target with
  | .fixed v => some ⟨Place.indexStep? e.1, v, some target.ref⟩
  | .itself => none

theorem mapPlaces_eq (target : Ty) (table : Mapping Value) :
    mapPlaces target table =
      table.answers.map fun m => ⟨Place.indexStep? m.1, m.2, some target.ref⟩ := by
  obtain ⟨rules, fallback⟩ := table
  have from_pos (pos : Nat) :
      ((⟨rules, fallback⟩ : Mapping Value).entries.mapIdx fun i e => (i + pos, e)).filterMap
          (answerPlace? target) =
        (Mapping.answersFrom pos rules fallback).map fun m =>
          ⟨Place.indexStep? m.1, m.2, some target.ref⟩ := by
    induction rules generalizing pos with
    | nil =>
      cases fallback <;>
        simp [Mapping.entries, Entry.ofFallback, Mapping.answersFrom, answerPlace?]
    | cons rule rules ih =>
      have next := ih (pos + 1)
      simp only [Mapping.entries] at next ⊢
      rcases rule with ⟨p, v | _⟩ <;>
        simpa [Mapping.answersFrom, answerPlace?, Entry.ofRule, List.mapIdx_cons,
          List.filterMap_cons, Nat.add_assoc, Nat.add_comm 1] using next
  exact from_pos 0

/-- Writing to the places of a value is lawful. -/
theorem lawfulWrite : LawfulWrite t.members (fun w i v => t.setChild? v i w) v := by
  obtain ⟨home, ref, name, kind⟩ := t
  have nowhere (hm : members ⟨home, ref, name, kind⟩ v = [])
      (hw : ∀ i w, setChild? ⟨home, ref, name, kind⟩ v i w = none) :
      LawfulWrite (members ⟨home, ref, name, kind⟩)
        (fun w i v => setChild? ⟨home, ref, name, kind⟩ v i w) v :=
    ⟨by simp [hm, hw], by simp [hw], by simp [hw], by simp [hm]⟩
  cases kind with
  | record fields =>
    cases v with
    | record slots =>
      exact (Slots.lawfulWrite slots).embed Value.record
        (fun id => (some (Step.field id), (fields.find? (·.id == id)).map (·.type.ref)))
        (fun s => by simp [members, places, recordPlaces, Place.label, Function.comp_def])
        (fun w i s => rfl)
    | _ => exact nowhere rfl fun _ _ => rfl
  | variant declared tags initial =>
    cases v with
    | variant tag fields =>
      exact (Fields.lawfulWrite fields).embed (Value.variant tag)
        (fun id => (some (Step.field id), (declared.find? (·.1 == id)).map (·.2.ref)))
        (fun s => by simp [members, places, variantPlaces, Place.label, Function.comp_def])
        (fun w i s => rfl)
    | _ => exact nowhere rfl fun _ _ => rfl
  | array element size =>
    cases v with
    | array items =>
      exact (Items.lawfulWrite items).embed Value.array
        (fun i => (Place.indexStep? i, some element.ref))
        (fun s => by
          simp [members, places, arrayPlaces, Place.label, List.mapIdx_eq_zipIdx_map, Function.comp_def])
        (fun w i s => rfl)
    | _ => exact nowhere rfl fun _ _ => rfl
  | tuple slots =>
    cases v with
    | tuple items =>
      exact (Items.lawfulWrite items).embed Value.tuple
        (fun i => (Place.indexStep? i, slots[i]?.map (·.ref)))
        (fun s => by
          simp [members, places, tuplePlaces, Place.label, List.mapIdx_eq_zipIdx_map, Function.comp_def])
        (fun w i s => rfl)
    | _ => exact nowhere rfl fun _ _ => rfl
  | map source target =>
    cases v with
    | map table =>
      exact (Mapping.lawfulWrite_from 0 table.fallback table.rules).embed Value.map
        (fun i => (Place.indexStep? i, some target.ref))
        (fun s => by
          simp [members, places, mapPlaces_eq, Mapping.answers, Place.label, Function.comp_def])
        (fun w i s => rfl)
    | _ => exact nowhere rfl fun _ _ => rfl
  | sum summands initial =>
    cases v with
    | sum index inner =>
      exact (Content.lawfulWrite inner).embed (Value.sum index)
        (fun _ => (some (Step.index index), summands[index.toNat]?.map (·.ref)))
        (fun s => rfl) (fun w i s => by cases i <;> rfl)
    | _ => exact nowhere rfl fun _ _ => rfl
  | generic body inner vars bound =>
    cases v with
    | generic bindings inner =>
      exact (Content.lawfulWrite inner).embed (Value.generic bindings)
        (fun _ => (some (Step.index 0), (body.expand vars bindings).toOption))
        (fun s => rfl) (fun w i s => by cases i <;> rfl)
    | _ => exact nowhere rfl fun _ _ => rfl
  | _ => exact nowhere rfl fun _ _ => rfl

variable {t v} {i : Nat} {w v' : Value}

theorem place_of_child? {c : Child} (h : t.child? v i = some c) :
    (t.places v)[i]? = some ⟨some c.step, c.value, some c.ref⟩ := by
  obtain ⟨⟨step?, value, ref?⟩, hp, hc⟩ := Option.bind_eq_some_iff.1 h
  obtain ⟨step, rfl, hc⟩ := Option.bind_eq_some_iff.1 hc
  obtain ⟨ref, rfl, hc⟩ := Option.bind_eq_some_iff.1 hc
  obtain rfl := Option.some.inj hc
  exact hp

/-- Different steps have different indices. -/
theorem childIndex?_inj {s s' : Step} (hi : t.childIndex? v s = some i)
    (hi' : t.childIndex? v s' = some i) : s = s' := by
  rw [childIndex?_eq] at hi hi'
  obtain ⟨inside, found, -⟩ := List.findIdx?_eq_some_iff_getElem.1 hi
  obtain ⟨inside', found', -⟩ := List.findIdx?_eq_some_iff_getElem.1 hi'
  simp only [beq_iff_eq] at found found'
  exact Option.some.inj (found.symm.trans found')

/-- A write goes through at the index of a child. -/
theorem exists_setChild? {c : Child} (h : t.child? v i = some c) (w : Value) :
    ∃ v', t.setChild? v i w = some v' := by
  obtain ⟨inside, -⟩ := List.getElem?_eq_some_iff.1 (place_of_child? h)
  exact Option.isSome_iff_exists.1 (((t.lawfulWrite v).isSome_write w i).2 (by simpa [members]))

/-- After a write, the written place has the new value and all else is as before. -/
theorem places_setChild? (h : t.setChild? v i w = some v') :
    t.places v' = (t.places v).modify i (Place.put w) := by
  have written : t.members v' = (t.members v).modify i fun m => (m.1, w) :=
    (t.lawfulWrite v).members_write h
  -- A place is its member again, so the law for members says it for places.
  have place (v : Value) :
      t.places v = (t.members v).map fun m => ⟨m.1.1, m.2, m.1.2⟩ := by
    simp [members, Place.label, Function.comp_def]
  rw [place v', written, place v]
  apply List.ext_getElem?
  intro j
  by_cases hj : i = j <;> simp [hj, Place.put, Function.comp_def]

/-- A step leads to the same index before and after a write. -/
theorem childIndex?_setChild? (h : t.setChild? v i w = some v') (s : Step) :
    t.childIndex? v' s = t.childIndex? v s := by
  have steps (ps : List Place) (i : Nat) :
      (ps.modify i (Place.put w)).findIdx? (·.step? == some s) =
        ps.findIdx? (·.step? == some s) := by
    induction ps generalizing i with
    | nil => simp
    | cons p ps ih => cases i <;> simp [List.findIdx?_cons, Place.put, ih]
  rw [childIndex?_eq, places_setChild? h, steps, childIndex?_eq]

theorem child?_setChild? {c : Child} (h : t.setChild? v i w = some v')
    (hc : t.child? v i = some c) : t.child? v' i = some { c with value := w } := by
  simp [child?, places_setChild? h, place_of_child? hc, Place.child?, Place.put]

theorem child?_setChild?_of_ne {j : Nat} (h : t.setChild? v i w = some v') (hj : i ≠ j) :
    t.child? v' j = t.child? v j := by
  simp [child?, places_setChild? h, hj]

/-- Writing what is there changes nothing. -/
theorem setChild?_value {c : Child} (hc : t.child? v i = some c) :
    t.setChild? v i c.value = some v :=
  (t.lawfulWrite v).write_member
    (show (t.members v)[i]? = some ((some c.step, some c.ref), c.value) by
      simp [members, place_of_child? hc, Place.label])

/-- Writing twice is writing the second time. -/
theorem setChild?_setChild? (h : t.setChild? v i w = some v') (x : Value) :
    t.setChild? v' i x = t.setChild? v i x :=
  (t.lawfulWrite v).write_write x h

end Ty

end TypedTree
