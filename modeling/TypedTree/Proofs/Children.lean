import TypedTree.Proofs.Acceptance
import TypedTree.Proofs.Places

/-!
# Children of accepted values

The types of the children of a value are parts of its type or, below a generic value, the instance
of its body. So a child of an accepted value is accepted by its own type, and another accepted
child in its place leaves the whole accepted.

## Main statements

* `Registry.Forms.accepts_child`: children of accepted values are accepted.
* `Registry.Forms.accepts_setChild?`: an accepted child leaves the whole accepted.
-/

namespace TypedTree

variable {o : Oracle} {w : Value} {i : Nat}

/-! ## Writing to the forms of values -/

theorem Slots.fits_setActive? {slots slots' : Slots} {fields : List (Field Ty)}
    (h : List.Forall₂ (fun s f => Field.Fits o f s) slots fields)
    (hs : Slots.setActive? w i slots = some slots')
    (hw : ∀ f ∈ fields, ∀ v, (Slots.active slots)[i]? = some (f.id, v) → f.type.Accepts o w) :
    List.Forall₂ (fun s f => Field.Fits o f s) slots' fields := by
  induction h generalizing i slots' with
  | nil => simp at hs
  | @cons s f slots fields hf hfs ih =>
    obtain ⟨id, _ | v⟩ := s
    · obtain ⟨rest, hr, rfl⟩ : ∃ rest, setActive? w i slots = some rest ∧
          (id, none) :: rest = slots' := by
        simpa using hs
      refine .cons hf (ih hr fun g hg v hv => ?_)
      exact hw g (List.mem_cons_of_mem _ hg) v (by simpa using hv)
    · obtain rfl : f.id = id := hf.1
      cases i with
      | zero =>
        obtain rfl : (f.id, some w) :: slots = slots' := by simpa using hs
        exact .cons ⟨rfl, hw f List.mem_cons_self v (by simp)⟩ hfs
      | succ i =>
        obtain ⟨rest, hr, rfl⟩ : ∃ rest, setActive? w i slots = some rest ∧
            (f.id, some v) :: rest = slots' := by
          simpa using hs
        refine .cons hf (ih hr fun g hg v hv => ?_)
        exact hw g (List.mem_cons_of_mem _ hg) v (by simpa using hv)

theorem Slots.accepts_active {slots : Slots} {fields : List (Field Ty)} {id : Ident} {v : Value}
    (h : List.Forall₂ (fun s f => Field.Fits o f s) slots fields)
    (hi : (Slots.active slots)[i]? = some (id, v)) :
    ∃ f ∈ fields, f.id = id ∧ f.type.Accepts o v := by
  induction h generalizing i with
  | nil => simp at hi
  | @cons s f slots fields hf _ ih =>
    obtain ⟨id', _ | v'⟩ := s
    · obtain ⟨g, hg, found⟩ := ih (by simpa using hi)
      exact ⟨g, List.mem_cons_of_mem _ hg, found⟩
    · cases i with
      | zero =>
        obtain ⟨rfl, rfl⟩ : id' = id ∧ v' = v := by simpa using hi
        exact ⟨f, List.mem_cons_self, hf⟩
      | succ i =>
        obtain ⟨g, hg, found⟩ := ih (by simpa using hi)
        exact ⟨g, List.mem_cons_of_mem _ hg, found⟩

theorem Fields.fits_setField? {fields fields' : Fields} {wanted : List (Ident × Ty)}
    (h : ∀ p ∈ fields.zip wanted, p.2.1 = p.1.1 ∧ p.2.2.Accepts o p.1.2)
    (hs : Ty.setField? w i fields = some fields')
    (hw : ∀ d ∈ wanted, ∀ v, fields[i]? = some (d.1, v) → d.2.Accepts o w) :
    ∀ p ∈ fields'.zip wanted, p.2.1 = p.1.1 ∧ p.2.2.Accepts o p.1.2 := by
  induction fields generalizing i fields' wanted with
  | nil => cases i <;> simp [Ty.setField?] at hs
  | cons f fields ih =>
    cases wanted with
    | nil => simp
    | cons d wanted =>
      rw [List.zip_cons_cons, List.forall_mem_cons] at h
      obtain ⟨⟨name, old⟩, tail⟩ := h
      cases i with
      | zero =>
        obtain rfl := Option.some.inj hs
        have new := hw d List.mem_cons_self f.2 (congrArg some (Prod.ext name.symm rfl))
        rw [List.zip_cons_cons, List.forall_mem_cons]
        exact ⟨⟨name, new⟩, tail⟩
      | succ i =>
        obtain ⟨rest, hr, rfl⟩ := Option.map_eq_some_iff.1 hs
        have each := ih tail hr fun d hd v hv =>
          hw d (List.mem_cons_of_mem _ hd) v (by simpa using hv)
        rw [List.zip_cons_cons, List.forall_mem_cons]
        exact ⟨⟨name, old⟩, each⟩

theorem Fields.accepts_field {fields : Fields} {wanted : List (Ident × Ty)} {f : Ident × Value}
    (h : ∀ p ∈ fields.zip wanted, p.2.1 = p.1.1 ∧ p.2.2.Accepts o p.1.2)
    (count : fields.length = wanted.length) (hi : fields[i]? = some f) :
    ∃ d ∈ wanted, d.1 = f.1 ∧ d.2.Accepts o f.2 := by
  obtain ⟨inside, rfl⟩ := List.getElem?_eq_some_iff.1 hi
  refine ⟨wanted[i], List.getElem_mem _, h (fields[i], wanted[i]) ?_⟩
  rw [List.mem_iff_getElem]
  exact ⟨i, by simpa [← count], by simp⟩

theorem Mapping.mem_answersFrom {pos : Nat} {rules : List (Rule Value)} {fallback : Target Value}
    {m : Nat × Value} (h : m ∈ Mapping.answersFrom pos rules fallback) :
    (∃ rule ∈ rules, rule.target = .fixed m.2) ∨ fallback = .fixed m.2 := by
  induction rules generalizing pos with
  | nil => cases fallback <;> simp_all [Mapping.answersFrom]
  | cons rule rules ih =>
    rcases rule with ⟨p, v | _⟩
    · rcases List.mem_cons.1 h with rfl | h
      · exact .inl ⟨_, List.mem_cons_self, rfl⟩
      · rcases ih h with ⟨rule, hr, ht⟩ | ht
        · exact .inl ⟨rule, List.mem_cons_of_mem _ hr, ht⟩
        · exact .inr ht
    · rcases ih h with ⟨rule, hr, ht⟩ | ht
      · exact .inl ⟨rule, List.mem_cons_of_mem _ hr, ht⟩
      · exact .inr ht

theorem Mapping.fits_setAnswer? {source target : Ty} {rules : List (Rule Value)}
    {fallback : Target Value} {table' : Mapping Value}
    (h : Mapping.Fits o source target ⟨rules, fallback⟩)
    (hs : Ty.setAnswer? w fallback i rules = some table') (hw : target.Accepts o w) :
    Mapping.Fits o source target table' := by
  induction rules generalizing i table' with
  | nil =>
    cases fallback <;> cases i <;> simp [eq_comm (b := table')] at hs
    subst hs
    exact ⟨by simp, hw⟩
  | cons rule rules ih =>
    obtain ⟨each, last⟩ := h
    obtain ⟨first, rest⟩ := List.forall_mem_cons.1 each
    rcases rule with ⟨p, v | _⟩
    · cases i with
      | zero =>
        obtain rfl : ⟨⟨p, .fixed w⟩ :: rules, fallback⟩ = table' := by simpa using hs
        exact ⟨List.forall_mem_cons.2 ⟨⟨first.1, hw⟩, rest⟩, last⟩
      | succ i =>
        obtain ⟨m, hm, rfl⟩ := Option.map_eq_some_iff.1 (Mapping.setAnswer?_succ .. ▸ hs)
        obtain ⟨each, last⟩ := ih ⟨rest, last⟩ hm
        exact ⟨List.forall_mem_cons.2 ⟨first, each⟩, last⟩
    · obtain ⟨m, hm, rfl⟩ := Option.map_eq_some_iff.1 (Mapping.setAnswer?_itself .. ▸ hs)
      obtain ⟨each, last⟩ := ih ⟨rest, last⟩ hm
      exact ⟨List.forall_mem_cons.2 ⟨first, each⟩, last⟩

namespace Registry.Forms

variable {r : Registry} {t s : Ty} {v v' : Value} {c : Child}

/-- The reference of a part resolves to the part. -/
theorem eq_part (h : r.Forms t) {p : Ty} (hp : p ∈ t.kind.parts) (hr : r.resolve p.ref = .ok s) :
    s = p :=
  Except.ok.inj (hr.symm.trans (h.owns_parts p hp))

/-! ## What the child at an index is -/

variable {home : Nat} {ref : TypeRef} {name : String}

theorem field_of_child {fields : List (Field Ty)} {slots : Slots}
    (h : r.Forms ⟨home, ref, name, .record fields⟩)
    (hc : Ty.child? ⟨home, ref, name, .record fields⟩ (.record slots) i = some c)
    (hr : r.resolve c.ref = .ok s) :
    ∃ id, (Slots.active slots)[i]? = some (id, c.value) ∧ ∀ f ∈ fields, f.id = id → s = f.type := by
  have place := Ty.place_of_child? hc
  simp only [Ty.places, Ty.recordPlaces, List.getElem?_map, Option.map_eq_some_iff] at place
  obtain ⟨⟨id, value⟩, active, same⟩ := place
  obtain ⟨-, rfl, found⟩ := Place.mk.inj same
  refine ⟨id, active, ?_⟩
  rintro f hf rfl
  obtain ⟨g, hg, ref⟩ := Option.map_eq_some_iff.1 found
  have unique : Kind.Formed (.record fields) := h.kind
  have same : g = f := List.inj_on_of_nodup_map unique (List.mem_of_find?_eq_some hg) hf
    (by simpa using List.find?_some hg)
  exact h.eq_part (List.mem_map_of_mem hf) (by rwa [← same, ref])

theorem declared_of_child {declared : List (Ident × Ty)} {tags : List Tag} {initial : Tag}
    {tag : Ident} {fields : Fields} (h : r.Forms ⟨home, ref, name, .variant declared tags initial⟩)
    (hc : Ty.child? ⟨home, ref, name, .variant declared tags initial⟩ (.variant tag fields) i =
      some c)
    (hr : r.resolve c.ref = .ok s) :
    ∃ id, fields[i]? = some (id, c.value) ∧ ∀ d ∈ declared, d.1 = id → s = d.2 := by
  have place := Ty.place_of_child? hc
  simp only [Ty.places, Ty.variantPlaces, List.getElem?_map, Option.map_eq_some_iff] at place
  obtain ⟨⟨id, value⟩, field, same⟩ := place
  obtain ⟨-, rfl, found⟩ := Place.mk.inj same
  refine ⟨id, field, ?_⟩
  rintro d hd rfl
  obtain ⟨e, he, ref⟩ := Option.map_eq_some_iff.1 found
  have formed : Kind.Formed (.variant declared tags initial) := h.kind
  have same : e = d :=
    List.inj_on_of_nodup_map formed.fields_nodup (List.mem_of_find?_eq_some he) hd
      (by simpa using List.find?_some he)
  exact h.eq_part (List.mem_map_of_mem hd) (by rwa [← same, ref])

theorem element_of_child {element : Ty} {size : SizeBounds} {items : List Value}
    (h : r.Forms ⟨home, ref, name, .array element size⟩)
    (hc : Ty.child? ⟨home, ref, name, .array element size⟩ (.array items) i = some c)
    (hr : r.resolve c.ref = .ok s) : s = element ∧ items[i]? = some c.value := by
  have place := Ty.place_of_child? hc
  simp only [Ty.places, Ty.arrayPlaces, List.getElem?_mapIdx, Option.map_eq_some_iff] at place
  obtain ⟨value, item, same⟩ := place
  obtain ⟨-, rfl, found⟩ := Place.mk.inj same
  exact ⟨h.eq_part List.mem_cons_self (Option.some.inj found ▸ hr), item⟩

theorem slot_of_child {slots : List Ty} {items : List Value}
    (h : r.Forms ⟨home, ref, name, .tuple slots⟩)
    (hc : Ty.child? ⟨home, ref, name, .tuple slots⟩ (.tuple items) i = some c)
    (hr : r.resolve c.ref = .ok s) : slots[i]? = some s ∧ items[i]? = some c.value := by
  have place := Ty.place_of_child? hc
  simp only [Ty.places, Ty.tuplePlaces, List.getElem?_mapIdx, Option.map_eq_some_iff] at place
  obtain ⟨value, item, same⟩ := place
  obtain ⟨-, rfl, found⟩ := Place.mk.inj same
  obtain ⟨slot, hs, slot_ref⟩ := Option.map_eq_some_iff.1 found
  obtain rfl : s = slot := h.eq_part (List.mem_of_getElem? hs) (slot_ref ▸ hr)
  exact ⟨hs, item⟩

theorem summand_of_child {summands : List Ty} {initial index : UInt32} {inner : Value}
    (h : r.Forms ⟨home, ref, name, .sum summands initial⟩)
    (hc : Ty.child? ⟨home, ref, name, .sum summands initial⟩ (.sum index inner) i = some c)
    (hr : r.resolve c.ref = .ok s) :
    i = 0 ∧ summands[index.toNat]? = some s ∧ inner = c.value := by
  have place := Ty.place_of_child? hc
  obtain ⟨first, -, value_eq, summand, hs, summand_ref⟩ :
      i = 0 ∧ Step.index index = c.step ∧ inner = c.value ∧
        ∃ summand, summands[index.toNat]? = some summand ∧ summand.ref = c.ref := by
    simpa [Ty.places, List.getElem?_singleton] using place
  obtain rfl : s = summand := h.eq_part (List.mem_of_getElem? hs) (summand_ref ▸ hr)
  exact ⟨first, hs, value_eq⟩

theorem instance_of_child {body : TypeRef} {generic : Ty} {vars : UInt32}
    {bound : List (TypeRef × Ty)} {bindings : List TypeRef} {inner : Value}
    (hc : Ty.child? ⟨home, ref, name, .generic body generic vars bound⟩ (.generic bindings inner) i =
      some c)
    (hr : r.resolve c.ref = .ok s) :
    i = 0 ∧ body.HasInstance r.oracle vars bindings s ∧ inner = c.value := by
  have place := Ty.place_of_child? hc
  cases expand : body.expand vars bindings with
  | error e => simp [Ty.places, List.getElem?_singleton, expand, Except.toOption] at place
  | ok ref =>
    obtain ⟨first, -, value_eq, rfl⟩ : i = 0 ∧ Step.index 0 = c.step ∧ inner = c.value ∧
        ref = c.ref := by
      simpa [Ty.places, List.getElem?_singleton, expand, Except.toOption] using place
    exact ⟨first, ⟨_, expand, hr⟩, value_eq⟩

theorem target_of_child {source target : Ty} {table : Mapping Value}
    (h : r.Forms ⟨home, ref, name, .map source target⟩)
    (hc : Ty.child? ⟨home, ref, name, .map source target⟩ (.map table) i = some c)
    (hr : r.resolve c.ref = .ok s) :
    s = target ∧ ∃ pos, table.answers[i]? = some (pos, c.value) := by
  have place := Ty.place_of_child? hc
  simp only [Ty.places, Ty.mapPlaces_eq, List.getElem?_map, Option.map_eq_some_iff] at place
  obtain ⟨⟨pos, value⟩, answer, same⟩ := place
  obtain ⟨-, rfl, found⟩ := Place.mk.inj same
  exact ⟨h.eq_part (by simp [Kind.parts]) (Option.some.inj found ▸ hr), pos, answer⟩

/-! ## Reading and writing -/

/-- Children of accepted values are accepted. -/
theorem accepts_child (h : r.Forms t) (hv : t.Accepts r.oracle v) (hc : t.child? v i = some c)
    (hr : r.resolve c.ref = .ok s) : s.Accepts r.oracle c.value := by
  obtain ⟨home, ref, name, kind⟩ := t
  rw [Ty.accepts_iff] at hv
  cases kind with
  | record fields =>
    cases v with
    | record slots =>
      obtain ⟨id, active, type⟩ := h.field_of_child hc hr
      obtain ⟨f, hf, named, accepted⟩ := Slots.accepts_active hv active
      rwa [type f hf named]
    | _ => simp [Ty.child?, Ty.places] at hc
  | variant declared tags initial =>
    cases v with
    | variant tag fields =>
      obtain ⟨id, field, type⟩ := h.declared_of_child hc hr
      obtain ⟨d, hd, count, each⟩ := hv
      have listed := h.kind.positions_lt d (List.mem_of_find?_eq_some hd)
      rw [← Ty.length_tagFields listed] at count
      obtain ⟨e, he, named, accepted⟩ := Fields.accepts_field each count field
      rwa [type e (Ty.mem_of_mem_tagFields he) named]
    | _ => simp [Ty.child?, Ty.places] at hc
  | array element size =>
    cases v with
    | array items =>
      obtain ⟨rfl, item⟩ := h.element_of_child hc hr
      exact hv.2 _ (List.mem_of_getElem? item)
    | _ => simp [Ty.child?, Ty.places] at hc
  | tuple slots =>
    cases v with
    | tuple items =>
      obtain ⟨slot, item⟩ := h.slot_of_child hc hr
      obtain ⟨inside, rfl⟩ := List.getElem?_eq_some_iff.1 slot
      obtain ⟨inside', item⟩ := List.getElem?_eq_some_iff.1 item
      exact item ▸ List.Forall₂.get hv inside' inside
    | _ => simp [Ty.child?, Ty.places] at hc
  | sum summands initial =>
    cases v with
    | sum index inner =>
      obtain ⟨-, summand, rfl⟩ := h.summand_of_child hc hr
      obtain ⟨other, same, accepted⟩ := hv
      rwa [Option.some.inj (summand.symm.trans same)]
    | _ => simp [Ty.child?, Ty.places] at hc
  | generic body generic vars bound =>
    cases v with
    | generic bindings inner =>
      obtain ⟨-, own, rfl⟩ := instance_of_child hc hr
      obtain ⟨-, -, other, same, accepted⟩ := hv
      rwa [own.unique same]
    | _ => simp [Ty.child?, Ty.places] at hc
  | map source target =>
    cases v with
    | map table =>
      obtain ⟨rfl, pos, answer⟩ := h.target_of_child hc hr
      rcases Mapping.mem_answersFrom (List.mem_of_getElem? answer) with ⟨rule, hr, ht⟩ | ht
      · exact (ht ▸ (hv.1 rule hr).2 : Target.Fits _ _ _ (.fixed c.value))
      · exact (ht ▸ hv.2 : Target.Fits _ _ _ (.fixed c.value))
    | _ => simp [Ty.child?, Ty.places] at hc
  | _ => simp [Ty.child?, Ty.places] at hc

/-- An accepted child in the place of another leaves the whole accepted. -/
theorem accepts_setChild? (h : r.Forms t) (hv : t.Accepts r.oracle v) (hc : t.child? v i = some c)
    (hr : r.resolve c.ref = .ok s) (hw : s.Accepts r.oracle w)
    (hs : t.setChild? v i w = some v') : t.Accepts r.oracle v' := by
  obtain ⟨home, ref, name, kind⟩ := t
  rw [Ty.accepts_iff] at hv ⊢
  cases kind with
  | record fields =>
    cases v with
    | record slots =>
      obtain ⟨slots', written, rfl⟩ := Option.map_eq_some_iff.1 hs
      obtain ⟨id, active, type⟩ := h.field_of_child hc hr
      refine Slots.fits_setActive? hv written ?_
      intro f hf old at_index
      obtain ⟨rfl, -⟩ := Prod.mk.inj (Option.some.inj (active.symm.trans at_index))
      rwa [← type f hf rfl]
    | _ => simp [Ty.child?, Ty.places] at hc
  | variant declared tags initial =>
    cases v with
    | variant tag fields =>
      obtain ⟨fields', written, rfl⟩ := Option.map_eq_some_iff.1 hs
      obtain ⟨id, field, type⟩ := h.declared_of_child hc hr
      obtain ⟨d, hd, count, each⟩ := hv
      refine ⟨d, hd, by simp [(Fields.lawfulWrite fields).members_write written, count], ?_⟩
      refine Fields.fits_setField? each written ?_
      intro e he old at_index
      obtain ⟨rfl, -⟩ := Prod.mk.inj (Option.some.inj (field.symm.trans at_index))
      rwa [← type e (Ty.mem_of_mem_tagFields he) rfl]
    | _ => simp [Ty.child?, Ty.places] at hc
  | array element size =>
    cases v with
    | array items =>
      obtain ⟨items', written, rfl⟩ := Option.map_eq_some_iff.1 hs
      obtain ⟨-, rfl⟩ : i < items.length ∧ items.set i w = items' := by
        simpa [Ty.setItem?] using written
      obtain ⟨rfl, -⟩ := h.element_of_child hc hr
      refine ⟨by simpa using hv.1, ?_⟩
      intro x hx
      rcases List.mem_or_eq_of_mem_set hx with old | rfl
      · exact hv.2 x old
      · exact hw
    | _ => simp [Ty.child?, Ty.places] at hc
  | tuple slots =>
    cases v with
    | tuple items =>
      obtain ⟨items', written, rfl⟩ := Option.map_eq_some_iff.1 hs
      obtain ⟨-, rfl⟩ : i < items.length ∧ items.set i w = items' := by
        simpa [Ty.setItem?] using written
      obtain ⟨slot, -⟩ := h.slot_of_child hc hr
      refine List.forall₂_of_length_eq_of_get (by simpa using List.Forall₂.length_eq hv) ?_
      intro j inside inside'
      have before : j < items.length := by simpa using inside
      by_cases hj : i = j
      · subst hj
        obtain ⟨_, rfl⟩ := List.getElem?_eq_some_iff.1 slot
        simpa using hw
      · simpa [List.getElem_set_ne hj] using List.Forall₂.get hv before inside'
    | _ => simp [Ty.child?, Ty.places] at hc
  | sum summands initial =>
    cases v with
    | sum index inner =>
      obtain ⟨rfl, summand, -⟩ := h.summand_of_child hc hr
      obtain rfl := Option.some.inj hs
      exact ⟨s, summand, hw⟩
    | _ => simp [Ty.child?, Ty.places] at hc
  | generic body generic vars bound =>
    cases v with
    | generic bindings inner =>
      obtain ⟨rfl, own, -⟩ := instance_of_child hc hr
      obtain rfl := Option.some.inj hs
      exact ⟨hv.1, hv.2.1, s, own, hw⟩
    | _ => simp [Ty.child?, Ty.places] at hc
  | map source target =>
    cases v with
    | map table =>
      obtain ⟨table', written, rfl⟩ := Option.map_eq_some_iff.1 hs
      obtain ⟨rfl, -⟩ := h.target_of_child hc hr
      exact Mapping.fits_setAnswer? hv written hw
    | _ => simp [Ty.child?, Ty.places] at hc
  | _ => simp [Ty.child?, Ty.places] at hc

end Registry.Forms

end TypedTree
