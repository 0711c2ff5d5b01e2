import TypedTree.Value
import Mathlib.Data.List.Perm.Basic

/-!
# Payloads

One layer of a value, with anything in the places of its parts. A scalar has no layer: it stands
directly where it is used. With values in its places a payload is a value, and with references to
memory in them it is what a cell of memory holds.

## Main definitions

* `Scalar`: a value that is no payload.
* `Payload`: one layer; `Payload.map` puts other things into its places.
* `Payload.parts`: everything in its places.
* `Payload.part?`, `Payload.setPart`: the places that can be reached for writing.
* `Payload.value`, `Value.payload?`: the value of a layer, and the layer of a value.
-/

namespace TypedTree

/-- Plain data that stands directly where it is used. -/
inductive Scalar where
  | void
  | bool (b : Bool)
  | int (n : Int64)
  | rational (q : Rational)
  | ident (id : Ident)
  deriving DecidableEq

/-- The value of a scalar. -/
def Scalar.value : Scalar → Value
  | .void => .void
  | .bool b => .bool b
  | .int n => .int n
  | .rational q => .rational q
  | .ident id => .ident id

/-- One layer of a value. The references of a generic value are whole data of the layer. -/
inductive Payload (ω : Type) where
  | text (s : String)
  | array (items : List ω)
  | tuple (items : List ω)
  | record (slots : List (Ident × Option ω))
  | variant (tag : Ident) (fields : List (Ident × ω))
  | sum (index : UInt32) (content : ω)
  | generic (bindings : List TypeRef) (inner : ω)
  | mapping (table : Mapping ω)

/-- The forms that allow changes in place. -/
inductive Form where
  | array
  | tuple
  | record
  | variant
  | sum
  | generic
  | mapping
  deriving DecidableEq, Repr

section Parts

variable {α β γ : Type}

/-- Put other things into the places of a pattern. -/
def Pattern.map (f : α → β) : Pattern α → Pattern β
  | .exact input => .exact (f input)
  | .range min max => .range (f min) (f max)

/-- Put something else into the place of a target. -/
def Target.map (f : α → β) : Target α → Target β
  | .fixed answer => .fixed (f answer)
  | .itself => .itself

/-- Put other things into the places of a rule. -/
def Rule.map (f : α → β) (r : Rule α) : Rule β :=
  ⟨r.pattern.map f, r.target.map f⟩

/-- Put other things into the places of a mapping. -/
def Mapping.map (f : α → β) (m : Mapping α) : Mapping β :=
  ⟨m.rules.map (Rule.map f), m.fallback.map f⟩

/-- Everything in the places of a pattern. -/
def Pattern.parts : Pattern α → List α
  | .exact input => [input]
  | .range min max => [min, max]

/-- Everything in the place of a target. -/
def Target.parts : Target α → List α
  | .fixed answer => [answer]
  | .itself => []

/-- Everything in the places of a rule. -/
def Rule.parts (r : Rule α) : List α :=
  r.pattern.parts ++ r.target.parts

/-- Everything in the places of a mapping. -/
def Mapping.parts (m : Mapping α) : List α :=
  m.rules.flatMap Rule.parts ++ m.fallback.parts

@[simp] theorem Pattern.parts_map (f : α → β) (p : Pattern α) :
    (p.map f).parts = p.parts.map f := by
  cases p <;> rfl

@[simp] theorem Target.parts_map (f : α → β) (t : Target α) :
    (t.map f).parts = t.parts.map f := by
  cases t <;> rfl

@[simp] theorem Rule.parts_map (f : α → β) (r : Rule α) : (r.map f).parts = r.parts.map f := by
  simp [Rule.parts, Rule.map]

@[simp] theorem Mapping.parts_map (f : α → β) (m : Mapping α) :
    (m.map f).parts = m.parts.map f := by
  simp [Mapping.parts, Mapping.map, List.flatMap_map, List.map_flatMap]

@[simp] theorem Pattern.map_map (f : α → β) (g : β → γ) (p : Pattern α) :
    (p.map f).map g = p.map (g ∘ f) := by
  cases p <;> rfl

@[simp] theorem Target.map_map (f : α → β) (g : β → γ) (t : Target α) :
    (t.map f).map g = t.map (g ∘ f) := by
  cases t <;> rfl

@[simp] theorem Rule.map_map (f : α → β) (g : β → γ) (r : Rule α) :
    (r.map f).map g = r.map (g ∘ f) := by
  simp [Rule.map]

@[simp] theorem Mapping.map_map (f : α → β) (g : β → γ) (m : Mapping α) :
    (m.map f).map g = m.map (g ∘ f) := by
  simp [Mapping.map]

@[simp] theorem Pattern.map_id (p : Pattern α) : p.map id = p := by
  cases p <;> rfl

@[simp] theorem Target.map_id (t : Target α) : t.map id = t := by
  cases t <;> rfl

@[simp] theorem Rule.map_id (r : Rule α) : r.map id = r := by
  simp [Rule.map]

@[simp] theorem Mapping.map_id (m : Mapping α) : m.map id = m := by
  have rules : Rule.map id = (id : Rule α → Rule α) := funext Rule.map_id
  simp [Mapping.map, rules]

theorem Pattern.map_congr {f g : α → β} {p : Pattern α} (h : ∀ x ∈ p.parts, f x = g x) :
    p.map f = p.map g := by
  cases p <;> simp_all [Pattern.map, Pattern.parts]

theorem Target.map_congr {f g : α → β} {t : Target α} (h : ∀ x ∈ t.parts, f x = g x) :
    t.map f = t.map g := by
  cases t <;> simp_all [Target.map, Target.parts]

theorem Rule.map_congr {f g : α → β} {r : Rule α} (h : ∀ x ∈ r.parts, f x = g x) :
    r.map f = r.map g := by
  have pattern : r.pattern.map f = r.pattern.map g :=
    Pattern.map_congr fun x hx => h x (List.mem_append_left _ hx)
  have target : r.target.map f = r.target.map g :=
    Target.map_congr fun x hx => h x (List.mem_append_right _ hx)
  simp [Rule.map, pattern, target]

theorem Mapping.map_congr {f g : α → β} {m : Mapping α} (h : ∀ x ∈ m.parts, f x = g x) :
    m.map f = m.map g := by
  have rules : m.rules.map (Rule.map f) = m.rules.map (Rule.map g) :=
    List.map_congr_left fun r hr => Rule.map_congr fun x hx =>
      h x (List.mem_append_left _ (List.mem_flatMap.2 ⟨r, hr, hx⟩))
  have fallback : m.fallback.map f = m.fallback.map g :=
    Target.map_congr fun x hx => h x (List.mem_append_right _ hx)
  simp [Mapping.map, rules, fallback]

theorem Pattern.sizeOf_lt_of_mem_parts [SizeOf α] {p : Pattern α} {x : α} (h : x ∈ p.parts) :
    sizeOf x < sizeOf p := by
  cases p <;> simp [parts] at h ⊢ <;> grind

theorem Target.sizeOf_lt_of_mem_parts [SizeOf α] {t : Target α} {x : α} (h : x ∈ t.parts) :
    sizeOf x < sizeOf t := by
  cases t <;> simp_all [parts]

theorem Mapping.sizeOf_lt_of_mem_parts [SizeOf α] {m : Mapping α} {x : α} (h : x ∈ m.parts) :
    sizeOf x < sizeOf m := by
  rcases m with ⟨rules, fallback⟩
  simp only [parts, Rule.parts, List.mem_append, List.mem_flatMap] at h
  rw [Mapping.mk.sizeOf_spec]
  rcases h with ⟨r, hr, hx⟩ | hx
  · have := List.sizeOf_lt_of_mem hr
    rcases r with ⟨pattern, target⟩
    rw [Rule.mk.sizeOf_spec] at this
    rcases hx with hx | hx
    · have : sizeOf x < sizeOf pattern := Pattern.sizeOf_lt_of_mem_parts hx
      omega
    · have : sizeOf x < sizeOf target := Target.sizeOf_lt_of_mem_parts hx
      omega
  · have := Target.sizeOf_lt_of_mem_parts hx
    omega

end Parts

namespace Payload

variable {α β γ : Type}

/-- Put other things into the places of a payload. -/
def map (f : α → β) : Payload α → Payload β
  | .text s => .text s
  | .array items => .array (items.map f)
  | .tuple items => .tuple (items.map f)
  | .record slots => .record (slots.map fun s => (s.1, s.2.map f))
  | .variant tag fields => .variant tag (fields.map fun s => (s.1, f s.2))
  | .sum index content => .sum index (f content)
  | .generic bindings inner => .generic bindings (f inner)
  | .mapping table => .mapping (table.map f)

/-- Everything in the places of a payload. -/
def parts : Payload α → List α
  | .text _ => []
  | .array items => items
  | .tuple items => items
  | .record slots => slots.filterMap (·.2)
  | .variant _ fields => fields.map (·.2)
  | .sum _ content => [content]
  | .generic _ inner => [inner]
  | .mapping table => table.parts

/-- The form of a payload that allows changes in place; a text does not. -/
def form? : Payload α → Option Form
  | .text _ => none
  | .array _ => some .array
  | .tuple _ => some .tuple
  | .record _ => some .record
  | .variant .. => some .variant
  | .sum .. => some .sum
  | .generic .. => some .generic
  | .mapping _ => some .mapping

/-- What stands in the place at a position, if that place can be reached for writing. The places
of a mapping can not: its entries only change as a whole. -/
def part? : Payload α → Nat → Option α
  | .array items, i => items[i]?
  | .tuple items, i => items[i]?
  | .record slots, i => slots[i]?.bind (·.2)
  | .variant _ fields, i => fields[i]?.map (·.2)
  | .sum _ content, 0 => some content
  | .generic _ inner, 0 => some inner
  | _, _ => none

/-- Put something else into the place at a position. -/
def setPart (i : Nat) (x : α) : Payload α → Payload α
  | .array items => .array (items.set i x)
  | .tuple items => .tuple (items.set i x)
  | .record slots => .record (slots.modify i fun s => (s.1, some x))
  | .variant tag fields => .variant tag (fields.modify i fun s => (s.1, x))
  | .sum index _ => .sum index x
  | .generic bindings _ => .generic bindings x
  | p => p

/-- A whole as a value, when its parts are. -/
def value : Payload Value → Value
  | .text s => .text s
  | .array items => .array items
  | .tuple items => .tuple items
  | .record slots => .record slots
  | .variant tag fields => .variant tag fields
  | .sum index content => .sum index content
  | .generic bindings inner => .generic bindings inner
  | .mapping table => .map table

@[simp] theorem parts_map (f : α → β) (p : Payload α) : (p.map f).parts = p.parts.map f := by
  cases p <;> simp [map, parts, List.filterMap_map, List.map_filterMap, Function.comp_def]

@[simp] theorem map_map (f : α → β) (g : β → γ) (p : Payload α) :
    (p.map f).map g = p.map (g ∘ f) := by
  cases p <;> simp [map]

@[simp] theorem map_id (p : Payload α) : p.map id = p := by
  cases p <;> simp [map]

@[simp] theorem form?_map (f : α → β) (p : Payload α) : (p.map f).form? = p.form? := by
  cases p <;> rfl

theorem part?_map (f : α → β) (p : Payload α) (i : Nat) :
    (p.map f).part? i = (p.part? i).map f := by
  cases p with
  | record slots => cases h : slots[i]? <;> simp [map, part?, h]
  | variant tag fields => cases h : fields[i]? <;> simp [map, part?, h]
  | sum | generic => cases i <;> rfl
  | _ => simp [map, part?]

theorem map_congr {f g : α → β} {p : Payload α} (h : ∀ x ∈ p.parts, f x = g x) :
    p.map f = p.map g := by
  cases p with
  | text => rfl
  | array | tuple => simpa [map, parts] using h
  | record slots =>
    have same : ∀ s ∈ slots, s.2.map f = s.2.map g := fun s hs => by
      cases hx : s.2 with
      | none => rfl
      | some x => exact congrArg some (h x (List.mem_filterMap.2 ⟨s, hs, hx⟩))
    simpa [map] using fun id x hs => same (id, x) hs
  | variant tag fields =>
    simpa [map] using fun id x hs => h x (List.mem_map.2 ⟨(id, x), hs, rfl⟩)
  | sum index content => exact congrArg (Payload.sum index) (h content (by simp [parts]))
  | generic bindings inner => exact congrArg (Payload.generic bindings) (h inner (by simp [parts]))
  | mapping table => exact congrArg Payload.mapping (Mapping.map_congr h)

/-- Changing one place leaves the others. -/
private theorem modify_perm {xs : List α} {i : Nat} (bound : i < xs.length) (g : α → α) :
    (xs.modify i g).Perm (g xs[i] :: xs.eraseIdx i) := by
  rw [List.modify_eq_take_cons_drop bound, List.eraseIdx_eq_take_drop_succ]
  exact List.perm_middle

/-- The part at a position that can be reached, and everything else. Putting something else there
leaves everything else as it is. -/
theorem exists_perm_of_part? {p : Payload α} {i : Nat} {x : α} (h : p.part? i = some x) :
    ∃ others, p.parts.Perm (x :: others) ∧ ∀ y, (p.setPart i y).parts.Perm (y :: others) := by
  cases p with
  | text | mapping => simp [part?] at h
  | array items | tuple items =>
    obtain ⟨bound, rfl⟩ := List.getElem?_eq_some_iff.1 h
    exact ⟨items.eraseIdx i, (List.getElem_cons_eraseIdx_perm bound).symm,
      fun y => List.set_perm_cons_eraseIdx bound y⟩
  | record slots =>
    simp only [part?, Option.bind_eq_some_iff] at h
    obtain ⟨s, hs, hx⟩ := h
    obtain ⟨bound, rfl⟩ := List.getElem?_eq_some_iff.1 hs
    refine ⟨(slots.eraseIdx i).filterMap (·.2), ?_, fun y => ?_⟩
    · simpa [parts, hx] using (List.getElem_cons_eraseIdx_perm bound).symm.filterMap (·.2)
    · exact (modify_perm bound fun s => (s.1, some y)).filterMap (·.2)
  | variant tag fields =>
    simp only [part?, Option.map_eq_some_iff] at h
    obtain ⟨s, hs, rfl⟩ := h
    obtain ⟨bound, rfl⟩ := List.getElem?_eq_some_iff.1 hs
    exact ⟨(fields.eraseIdx i).map Prod.snd,
      (List.getElem_cons_eraseIdx_perm bound).symm.map Prod.snd,
      fun y => (modify_perm bound fun s => (s.1, y)).map Prod.snd⟩
  | sum index content =>
    cases i with
    | zero => cases h; exact ⟨[], .refl _, fun y => .refl _⟩
    | succ => simp [part?] at h
  | generic bindings inner =>
    cases i with
    | zero => cases h; exact ⟨[], .refl _, fun y => .refl _⟩
    | succ => simp [part?] at h

/-- Changing one place commutes with changing all, when the two changes do. -/
private theorem map_modify {f : α → β} {g : α → α} {g' : β → β} (h : ∀ x, f (g x) = g' (f x))
    (xs : List α) (i : Nat) : (xs.modify i g).map f = (xs.map f).modify i g' := by
  apply List.ext_getElem?
  intro j
  simp only [List.getElem?_map, List.getElem?_modify]
  cases xs[j]? with
  | none => rfl
  | some x => by_cases at_i : i = j <;> simp [at_i, h]

theorem setPart_map (f : α → β) (i : Nat) (x : α) (p : Payload α) :
    (p.setPart i x).map f = (p.map f).setPart i (f x) := by
  cases p with
  | record slots => exact congrArg Payload.record (map_modify (by intros; rfl) slots i)
  | variant tag fields =>
    exact congrArg (Payload.variant tag) (map_modify (by intros; rfl) fields i)
  | _ => simp [setPart, map]

/-- Putting a part back where it is changes nothing. -/
theorem setPart_self {p : Payload α} {i : Nat} {x : α} (h : p.part? i = some x) :
    p.setPart i x = p := by
  cases p with
  | text | mapping => rfl
  | array items | tuple items =>
    obtain ⟨bound, rfl⟩ := List.getElem?_eq_some_iff.1 h
    simp [setPart]
  | record slots =>
    refine congrArg Payload.record (List.ext_getElem? fun j => ?_)
    by_cases at_i : i = j
    · subst at_i
      obtain ⟨⟨id, content⟩, hs, rfl⟩ := Option.bind_eq_some_iff.1 h
      simp [hs]
    · rw [List.getElem?_modify_ne _ _ at_i]
  | variant tag fields =>
    refine congrArg (Payload.variant tag) (List.ext_getElem? fun j => ?_)
    by_cases at_i : i = j
    · subst at_i
      obtain ⟨⟨id, content⟩, hs, rfl⟩ := Option.map_eq_some_iff.1 h
      simp [hs]
    · rw [List.getElem?_modify_ne _ _ at_i]
  | sum index content | generic bindings inner =>
    cases i with
    | zero => cases h; rfl
    | succ => simp [part?] at h

/-- What stood in a place before it is written does not matter. The payload with a hole in that
place, filled in two ways, shows it. -/
theorem setPart_congr {f g : α → β} {p : Payload α} {i : Nat} {x : α} {others : List α}
    (h : p.part? i = some x) (perm : p.parts.Perm (x :: others))
    (same : ∀ u ∈ others, f u = g u) (y : β) :
    (p.map f).setPart i y = (p.map g).setPart i y := by
  have filled : ∀ k : α → β,
      (p.map k).setPart i y = ((p.map some).setPart i none).map fun o => o.elim y k := fun k => by
    rw [setPart_map, map_map]
    rfl
  obtain ⟨rest, before, after⟩ := exists_perm_of_part? (p := p.map some) (i := i) (x := some x)
    (by rw [part?_map, h]; rfl)
  have rest_perm : rest.Perm (others.map some) := by
    rw [parts_map] at before
    exact (before.symm.trans (perm.map some)).cons_inv
  rw [filled f, filled g]
  refine map_congr fun o mem => ?_
  rcases List.mem_cons.1 ((after none).mem_iff.1 mem) with rfl | mem
  · rfl
  · obtain ⟨u, hu, rfl⟩ := List.mem_map.1 (rest_perm.mem_iff.1 mem)
    exact same u hu

/-- A part is smaller than the whole. -/
theorem sizeOf_lt_of_mem_parts {p : Payload Value} {v : Value} (h : v ∈ p.parts) :
    sizeOf v < sizeOf p.value := by
  cases p with
  | text => simp [parts] at h
  | array items | tuple items =>
    have : sizeOf v < sizeOf items := List.sizeOf_lt_of_mem h
    simp only [value, Value.array.sizeOf_spec, Value.tuple.sizeOf_spec]
    omega
  | record slots =>
    obtain ⟨s, hs, hv⟩ := List.mem_filterMap.1 h
    have := List.sizeOf_lt_of_mem hs
    rcases s with ⟨id, content⟩
    subst hv
    simp only [value, Value.record.sizeOf_spec, Prod.mk.sizeOf_spec, Option.some.sizeOf_spec] at *
    omega
  | variant tag fields =>
    obtain ⟨s, hs, rfl⟩ := List.mem_map.1 h
    have := List.sizeOf_lt_of_mem hs
    rcases s with ⟨id, v⟩
    simp only [value, Value.variant.sizeOf_spec, Prod.mk.sizeOf_spec] at *
    omega
  | sum index content =>
    simp only [parts, List.mem_singleton] at h
    simp only [h, value, Value.sum.sizeOf_spec]
    omega
  | generic bindings inner =>
    simp only [parts, List.mem_singleton] at h
    simp only [h, value, Value.generic.sizeOf_spec]
    omega
  | mapping table =>
    have := Mapping.sizeOf_lt_of_mem_parts h
    simp only [value, Value.map.sizeOf_spec]
    omega

end Payload

/-- The layer of a value that is no scalar. -/
def Value.payload? : Value → Option (Payload Value)
  | .text s => some (.text s)
  | .array items => some (.array items)
  | .tuple items => some (.tuple items)
  | .record slots => some (.record slots)
  | .variant tag fields => some (.variant tag fields)
  | .sum index content => some (.sum index content)
  | .generic bindings inner => some (.generic bindings inner)
  | .map table => some (.mapping table)
  | _ => none

@[simp] theorem Payload.payload?_value (p : Payload Value) : p.value.payload? = some p := by
  cases p <;> rfl

/-- A value is a scalar or has a layer. -/
theorem Value.scalar_or_payload (v : Value) :
    (∃ s : Scalar, v = s.value) ∨ ∃ p : Payload Value, v = p.value := by
  cases v with
  | void => exact .inl ⟨.void, rfl⟩
  | bool b => exact .inl ⟨.bool b, rfl⟩
  | int n => exact .inl ⟨.int n, rfl⟩
  | rational q => exact .inl ⟨.rational q, rfl⟩
  | ident id => exact .inl ⟨.ident id, rfl⟩
  | text s => exact .inr ⟨.text s, rfl⟩
  | array items => exact .inr ⟨.array items, rfl⟩
  | tuple items => exact .inr ⟨.tuple items, rfl⟩
  | record slots => exact .inr ⟨.record slots, rfl⟩
  | variant tag fields => exact .inr ⟨.variant tag fields, rfl⟩
  | sum index content => exact .inr ⟨.sum index content, rfl⟩
  | generic bindings inner => exact .inr ⟨.generic bindings inner, rfl⟩
  | map table => exact .inr ⟨.mapping table, rfl⟩

@[simp] theorem Scalar.payload?_value (s : Scalar) : s.value.payload? = none := by
  cases s <;> rfl

end TypedTree
