import TypedTree.Proofs.Resolution

/-!
# Kinds of the core namespace

What the constructors of the core namespace make sure of in the kinds that they build, and so what
is known of every type that the core registry owns: its parts are the types of its type arguments,
in order, and are owned themselves; names of fields and tags do not repeat; positions point at
something.

## Main definitions

* `Kind.Formed`: what is made sure of in a kind.
* `Registry.Forms`: whether a registry has all that in a type and its parts.

## Main statements

* `Registry.forms_of_owns`: the core registry forms its types.
-/

namespace TypedTree

namespace Kind

/-- A variant whose names do not repeat and whose tags point at fields. -/
structure VariantFormed (fields : List (Ident × Ty)) (tags : List Tag) (initial : Tag) :
    Prop where
  fields_nodup : (fields.map (·.1)).Nodup
  tags_nodup : (tags.map (·.id)).Nodup
  initial_mem : initial ∈ tags
  positions_nodup : ∀ tag ∈ tags, tag.fields.Nodup
  positions_lt : ∀ tag ∈ tags, ∀ pos ∈ tag.fields, pos < fields.length

/-- A generic whose references name its types, with something bound to no variable or to all. -/
structure GenericFormed (body : TypeRef) (inner : Ty) (vars : UInt32)
    (bindings : List (TypeRef × Ty)) : Prop where
  inner_ref : inner.ref = body
  binding_ref : ∀ b ∈ bindings, b.2.ref = b.1
  bindings_length : bindings = [] ∨ bindings.length = vars.toNat
  vars_le : vars ≤ Core.maxVars

theorem GenericFormed.refs_bound {body : TypeRef} {inner : Ty} {vars : UInt32}
    {bindings : List (TypeRef × Ty)} (h : GenericFormed body inner vars bindings) :
    (bindings.map (·.2)).map (·.ref) = bindings.map (·.1) := by
  rw [List.map_map]
  exact List.map_congr_left h.binding_ref

@[simp] theorem name_mapParts {σ τ : Type} (f : σ → τ) (k : Kind σ) :
    (k.mapParts f).name = k.name := by
  cases k <;> rfl

/-- What the constructors of the core namespace make sure of in a kind. -/
def Formed : Kind Ty → Prop
  | .enumeration e => e.members = [] → e.blank = true
  | .record fields => (fields.map (·.id)).Nodup
  | .variant fields tags initial => VariantFormed fields tags initial
  | .sum summands initial => initial.toNat < summands.length
  | .generic body inner vars bindings => GenericFormed body inner vars bindings
  | .failure _ => False
  | .bool | .int _ | .rational _ | .text | .array .. | .tuple _ | .map .. | .var _ => True

end Kind

namespace Core

open Constructor (Args)

variable {args : Args} {kind : Kind Ty}

theorem ids_nodup_of_firstRepeat? {before ids : List Ident} (h : firstRepeat? before ids = none) :
    ids.Nodup ∧ ∀ id ∈ ids, id ∉ before := by
  induction ids generalizing before with
  | nil => simp
  | cons id ids ih =>
    simp only [firstRepeat?] at h
    split at h
    · simp at h
    · rename_i new
      obtain ⟨nodup, fresh⟩ := ih h
      refine ⟨List.nodup_cons.2 ⟨fun hm => fresh id hm List.mem_cons_self, nodup⟩, ?_⟩
      intro x hx
      rcases List.mem_cons.1 hx with rfl | hx
      · exact new
      · intro hb
        exact fresh x hx (List.mem_cons_of_mem _ hb)

theorem positions_of_positionFault? {tag : Ident} {declared : Nat} {before positions : List Nat}
    (h : positionFault? tag declared before positions = none) :
    positions.Nodup ∧ (∀ pos ∈ positions, pos < declared) ∧ ∀ pos ∈ positions, pos ∉ before := by
  induction positions generalizing before with
  | nil => simp
  | cons pos positions ih =>
    simp only [positionFault?] at h
    split at h
    · simp at h
    · split at h
      · simp at h
      · rename_i inside new
        obtain ⟨nodup, lt, fresh⟩ := ih h
        refine ⟨List.nodup_cons.2 ⟨fun hm => fresh pos hm List.mem_cons_self, nodup⟩, ?_, ?_⟩
        · exact List.forall_mem_cons.2 ⟨Nat.lt_of_not_le inside, lt⟩
        · exact List.forall_mem_cons.2
            ⟨new, fun x hx hb => fresh x hx (List.mem_cons_of_mem _ hb)⟩

theorem tags_of_tagFault? {declared : Nat} {before : List Ident} {tags : List Tag}
    (h : tagFault? declared before tags = none) :
    (tags.map (·.id)).Nodup ∧ (∀ tag ∈ tags, tag.id ∉ before) ∧
      ∀ tag ∈ tags, tag.fields.Nodup ∧ ∀ pos ∈ tag.fields, pos < declared := by
  induction tags generalizing before with
  | nil => simp
  | cons tag tags ih =>
    simp only [tagFault?] at h
    split at h
    · simp at h
    · rename_i new
      split at h
      · simp at h
      · rename_i sound
        obtain ⟨nodup, fresh, rest⟩ := ih h
        have positions := positions_of_positionFault? sound
        refine ⟨List.nodup_cons.2 ⟨?_, nodup⟩, ?_, ?_⟩
        · intro hm
          obtain ⟨other, ho, he⟩ := List.mem_map.1 hm
          exact fresh other ho (he ▸ List.mem_cons_self)
        · exact List.forall_mem_cons.2
            ⟨new, fun x hx hb => fresh x hx (List.mem_cons_of_mem _ hb)⟩
        · exact List.forall_mem_cons.2 ⟨⟨positions.1, positions.2.1⟩, rest⟩

theorem recordFields_types {ids : List Ident} {types : List Ty} {flags : List Bool}
    (hi : ids.length = types.length) (hf : flags.length = types.length) :
    (recordFields ids types flags).map (·.type) = types ∧
      (recordFields ids types flags).map (·.id) = ids := by
  induction types generalizing ids flags with
  | nil => simp_all [recordFields]
  | cons type types ih =>
    obtain ⟨id, ids, rfl⟩ := List.exists_cons_of_length_eq_add_one hi
    obtain ⟨flag, flags, rfl⟩ := List.exists_cons_of_length_eq_add_one hf
    simp only [List.length_cons, Nat.add_right_cancel_iff] at hi hf
    simp [recordFields, ih hi hf]

theorem distinct_eq_nil {ids : List Ident} : Enumeration.distinct ids = [] ↔ ids = [] := by
  cases ids <;> simp [Enumeration.distinct]

/-- A kind under a word whose parts are the type arguments of its constructor. -/
structure Built (args : Args) (word : String) (kind : Kind Ty) : Prop where
  formed : kind.Formed
  parts : kind.parts = args.types
  name : kind.name = word

theorem built_intRange (none : args.types = []) (h : buildIntRange args = .ok kind) :
    Built args "int" kind := by
  simp only [buildIntRange, Outcome.bind_eq_ok] at h
  obtain ⟨_, -, min, -, max, -, h⟩ := h
  split at h
  · obtain rfl := Except.ok.inj h
    exact ⟨trivial, none.symm, rfl⟩
  · simp [emptyRange, Args.refuse] at h

theorem built_rationalRange (none : args.types = []) (h : buildRationalRange args = .ok kind) :
    Built args "rational" kind := by
  simp only [buildRationalRange, Outcome.bind_eq_ok] at h
  obtain ⟨_, -, min, -, max, -, h⟩ := h
  split at h
  · obtain rfl := Except.ok.inj h
    exact ⟨trivial, none.symm, rfl⟩
  · simp [emptyRange, Args.refuse] at h

theorem built_enumeration (none : args.types = []) (h : buildEnumeration args = .ok kind) :
    Built args "enumeration" kind := by
  simp only [buildEnumeration, Outcome.bind_eq_ok] at h
  obtain ⟨_, -, members, -, blank, -, h⟩ := h
  split at h
  · simp [Args.refuse] at h
  · rename_i inhabited
    obtain rfl := Except.ok.inj h
    refine ⟨fun empty => ?_, none.symm, rfl⟩
    have := distinct_eq_nil.1 empty
    simpa [Enumeration.ofList, this] using inhabited

theorem built_record (h : buildRecord args = .ok kind) : Built args "record" kind := by
  simp only [buildRecord, Outcome.bind_eq_ok] at h
  obtain ⟨_, -, ids, -, flags, -, h⟩ := h
  split at h
  · simp [Args.refuse] at h
  · rename_i lengths
    split at h
    · simp [Args.refuse] at h
    · rename_i unique
      obtain rfl := Except.ok.inj h
      have counts : ids.length = args.types.length ∧ flags.length = args.types.length := by omega
      obtain ⟨types, names⟩ := recordFields_types counts.1 counts.2
      refine ⟨?_, types, rfl⟩
      rw [Kind.Formed, names]
      exact (ids_nodup_of_firstRepeat? unique).1

/-- A variant that is made has no fault in its fields and tags. -/
theorem formed_of_makeVariant {fields : List (Ident × Ty)} {tags : List Tag} {initial : Nat}
    (h : makeVariant fields tags initial = .ok kind) : ∃ start, tags[initial]? = some start ∧
      Kind.VariantFormed fields tags start ∧ kind = .variant fields tags start := by
  rw [makeVariant] at h
  split at h
  · simp at h
  · split at h
    · simp at h
    · rename_i start hs
      split at h
      · simp at h
      · rename_i unique
        split at h
        · simp at h
        · rename_i sound
          obtain ⟨nodup, -, positions⟩ := tags_of_tagFault? sound
          refine ⟨start, hs, ?_, (Except.ok.inj h).symm⟩
          exact ⟨(ids_nodup_of_firstRepeat? unique).1, nodup, List.mem_of_getElem? hs,
            fun tag ht => (positions tag ht).1, fun tag ht => (positions tag ht).2⟩

theorem built_variant (h : buildVariant args = .ok kind) : Built args "variant" kind := by
  simp only [buildVariant, Outcome.bind_eq_ok] at h
  obtain ⟨_, -, ids, -, tags, -, lists, -, initial, -, h⟩ := h
  split at h
  · simp [Args.refuse] at h
  · rename_i lengths
    split at h
    · rename_i made
      obtain rfl := Except.ok.inj h
      obtain ⟨start, -, formed, rfl⟩ := formed_of_makeVariant made
      exact ⟨formed, List.map_snd_zip (by omega), rfl⟩
    · simp [Args.refuse] at h

theorem built_array (h : buildArray args = .ok kind) : Built args "array" kind := by
  simp only [buildArray, Outcome.bind_eq_ok] at h
  obtain ⟨_, -, min, -, max, -, initial, -, h⟩ := h
  split at h
  · simp [Args.refuse] at h
  · split at h
    · rename_i element single
      split at h
      · obtain rfl := Except.ok.inj h
        exact ⟨trivial, single.symm, rfl⟩
      · simp [Args.refuse] at h
    · simp at h

theorem built_sum (h : buildSum args = .ok kind) : Built args "sum" kind := by
  simp only [buildSum, Outcome.bind_eq_ok] at h
  obtain ⟨_, -, initial, -, h⟩ := h
  split at h
  · rename_i inside
    obtain rfl := Except.ok.inj h
    exact ⟨inside, rfl, rfl⟩
  · simp [Args.refuse] at h

theorem built_tuple (h : buildTuple args = .ok kind) : Built args "tuple" kind := by
  simp only [buildTuple, Outcome.bind_eq_ok] at h
  obtain ⟨_, -, h⟩ := h
  obtain rfl := Except.ok.inj h
  exact ⟨trivial, rfl, rfl⟩

theorem built_generic (names : args.types.map (·.ref) = args.refs)
    (h : buildGeneric args = .ok kind) : Built args "generic" kind := by
  simp only [buildGeneric, Outcome.bind_eq_ok] at h
  obtain ⟨_, -, vars, -, h⟩ := h
  split at h
  · simp [Args.refuse] at h
  · rename_i few
    split at h
    · rename_i body refs inner types hr ht
      rw [hr, ht, List.map_cons, List.cons.injEq] at names
      obtain ⟨inner_ref, rfl⟩ := names
      split at h
      · rename_i count
        obtain rfl := Except.ok.inj h
        refine ⟨⟨inner_ref, ?_, ?_, UInt32.not_lt.1 few⟩, ?_, rfl⟩
        · intro b hb
          rw [← List.map_prod_right_eq_zip] at hb
          obtain ⟨t, -, rfl⟩ := List.mem_map.1 hb
          rfl
        · simpa using count
        · simp [Kind.parts, ht, List.map_snd_zip]
      · simp [Args.refuse] at h
    · simp at h

theorem built_var (none : args.types = []) (h : buildVar args = .ok kind) : Built args "var" kind := by
  simp only [buildVar, Outcome.bind_eq_ok] at h
  obtain ⟨_, -, index, -, depth, -, h⟩ := h
  obtain rfl := Except.ok.inj h
  exact ⟨trivial, none.symm, rfl⟩

theorem built_map (h : buildMap args = .ok kind) : Built args "map" kind := by
  simp only [buildMap, Outcome.bind_eq_ok] at h
  obtain ⟨_, -, h⟩ := h
  split at h
  · rename_i source target pair
    obtain rfl := Except.ok.inj h
    exact ⟨trivial, pair.symm, rfl⟩
  · simp at h

/-- Every constructor of the core namespace builds a formed kind from its type arguments, and only
one builds generics. -/
theorem built_of_mem_constructors {c : Constructor} (hc : c ∈ constructors)
    (names : args.types.map (·.ref) = args.refs)
    (arity : c.arity.accepts args.types.length = true) (h : c.build args = .ok kind) :
    ∃ word, Built args word kind ∧ (word = "generic" ↔ c.id = Core.generic) := by
  have no_types (count : (Arity.exactly 0).accepts args.types.length = true) :
      args.types = [] := by
    simpa [Arity.accepts] using count
  simp only [constructors, List.mem_cons, List.not_mem_nil, or_false] at hc
  rcases hc with rfl | rfl | rfl | rfl | rfl | rfl | rfl | rfl | rfl | rfl | rfl
  · exact ⟨_, built_intRange (no_types arity) h, by decide⟩
  · exact ⟨_, built_rationalRange (no_types arity) h, by decide⟩
  · exact ⟨_, built_enumeration (no_types arity) h, by decide⟩
  · exact ⟨_, built_record h, by decide⟩
  · exact ⟨_, built_variant h, by decide⟩
  · exact ⟨_, built_array h, by decide⟩
  · exact ⟨_, built_sum h, by decide⟩
  · exact ⟨_, built_tuple h, by decide⟩
  · exact ⟨_, built_generic names h, by decide⟩
  · exact ⟨_, built_var (no_types arity) h, by decide⟩
  · exact ⟨_, built_map h, by decide⟩

end Core

namespace Registry

variable {r : Registry} {t : Ty}

/-- A formed type with the parts that its reference says, all of them owned. -/
structure Forms (r : Registry) (t : Ty) : Prop where
  kind : t.kind.Formed
  parts_refs : t.kind.parts.map (·.ref) = t.ref.types
  owns_parts : ∀ p ∈ t.kind.parts, r.Owns p
  name_generic : t.kind.name = "generic" ↔ t.ref.constructor? = some Core.generic

theorem forms_of_primitive {p : Primitive} (h : p ∈ Core.primitives) :
    r.Forms (r.primitiveType p) := by
  simp only [Core.primitives, List.mem_cons, List.not_mem_nil, or_false] at h
  have no_generic (word : p.kind.name ≠ "generic") :
      (r.primitiveType p).kind.name = "generic" ↔
        (r.primitiveType p).ref.constructor? = some Core.generic := by
    simpa [primitiveType, TypeRef.constructor?] using word
  rcases h with rfl | rfl | rfl | rfl <;>
    exact ⟨trivial, rfl, fun _ h => absurd h List.not_mem_nil, no_generic (by decide)⟩

/-- The types of the core registry are formed. -/
theorem forms_of_owns {home : Nat} (h : (core home).Owns t) : (core home).Forms t := by
  rw [Owns] at h
  cases hr : t.ref with
  | primitive id =>
    rw [hr] at h
    obtain ⟨p, hp, rfl⟩ := resolve_primitive_eq_ok.1 h
    exact forms_of_primitive (List.mem_of_find?_eq_some hp)
  | constructed id types values =>
    rw [hr] at h
    obtain ⟨c, ts, hc, hs, hb⟩ := resolve_constructed_eq_ok.1 h
    obtain ⟨arity, -, kind, build, rfl⟩ := Constructor.construct_eq_ok.1 hb
    have names := refs_of_forall₂ hs
    obtain ⟨word, built, generic⟩ :=
      Core.built_of_mem_constructors (List.mem_of_find?_eq_some hc) names arity build
    have parts : kind.parts = ts := built.parts
    refine ⟨built.formed, parts ▸ names, fun p hp => owns_of_forall₂ hs p (parts ▸ hp), ?_⟩
    rw [built.name, generic]
    simp [TypeRef.constructor?]

end Registry

end TypedTree
