import Mathlib.Algebra.Group.Nat.Defs
import TypedTree.Proofs.Builders

/-!
# Variants, tag by tag

A variant is written tag by tag, each tag with its fields by name and type. The reference that comes
of it declares every name once and has each tag point to its fields by position, in a list of lists
of numbers. The constructor reads the lists back, checks them in its own order, and makes a type
whose tags point into its fields again.

Nothing is lost on the way. While tags are added, the fields declared so far keep their positions,
since new ones are added behind them. So what the first tag points to is the same at the end.

## Main definitions

* `TypeRef.VariantBuilder.ofTags`: several tags in turn.
* `TypeRef.VariantBuilder.Declares`: which fields some mentions declare.
* `TypeRef.VariantBuilder.Points`: positions that stand for names.
* `TypeRef.VariantBuilder.Tells`: what a builder was told.

## Main statements

* `TypeRef.VariantBuilder.Tells.tag`, `TypeRef.VariantBuilder.tells_ofTags`: adding one tag, and any
  number of them.
* `Core.makeVariant_eq_ok`: the constructor makes what is well-formed and nothing else.
* `Registry.makes_variant`: a reference to a variant resolves if what it is written from makes one.
* `Registry.variant_spec`: the type of a variant declares what the builder was told.
-/

namespace TypedTree

/-- At the end of a list a member stays if it is new. -/
theorem eraseDups_concat {α : Type} [BEq α] [LawfulBEq α] (as : List α) (a : α) :
    (as ++ [a]).eraseDups = if a ∈ as then as.eraseDups else as.eraseDups ++ [a] := by
  rw [List.eraseDups_append]
  split <;> rename_i known <;> simp [List.removeAll, known, List.eraseDups_cons]

namespace TypeRef.VariantBuilder

variable {fields mentions passed : List (Ident × TypeRef)} {id : Ident} {type : TypeRef}
  {names names' : List Ident} {positions : List Nat} {b : VariantBuilder}
  {calls : List (Ident × List (Ident × TypeRef))}

/-- A variant with some tags, each with its fields. -/
def ofTags (calls : List (Ident × List (Ident × TypeRef))) : VariantBuilder :=
  calls.foldl (fun b call => b.tag call.1 call.2) .empty

/-- The tags of a builder, as a type has them. -/
def declaredTags (b : VariantBuilder) : List Tag :=
  b.tags.map fun t => ⟨t.1, t.2⟩

/-! ## Positions -/

/-- Whether positions stand for the names of some fields, in their order. -/
def Points (names : List Ident) (passed : List (Ident × TypeRef)) (positions : List Nat) : Prop :=
  positions.map (names[·]?) = passed.map fun f => some f.1

theorem points_singleton {f : Ident × TypeRef} {pos : Nat} :
    Points names [f] [pos] ↔ names[pos]? = some f.1 := by
  rw [Points, List.map_singleton, List.map_singleton, List.singleton_inj]

theorem Points.lt (h : Points names passed positions) : ∀ pos ∈ positions, pos < names.length := by
  intro pos hp
  have mem : names[pos]? ∈ positions.map (names[·]?) := List.mem_map_of_mem hp
  rw [h, List.mem_map] at mem
  obtain ⟨f, -, named⟩ := mem
  exact (List.getElem?_eq_some_iff.1 named.symm).1

/-- More names behind those that there are do not matter. -/
theorem Points.mono (h : Points names passed positions) (more : names <+: names') :
    Points names' passed positions := by
  obtain ⟨rest, rfl⟩ := more
  rw [Points, ← h]
  exact List.map_congr_left fun pos hp => List.getElem?_append_left (h.lt pos hp)

/-- Different positions are those of different names. -/
theorem Points.nodup_iff (h : Points names passed positions) (nodup : names.Nodup) :
    positions.Nodup ↔ (passed.map (·.1)).Nodup := by
  have named : (positions.map (names[·]?)).Nodup ↔ (passed.map (·.1)).Nodup := by
    have some_names : passed.map (fun f => some f.1) = (passed.map (·.1)).map some := by
      rw [List.map_map]
      rfl
    rw [h, some_names, List.nodup_map_iff fun _ _ => Option.some.inj]
  rw [← named]
  refine ⟨fun different => different.map_on fun p hp q _ same => ?_, List.Nodup.of_map _⟩
  exact (List.getElem?_inj (h.lt p hp) nodup).1 same

/-! ## Declared fields -/

/-- Whether fields are those that some mentions declare: each name once, in order of first mention and
with the type that is given there. -/
structure Declares (fields mentions : List (Ident × TypeRef)) : Prop where
  names : fields.map (·.1) = (mentions.map (·.1)).eraseDups
  nodup : (fields.map (·.1)).Nodup
  types : ∀ f ∈ fields, mentions.lookup f.1 = some f.2

theorem Declares.mem_names_iff (h : Declares fields mentions) :
    id ∈ fields.map (·.1) ↔ id ∈ mentions.map (·.1) := by
  rw [h.names, List.mem_eraseDups]

/-- One more mention declares a field if its name is new. Fields declared before stay where they are,
and the position that is given is that of the name. -/
theorem Declares.declare (h : Declares fields mentions) (id : Ident) (type : TypeRef) :
    Declares (declare fields id type).1 (mentions ++ [(id, type)]) ∧
      fields.map (·.1) <+: (declare fields id type).1.map (·.1) ∧
      Points ((declare fields id type).1.map (·.1)) [(id, type)] [(declare fields id type).2] := by
  have types (f : Ident × TypeRef) (hf : f ∈ fields) :
      (mentions ++ [(id, type)]).lookup f.1 = some f.2 := by
    rw [List.lookup_append, h.types f hf, Option.some_or]
  rw [VariantBuilder.declare, points_singleton]
  cases found : fields.findIdx? (·.1 == id) with
  | some pos =>
    obtain ⟨inside, named, -⟩ := List.findIdx?_eq_some_iff_getElem.1 found
    rw [beq_iff_eq] at named
    have known : id ∈ fields.map (·.1) := named ▸ List.mem_map_of_mem (List.getElem_mem inside)
    refine ⟨⟨?_, h.nodup, types⟩, List.prefix_rfl, ?_⟩
    · rw [List.map_append, List.map_singleton, eraseDups_concat, if_pos (h.mem_names_iff.1 known),
        h.names]
    · rw [List.getElem?_map, List.getElem?_eq_getElem inside, Option.map_some, named]
  | none =>
    have new : id ∉ fields.map (·.1) := by
      rintro known
      obtain ⟨f, hf, rfl⟩ := List.mem_map.1 known
      simpa using List.findIdx?_eq_none_iff.1 found f hf
    have unmentioned := mt h.mem_names_iff.2 new
    refine ⟨⟨?_, ?_, ?_⟩, ?_, ?_⟩
    · rw [List.map_append, List.map_append, List.map_singleton, eraseDups_concat,
        if_neg unmentioned, h.names]
    · rw [List.map_append, List.map_singleton, List.nodup_append]
      refine ⟨h.nodup, List.nodup_singleton id, ?_⟩
      rintro x hx y hy rfl
      obtain rfl := List.mem_singleton.1 hy
      exact new hx
    · rintro f hf
      rcases List.mem_append.1 hf with old | last
      · exact types f old
      · obtain rfl := List.mem_singleton.1 last
        have absent : mentions.lookup id = none := by
          rw [List.lookup_eq_none_iff]
          rintro m hm
          rw [bne_iff_ne]
          exact fun same => unmentioned (same ▸ List.mem_map_of_mem hm)
        rw [List.lookup_append, absent, Option.none_or, List.lookup_cons_self]
    · rw [List.map_append]
      exact List.prefix_append _ _
    · rw [List.map_append, ← List.length_map (·.1), List.map_singleton, List.getElem?_concat_length]

/-- Several mentions declare what each of them does, and are given the positions of their names. -/
theorem Declares.declareAll (h : Declares fields mentions) (passed : List (Ident × TypeRef)) :
    Declares (declareAll fields passed).1 (mentions ++ passed) ∧
      fields.map (·.1) <+: (declareAll fields passed).1.map (·.1) ∧
      Points ((declareAll fields passed).1.map (·.1)) passed (declareAll fields passed).2 := by
  induction passed generalizing fields mentions with
  | nil => exact ⟨by rwa [List.append_nil], List.prefix_rfl, rfl⟩
  | cons f passed ih =>
    obtain ⟨first, more, here⟩ := h.declare f.1 f.2
    obtain ⟨rest, more', points⟩ := ih first
    rw [List.append_assoc] at rest
    refine ⟨rest, more.trans more', ?_⟩
    -- What is declared later leaves the first position alone.
    exact congrArg₂ (· ++ ·) (here.mono more') points

/-! ## What a builder was told -/

/-- Whether a builder was told to add some tags, in that order, each with its fields. -/
structure Tells (b : VariantBuilder) (calls : List (Ident × List (Ident × TypeRef))) : Prop where
  declares : Declares b.fields (calls.flatMap (·.2))
  tags : List.Forall₂ (fun call tag => tag.1 = call.1 ∧ Points (b.fields.map (·.1)) call.2 tag.2)
    calls b.tags
  initial : b.initial = 0

theorem tells_empty : Tells empty [] :=
  ⟨⟨rfl, List.nodup_nil, List.forall_mem_nil _⟩, .nil, rfl⟩

/-- Tags that were added before still point to the same names. -/
theorem Tells.tag (h : b.Tells calls) (id : Ident) (passed : List (Ident × TypeRef)) :
    (b.tag id passed).Tells (calls ++ [(id, passed)]) := by
  obtain ⟨declares, more, points⟩ := h.declares.declareAll passed
  refine ⟨?_, ?_, h.initial⟩
  · rw [List.flatMap_append, List.flatMap_singleton]
    exact declares
  · refine List.rel_append ?_ (.cons ⟨rfl, points⟩ .nil)
    exact h.tags.imp fun _ _ told => ⟨told.1, told.2.mono more⟩

theorem tells_ofTags (calls : List (Ident × List (Ident × TypeRef))) : (ofTags calls).Tells calls := by
  have added (before : List (Ident × List (Ident × TypeRef))) (b : VariantBuilder)
      (h : b.Tells before) :
      (calls.foldl (fun b call => b.tag call.1 call.2) b).Tells (before ++ calls) := by
    induction calls generalizing before b with
    | nil => rwa [List.append_nil]
    | cons call calls ih =>
      rw [List.append_cons]
      exact ih _ _ (h.tag call.1 call.2)
  exact added [] empty tells_empty

theorem Tells.declaredTags (h : b.Tells calls) :
    List.Forall₂ (fun call tag => tag.id = call.1 ∧ Points (b.fields.map (·.1)) call.2 tag.fields)
      calls b.declaredTags :=
  List.forall₂_map_right_iff.2 h.tags

/-- There is a first tag if the builder was told of one. -/
theorem Tells.exists_first (h : b.Tells calls) (some_call : calls ≠ []) :
    ∃ initial, b.declaredTags[0]? = some initial := by
  cases tags : b.declaredTags with
  | nil =>
    have none := h.declaredTags
    rw [tags, List.forall₂_nil_right_iff] at none
    exact absurd none some_call
  | cons initial rest => exact ⟨initial, rfl⟩

/-- All positions are among the names that were mentioned. -/
theorem Tells.position_lt (h : b.Tells calls) :
    ∀ tag ∈ b.declaredTags, ∀ pos ∈ tag.fields,
      pos < ((calls.flatMap (·.2)).map (·.1)).eraseDups.length := by
  intro tag ht pos hp
  obtain ⟨call, -, -, points⟩ := exists_mem_of_forall₂ h.declaredTags.flip ht
  exact h.declares.names ▸ points.lt pos hp

/-- What was told makes a variant if no tag comes twice and no tag names a field twice. -/
theorem Tells.variantFormed_iff (h : b.Tells calls) {declared : List (Ident × Ty)} {initial : Tag}
    (names : declared.map (·.1) = b.fields.map (·.1)) (member : initial ∈ b.declaredTags) :
    Kind.VariantFormed declared b.declaredTags initial ↔
      (calls.map (·.1)).Nodup ∧ ∀ call ∈ calls, (call.2.map (·.1)).Nodup := by
  have ids : b.declaredTags.map (·.id) = calls.map (·.1) := by
    rw [← List.forall₂_eq_eq_eq, List.forall₂_map_left_iff, List.forall₂_map_right_iff]
    exact h.declaredTags.flip.imp fun _ _ told => told.1
  constructor
  · intro formed
    refine ⟨ids ▸ formed.tags_nodup, fun call hc => ?_⟩
    obtain ⟨tag, ht, -, points⟩ := exists_mem_of_forall₂ h.declaredTags hc
    exact (points.nodup_iff h.declares.nodup).1 (formed.positions_nodup tag ht)
  · rintro ⟨tags, each⟩
    refine ⟨names ▸ h.declares.nodup, ids ▸ tags, member, fun tag ht => ?_, fun tag ht pos hp => ?_⟩
    · obtain ⟨call, hc, -, points⟩ := exists_mem_of_forall₂ h.declaredTags.flip ht
      exact (points.nodup_iff h.declares.nodup).2 (each call hc)
    · rw [← List.length_map (·.1), names, h.declares.names]
      exact h.position_lt tag ht pos hp

end TypeRef.VariantBuilder

/-! ## Reading what was written -/

namespace Constructor.Args

variable {args : Args} {i : Nat}

/-- A position that fits into 64 bits is read back. -/
theorem position?_count {n : Nat} (h : n < 2 ^ 63) : position? (.count n) = some n := by
  have back : (Int64.ofNat n).toInt = n := Int64.toInt_ofNat_of_lt h
  simp only [position?, Value.count, Value.int?, Option.bind_eq_bind, Option.bind_some, back]
  rw [if_pos (Int.natCast_nonneg n), Int.toNat_natCast]

theorem positionLists_of_value {lists : List (List Nat)}
    (h : args.values[i]? = some (.array (lists.map fun row => .array (row.map .count))))
    (small : ∀ row ∈ lists, ∀ pos ∈ row, pos < 2 ^ 63) : args.positionLists i = .ok lists := by
  have rows : args.list i = .ok (lists.map fun row => .array (row.map .count)) :=
    form_of_value h rfl
  rw [positionLists, rows, Outcome.ok_bind]
  clear h rows
  induction lists with
  | nil => rfl
  | cons row lists ih =>
    rw [List.forall_mem_cons] at small
    have items : (row.map Value.count).mapM (args.item i "an index" position?) = .ok row :=
      mapM_item Value.count fun pos hp => position?_count (small.1 pos hp)
    have array : args.item i "an array" Value.array? (.array (row.map .count)) =
        .ok (row.map .count) := by simp [item, Value.array?]
    rw [List.map_cons, List.mapM_cons, array, Outcome.ok_bind, items, Outcome.ok_bind, ih small.2]
    rfl

end Constructor.Args

namespace Core

open Constructor (Args)

variable {args : Args} {kind : Kind Ty} {fields : List (Ident × Ty)} {tags : List Tag}

theorem positionFault?_of_nodup {tag : Ident} {declared : Nat} {before positions : List Nat}
    (nodup : positions.Nodup) (inside : ∀ pos ∈ positions, pos < declared)
    (fresh : ∀ pos ∈ positions, pos ∉ before) :
    positionFault? tag declared before positions = none := by
  induction positions generalizing before with
  | nil => rfl
  | cons pos positions ih =>
    obtain ⟨new, nodup⟩ := List.nodup_cons.1 nodup
    rw [List.forall_mem_cons] at inside fresh
    rw [positionFault?, if_neg (Nat.not_le.2 inside.1), if_neg fresh.1]
    refine ih nodup inside.2 fun x hx => ?_
    rw [List.mem_cons, not_or]
    exact ⟨fun same => new (same ▸ hx), fresh.2 x hx⟩

theorem tagFault?_of_nodup {declared : Nat} {before : List Ident}
    (nodup : (tags.map (·.id)).Nodup) (fresh : ∀ tag ∈ tags, tag.id ∉ before)
    (positions : ∀ tag ∈ tags, tag.fields.Nodup ∧ ∀ pos ∈ tag.fields, pos < declared) :
    tagFault? declared before tags = none := by
  induction tags generalizing before with
  | nil => rfl
  | cons tag tags ih =>
    obtain ⟨new, nodup⟩ := List.nodup_cons.1 nodup
    rw [List.forall_mem_cons] at fresh positions
    have sound : positionFault? tag.id declared [] tag.fields = none :=
      positionFault?_of_nodup positions.1.1 positions.1.2 fun _ _ => List.not_mem_nil
    rw [tagFault?, if_neg fresh.1, sound]
    refine ih nodup (fun x hx => ?_) positions.2
    rw [List.mem_cons, not_or]
    exact ⟨fun same => new (List.mem_map.2 ⟨x, hx, same⟩), fresh.2 x hx⟩

/-- A variant is made of fields and tags that are well-formed, and of no others. -/
theorem makeVariant_eq_ok {initial : Nat} :
    makeVariant fields tags initial = .ok kind ↔ ∃ start, tags[initial]? = some start ∧
      Kind.VariantFormed fields tags start ∧ kind = .variant fields tags start := by
  refine ⟨formed_of_makeVariant, ?_⟩
  rintro ⟨start, found, formed, rfl⟩
  have some_tag : tags.isEmpty = false := List.isEmpty_eq_false_iff.2
    (List.ne_nil_of_mem (List.mem_of_getElem? found))
  have unique : firstRepeat? [] (fields.map (·.1)) = none :=
    firstRepeat?_of_nodup formed.fields_nodup fun _ _ => List.not_mem_nil
  have sound : tagFault? fields.length [] tags = none :=
    tagFault?_of_nodup formed.tags_nodup (fun _ _ => List.not_mem_nil) fun tag ht =>
      ⟨formed.positions_nodup tag ht, formed.positions_lt tag ht⟩
  rw [makeVariant, some_tag, found, unique, sound]
  rfl

theorem buildVariant_eq_ok {ids : List Ident} {initial : UInt32}
    (count : ids.length = args.types.length)
    (values : args.values = [.idents ids, .idents (tags.map (·.id)),
      .array (tags.map fun t => .array (t.fields.map .count)), .count initial.toNat])
    (small : ∀ t ∈ tags, ∀ pos ∈ t.fields, pos < 2 ^ 63) :
    buildVariant args = .ok kind ↔
      makeVariant (ids.zip args.types) tags initial.toNat = .ok kind := by
  have first : args.idents 0 = .ok ids := Args.idents_of_value (by rw [values]; rfl)
  have second : args.idents 1 = .ok (tags.map (·.id)) := Args.idents_of_value (by rw [values]; rfl)
  have third : args.positionLists 2 = .ok (tags.map (·.fields)) :=
    Args.positionLists_of_value (by rw [values, List.map_map]; rfl) (List.forall_mem_map.2 small)
  have fourth : args.count 3 = .ok initial := Registry.count_of_value (by rw [values]; rfl)
  have again : ((tags.map (·.id)).zip (tags.map (·.fields))).map (fun t => (⟨t.1, t.2⟩ : Tag)) =
      tags := by
    rw [List.zip_map', List.map_map]
    exact List.map_id tags
  simp only [buildVariant, Args.expectValues, values, first, second, third, fourth, Outcome.ok_bind,
    List.length_map, count, again]
  cases made : makeVariant (ids.zip args.types) tags initial.toNat <;> simp [Args.refuse]

end Core

namespace Registry

open TypeRef (VariantBuilder)
open TypeRef.VariantBuilder (Points ofTags tells_ofTags)

variable {home : Nat} {kind : Kind Ty}

/-- A reference to a variant resolves if the fields and tags that it is written from are well-formed,
and then to a variant of them. -/
theorem makes_variant {b : VariantBuilder} {types : List Ty} (start : b.initial < UInt32.size)
    (args : List.Forall₂ (fun f t => (core home).resolve f.2 = .ok t) b.fields types)
    (small : ∀ tag ∈ b.declaredTags, ∀ pos ∈ tag.fields, pos < 2 ^ 63) :
    (core home).Makes b.build kind ↔ ∃ initial, b.declaredTags[b.initial]? = some initial ∧
      Kind.VariantFormed ((b.fields.map (·.1)).zip types) b.declaredTags initial ∧
        kind = .variant ((b.fields.map (·.1)).zip types) b.declaredTags initial := by
  have number : (UInt32.ofNat b.initial).toNat = b.initial := UInt32.toNat_ofNat_of_lt' start
  have count : (b.fields.map (·.1)).length = types.length := by
    rw [List.length_map, args.length_eq]
  have written : [Value.idents (b.fields.map (·.1)), .idents (b.tags.map (·.1)),
      .array (b.tags.map fun t => .array (t.2.map .count)), .count b.initial] =
      [.idents (b.fields.map (·.1)), .idents (b.declaredTags.map (·.id)),
        .array (b.declaredTags.map fun t => .array (t.fields.map .count)),
        .count (UInt32.ofNat b.initial).toNat] := by
    rw [number, VariantBuilder.declaredTags, List.map_map, List.map_map]
    rfl
  rw [VariantBuilder.build, makes_constructed (.atLeast 0) Core.buildVariant rfl
    (List.forall₂_map_left_iff.2 args), Core.buildVariant_eq_ok count written small, number,
    Core.makeVariant_eq_ok]
  exact and_iff_right (by simp [Arity.accepts])

/-- The fields of a builder that was told of resolvable types resolve, each by its first mention. -/
theorem exists_types {b : VariantBuilder} {calls : List (Ident × List (Ident × TypeRef))}
    (told : b.Tells calls) (resolves : ∀ call ∈ calls, ∀ f ∈ call.2, (core home).Resolves f.2) :
    ∃ types, List.Forall₂ (fun f t => (core home).resolve f.2 = .ok t ∧
      (calls.flatMap (·.2)).lookup f.1 = some f.2) b.fields types := by
  have known (f : Ident × TypeRef) (hf : f ∈ b.fields) : ∃ t, ((core home).resolve f.2 = .ok t ∧
      (calls.flatMap (·.2)).lookup f.1 = some f.2) ∧ True := by
    have mentioned := told.declares.types f hf
    obtain ⟨front, back, split, -⟩ := List.lookup_eq_some_iff.1 mentioned
    have mem : (f.1, f.2) ∈ calls.flatMap (·.2) := by
      rw [split]
      exact List.mem_append_right _ List.mem_cons_self
    obtain ⟨call, hc, passed⟩ := List.mem_flatMap.1 mem
    exact (resolves call hc _ passed).imp fun _ resolved => ⟨⟨resolved, mentioned⟩, trivial⟩
  obtain ⟨types, related, -⟩ := exists_forall₂ known
  exact ⟨types, related⟩

/-- What the builder is told is what the type declares. A variant that is written tag by tag resolves
if there is a tag, no tag comes twice and no tag names a field twice. Then its type declares every
name once, in order of first mention and with the type that is given there, and the positions of
each tag are those of the fields that were passed for it, in their order. Values start with the
first tag. Positions are written as numbers of 64 bits, so the fields have to be as few. -/
theorem variant_spec {calls : List (Ident × List (Ident × TypeRef))}
    (resolves : ∀ call ∈ calls, ∀ f ∈ call.2, (core home).Resolves f.2)
    (few : ((calls.flatMap (·.2)).map (·.1)).eraseDups.length ≤ 2 ^ 63) :
    let ref := (ofTags calls).build
    let mentions := calls.flatMap (·.2)
    ((core home).Resolves ref ↔ calls ≠ [] ∧ (calls.map (·.1)).Nodup ∧
      ∀ call ∈ calls, (call.2.map (·.1)).Nodup) ∧
    ∀ t, (core home).resolve ref = .ok t → ∃ fields tags initial,
      t.kind = .variant fields tags initial ∧
      fields.map (·.1) = (mentions.map (·.1)).eraseDups ∧
      (∀ f ∈ fields, ∃ type, mentions.lookup f.1 = some type ∧
        (core home).resolve type = .ok f.2) ∧
      List.Forall₂ (fun call tag => tag.id = call.1 ∧
        tag.fields.map ((fields.map (·.1))[·]?) = call.2.map fun f => some f.1) calls tags ∧
      tags.head? = some initial := by
  intro ref mentions
  have told := tells_ofTags calls
  obtain ⟨types, args⟩ := exists_types told resolves
  have small : ∀ tag ∈ (ofTags calls).declaredTags, ∀ pos ∈ tag.fields, pos < 2 ^ 63 :=
    fun tag ht pos hp => Nat.lt_of_lt_of_le (told.position_lt tag ht pos hp) few
  have makes (kind : Kind Ty) := @makes_variant home kind (ofTags calls) types
    (told.initial ▸ by decide) (args.imp fun _ _ h => h.1) small
  rw [told.initial] at makes
  have names : (((ofTags calls).fields.map (·.1)).zip types).map (·.1) =
      (ofTags calls).fields.map (·.1) := List.map_fst_zip (by simp [args.length_eq])
  refine ⟨⟨?_, ?_⟩, ?_⟩
  · rintro ⟨t, ht⟩
    obtain ⟨initial, found, formed, -⟩ := (makes t.kind).1 ⟨t, ht, rfl⟩
    refine ⟨?_, (told.variantFormed_iff names (List.mem_of_getElem? found)).1 formed⟩
    rintro rfl
    cases found
  · rintro ⟨some_call, each⟩
    obtain ⟨initial, found⟩ := told.exists_first some_call
    have formed := (told.variantFormed_iff names (List.mem_of_getElem? found)).2 each
    exact ((makes _).2 ⟨initial, found, formed, rfl⟩).imp fun _ made => made.1
  · intro t ht
    obtain ⟨initial, found, formed, hk⟩ := (makes t.kind).1 ⟨t, ht, rfl⟩
    refine ⟨_, _, initial, hk, names.trans told.declares.names, fun f hf => ?_, ?_, ?_⟩
    · rw [List.zip_map_left, List.mem_map] at hf
      obtain ⟨p, hp, rfl⟩ := hf
      obtain ⟨resolved, mentioned⟩ := List.forall₂_zip args hp
      exact ⟨p.1.2, mentioned, resolved⟩
    · rw [names]
      exact told.declaredTags
    · rw [List.head?_eq_getElem?, found]

/-- A label that two tags share, the second time with another type, a tag without fields, and a tag
that names the fields in another order. -/
theorem variant_spec_shape :
    let calls : List (Ident × List (Ident × TypeRef)) :=
      [(⟨"circle"⟩, [(⟨"label"⟩, .text), (⟨"radius"⟩, .intRange 1 9)]), (⟨"point"⟩, []),
        (⟨"square"⟩, [(⟨"side"⟩, .int), (⟨"label"⟩, .bool)])]
    ∃ t fields tags initial, (core 0).resolve (ofTags calls).build = .ok t ∧
      t.kind = .variant fields tags initial ∧
      fields.map (·.1) = [⟨"label"⟩, ⟨"radius"⟩, ⟨"side"⟩] ∧
      (∀ f ∈ fields, ∃ type, (calls.flatMap (·.2)).lookup f.1 = some type ∧
        (core 0).resolve type = .ok f.2) ∧
      List.Forall₂ (fun call tag => tag.id = call.1 ∧
        tag.fields.map ((fields.map (·.1))[·]?) = call.2.map fun f => some f.1) calls tags ∧
      tags.head? = some initial := by
  intro calls
  have resolves : ∀ call ∈ calls, ∀ f ∈ call.2, (core 0).Resolves f.2 := by
    simp only [calls, List.forall_mem_cons, List.not_mem_nil, false_imp_iff, implies_true, and_true,
      true_and]
    exact ⟨⟨⟨_, rfl⟩, _, rfl⟩, ⟨_, rfl⟩, _, rfl⟩
  obtain ⟨resolves_iff, declares⟩ := variant_spec resolves (by decide)
  obtain ⟨t, ht⟩ := resolves_iff.2 (by decide)
  obtain ⟨fields, tags, initial, hk, names, types, told, first⟩ := declares t ht
  exact ⟨t, fields, tags, initial, ht, hk, names, types, told, first⟩

end Registry

end TypedTree
