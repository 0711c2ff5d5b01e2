import TypedTree.Proofs.Comparison
import TypedTree.Proofs.Scoping

/-!
# Instances of well scoped generics

A bound generic of the core registry whose reference is closed and well scoped has an instance, and
the reference to the instance is closed and well scoped again. Putting bindings in place keeps
references resolvable, since the constructors of the core namespace ask how many type arguments they
are given and not which.

## Main definitions

* `Kind.Alike`: whether two kinds differ in their parts only.

## Main statements

* `Core.build_withTypes`: constructors succeed whatever their type arguments are, and build the same
  kind around them.
* `Registry.ref_of_var`, `Registry.ref_of_generic`, `Registry.ref_of_plain`: what the kind of a type
  says about its reference.
* `Registry.freeDepth_lt_iff`: how far the free variables of a type reach.
* `Registry.exists_instance`: well scoped generics have instances.
-/

namespace TypedTree

namespace Kind

/-- Whether two kinds are the same but for their parts, which correspond one by one. -/
inductive Alike (R : Ty → Ty → Prop) : Kind Ty → Kind Ty → Prop
  | same {k} (none : k.parts = []) : Alike R k k
  | record {fs gs} (fields : List.Forall₂
      (fun f g => f.id = g.id ∧ f.optional = g.optional ∧ R f.type g.type) fs gs) :
      Alike R (.record fs) (.record gs)
  | variant {fs gs tags initial} (fields : List.Forall₂ (fun f g => f.1 = g.1 ∧ R f.2 g.2) fs gs) :
      Alike R (.variant fs tags initial) (.variant gs tags initial)
  | array {e f size} (element : R e f) : Alike R (.array e size) (.array f size)
  | sum {xs ys initial} (summands : List.Forall₂ R xs ys) :
      Alike R (.sum xs initial) (.sum ys initial)
  | tuple {xs ys} (slots : List.Forall₂ R xs ys) : Alike R (.tuple xs) (.tuple ys)
  | generic {r r' x y vars bs cs} (inner : R x y)
      (bindings : List.Forall₂ (fun b c => R b.2 c.2) bs cs) :
      Alike R (.generic r x vars bs) (.generic r' y vars cs)
  | map {s t s' t'} (source : R s s') (target : R t t') : Alike R (.map s t) (.map s' t')

end Kind

namespace Core

open Constructor (Args)

variable {args : Args} {kind : Kind Ty} {types : List Ty} {refs : List TypeRef}
  {R : Ty → Ty → Prop}

/-! ## Constructors and their type arguments -/

theorem alike_recordFields {ids : List Ident} {flags : List Bool} {ts : List Ty}
    (related : List.Forall₂ R ts types) :
    (Kind.record (recordFields ids ts flags)).Alike R (.record (recordFields ids types flags)) := by
  refine .record ?_
  induction related generalizing ids flags with
  | nil => cases ids <;> simp [recordFields]
  | cons first _ ih =>
    cases ids with
    | nil => simp [recordFields]
    | cons id ids =>
      cases flags with
      | nil => simp [recordFields]
      | cons flag flags => exact .cons ⟨rfl, rfl, first⟩ ih

theorem forall₂_zip {α β γ δ : Type} {S : α → β → Prop} {T : γ → δ → Prop} {as : List α}
    {bs : List β} {cs : List γ} {ds : List δ} (first : List.Forall₂ S as bs)
    (second : List.Forall₂ T cs ds) :
    List.Forall₂ (fun x y => S x.1 y.1 ∧ T x.2 y.2) (as.zip cs) (bs.zip ds) := by
  induction first generalizing cs ds with
  | nil => exact .nil
  | cons left _ ih =>
    cases second with
    | nil => exact .nil
    | cons right rest => exact .cons ⟨left, right⟩ (ih rest)

theorem build_record_withTypes (related : List.Forall₂ R args.types types)
    (h : buildRecord args = .ok kind) :
    ∃ kind', buildRecord { args with refs, types } = .ok kind' ∧ kind.Alike R kind' := by
  simp only [buildRecord, Outcome.bind_eq_ok] at h ⊢
  obtain ⟨u, values, ids, hi, flags, hf, h⟩ := h
  split at h
  · simp [Args.refuse] at h
  · rename_i lengths
    split at h
    · simp [Args.refuse] at h
    · rename_i unique
      obtain rfl := Except.ok.inj h
      refine ⟨.record (recordFields ids types flags), ⟨u, values, ids, hi, flags, hf, ?_⟩,
        alike_recordFields related⟩
      rw [← related.length_eq, if_neg lengths, unique]

/-- What is asked of the fields of a variant are their names. -/
theorem makeVariant_withTypes {fields fields' : List (Ident × Ty)} {tags : List Tag} {initial : Nat}
    (related : List.Forall₂ (fun f g => f.1 = g.1 ∧ R f.2 g.2) fields fields')
    (h : makeVariant fields tags initial = .ok kind) :
    ∃ kind', makeVariant fields' tags initial = .ok kind' ∧ kind.Alike R kind' := by
  have names : fields'.map (·.1) = fields.map (·.1) := by
    clear h
    induction related with
    | nil => rfl
    | cons first _ ih => rw [List.map_cons, List.map_cons, first.1, ih]
  rw [makeVariant] at h ⊢
  rw [names, ← related.length_eq]
  split at h
  · simp at h
  · rename_i some_tag
    split at h
    · simp at h
    · rename_i start _
      split at h
      · simp at h
      · split at h
        · simp at h
        · obtain rfl := Except.ok.inj h
          exact ⟨.variant fields' tags start, if_neg some_tag, .variant related⟩

theorem build_variant_withTypes (related : List.Forall₂ R args.types types)
    (h : buildVariant args = .ok kind) :
    ∃ kind', buildVariant { args with refs, types } = .ok kind' ∧ kind.Alike R kind' := by
  simp only [buildVariant, Outcome.bind_eq_ok] at h ⊢
  obtain ⟨u, values, ids, hi, tags, ht, lists, hl, initial, hn, h⟩ := h
  split at h
  · simp [Args.refuse] at h
  · rename_i lengths
    split at h
    · rename_i made
      obtain rfl := Except.ok.inj h
      obtain ⟨kind', made', alike⟩ := makeVariant_withTypes
        (forall₂_zip (List.forall₂_refl ids) related) made
      refine ⟨kind', ⟨u, values, ids, hi, tags, ht, lists, hl, initial, hn, ?_⟩, alike⟩
      rw [← related.length_eq, if_neg lengths, made']
    · simp [Args.refuse] at h

theorem build_array_withTypes (related : List.Forall₂ R args.types types)
    (h : buildArray args = .ok kind) :
    ∃ kind', buildArray { args with refs, types } = .ok kind' ∧ kind.Alike R kind' := by
  simp only [buildArray, Outcome.bind_eq_ok] at h ⊢
  obtain ⟨u, values, min, hmin, max, hmax, initial, hn, h⟩ := h
  split at h
  · simp [Args.refuse] at h
  · rename_i few
    split at h
    · rename_i element single
      split at h
      · rename_i bounds
        obtain rfl := Except.ok.inj h
        rw [single, List.forall₂_cons_left_iff] at related
        obtain ⟨element', _, first, rest, rfl⟩ := related
        obtain rfl := List.forall₂_nil_left_iff.1 rest
        refine ⟨.array element' ⟨min, max, initial, bounds.1, bounds.2⟩, ⟨u, values, min, hmin, max,
          hmax, initial, hn, ?_⟩, .array first⟩
        rw [if_neg few]
        exact dif_pos bounds
      · simp [Args.refuse] at h
    · simp at h

theorem build_sum_withTypes (related : List.Forall₂ R args.types types)
    (h : buildSum args = .ok kind) :
    ∃ kind', buildSum { args with refs, types } = .ok kind' ∧ kind.Alike R kind' := by
  simp only [buildSum, Outcome.bind_eq_ok] at h ⊢
  obtain ⟨u, values, initial, hn, h⟩ := h
  split at h
  · rename_i inside
    obtain rfl := Except.ok.inj h
    exact ⟨.sum types initial, ⟨u, values, initial, hn, if_pos (related.length_eq ▸ inside)⟩,
      .sum related⟩
  · simp [Args.refuse] at h

theorem build_generic_withTypes (names : refs.length = args.refs.length)
    (related : List.Forall₂ R args.types types) (h : buildGeneric args = .ok kind) :
    ∃ kind', buildGeneric { args with refs, types } = .ok kind' ∧ kind.Alike R kind' := by
  simp only [buildGeneric, Outcome.bind_eq_ok] at h ⊢
  obtain ⟨u, values, vars, hv, h⟩ := h
  split at h
  · simp [Args.refuse] at h
  · rename_i few
    split at h
    · rename_i body bodies inner inners hr ht
      rw [hr] at names
      rw [ht, List.forall₂_cons_left_iff] at related
      obtain ⟨inner', inners', first, rest, rfl⟩ := related
      obtain ⟨body', bodies', rfl⟩ := List.exists_cons_of_length_eq_add_one names
      have none : inners'.isEmpty = inners.isEmpty := by
        rw [Bool.eq_iff_iff, List.isEmpty_iff_length_eq_zero, List.isEmpty_iff_length_eq_zero,
          rest.length_eq]
      split at h
      · rename_i all
        obtain rfl := Except.ok.inj h
        have bound :
            List.Forall₂ (fun b c => R b.2 c.2) (bodies.zip inners) (bodies'.zip inners') := by
          have written : List.Forall₂ (fun _ _ => True) bodies bodies' :=
            List.forall₂_iff_zip.2 ⟨(Nat.succ.inj names).symm, fun _ => trivial⟩
          exact (forall₂_zip written rest).imp fun _ _ each => each.2
        refine ⟨.generic body' inner' vars (bodies'.zip inners'), ⟨u, values, vars, hv, ?_⟩,
          .generic first bound⟩
        rw [if_neg few]
        exact if_pos (by rwa [none, ← rest.length_eq])
      · simp [Args.refuse] at h
    · simp at h

theorem build_map_withTypes (related : List.Forall₂ R args.types types)
    (h : buildMap args = .ok kind) :
    ∃ kind', buildMap { args with refs, types } = .ok kind' ∧ kind.Alike R kind' := by
  simp only [buildMap, Outcome.bind_eq_ok] at h ⊢
  obtain ⟨u, values, h⟩ := h
  split at h
  · rename_i source target pair
    obtain rfl := Except.ok.inj h
    simp only [pair, List.forall₂_cons_left_iff, List.forall₂_nil_left_iff] at related
    obtain ⟨source', _, first, ⟨target', _, second, rfl, rfl⟩, rfl⟩ := related
    exact ⟨.map source' target', ⟨u, values, rfl⟩, .map first second⟩
  · simp at h

/-- A constructor of the core namespace that succeeds does so with any other type arguments of the
same number, and builds the same kind around them. -/
theorem build_withTypes {c : Constructor} (hc : c ∈ constructors)
    (arity : c.arity.accepts args.types.length = true) (names : refs.length = args.refs.length)
    (related : List.Forall₂ R args.types types) (h : c.build args = .ok kind) :
    ∃ kind', c.build { args with refs, types } = .ok kind' ∧ kind.Alike R kind' := by
  have no_types (count : (Arity.exactly 0).accepts args.types.length = true) :
      args.types = [] := by
    simpa [Arity.accepts] using count
  -- a constructor without type arguments builds the same kind again
  have unchanged {build : Args → Except TypeError (Kind Ty)} {word : String}
      (h : build { args with refs, types } = .ok kind) (none : args.types = [])
      (built : Built args word kind) :
      ∃ kind', build { args with refs, types } = .ok kind' ∧ kind.Alike R kind' :=
    ⟨kind, h, .same (built.parts.trans none)⟩
  simp only [constructors, List.mem_cons, List.not_mem_nil, or_false] at hc
  rcases hc with rfl | rfl | rfl | rfl | rfl | rfl | rfl | rfl | rfl | rfl | rfl
  · exact unchanged h (no_types arity) (built_intRange (no_types arity) h)
  · exact unchanged h (no_types arity) (built_rationalRange (no_types arity) h)
  · exact unchanged h (no_types arity) (built_enumeration (no_types arity) h)
  · exact build_record_withTypes related h
  · exact build_variant_withTypes related h
  · exact build_array_withTypes related h
  · exact build_sum_withTypes related h
  · obtain ⟨u, values, built⟩ := Outcome.bind_eq_ok.1 h
    obtain rfl := Except.ok.inj built
    exact ⟨.tuple types, Outcome.bind_eq_ok.2 ⟨u, values, rfl⟩, .tuple related⟩
  · exact build_generic_withTypes names related h
  · exact unchanged h (no_types arity) (built_var (no_types arity) h)
  · exact build_map_withTypes related h

/-- The constructors of the core namespace check nothing before they build. -/
theorem check_eq_ok {c : Constructor} (hc : c ∈ constructors) : c.check args = .ok () := by
  simp only [constructors, List.mem_cons, List.not_mem_nil, or_false] at hc
  rcases hc with rfl | rfl | rfl | rfl | rfl | rfl | rfl | rfl | rfl | rfl | rfl <;> rfl

/-! ## Value arguments of variables and generics -/

theorem value_of_count {i : Nat} {n : UInt32} (h : args.count i = .ok n) :
    args.values[i]? = some (.count n.toNat) := by
  simp only [Args.count, Args.int, Args.form, Outcome.bind_eq_ok] at h
  obtain ⟨m, ⟨v, hv, hm⟩, h⟩ := h
  have found : args.values[i]? = some v := by
    rw [Args.value] at hv
    split at hv <;> simp_all [Args.refuse]
  have whole : v.int? = some m := by
    split at hm <;> simp_all [Args.refuse]
  split at h
  · rename_i range
    obtain rfl := Except.ok.inj h
    have small : v.uint32? = some (.ofNat m.toInt.toNat) := by
      simp [Value.uint32?, whole, range]
    rw [found, TypeRef.eq_count_of_uint32? small]
  · simp [Args.refuse] at h

theorem length_of_expectValues {count : Nat} {u : Unit} (h : args.expectValues count = .ok u) :
    args.values.length = count := by
  rw [Args.expectValues] at h
  split at h
  · assumption
  · simp [Args.refuse] at h

theorem values_of_buildVar {v : TypeVar} (h : buildVar args = .ok (.var v)) :
    args.values = [.count v.index.toNat, .count v.depth.toNat] := by
  simp only [buildVar, Outcome.bind_eq_ok, Except.ok.injEq, Kind.var.injEq] at h
  obtain ⟨u, two, index, hi, depth, hd, rfl⟩ := h
  obtain ⟨x, y, values⟩ := List.length_eq_two.1 (length_of_expectValues two)
  have first := value_of_count hi
  have second := value_of_count hd
  rw [values] at first second ⊢
  rw [Option.some.inj first, Option.some.inj second]

theorem values_of_buildGeneric {body : TypeRef} {inner : Ty} {vars : UInt32}
    {bindings : List (TypeRef × Ty)} (h : buildGeneric args = .ok (.generic body inner vars bindings)) :
    args.values = [.count vars.toNat] := by
  simp only [buildGeneric, Outcome.bind_eq_ok] at h
  obtain ⟨u, one, count, hc, h⟩ := h
  obtain ⟨x, values⟩ := List.length_eq_one_iff.1 (length_of_expectValues one)
  have first := value_of_count hc
  rw [values] at first ⊢
  split at h
  · simp [Args.refuse] at h
  · split at h
    · split at h
      · obtain ⟨-, -, rfl, -⟩ := Kind.generic.inj (Except.ok.inj h)
        rw [Option.some.inj first]
      · simp [Args.refuse] at h
    · simp at h

/-- Only one constructor of the core namespace builds variables. -/
theorem build_eq_var {c : Constructor} {v : TypeVar} (hc : c ∈ constructors)
    (names : args.types.map (·.ref) = args.refs)
    (arity : c.arity.accepts args.types.length = true) (h : c.build args = .ok (.var v)) :
    c.id = Core.var ∧ args.refs = [] ∧ c.build = buildVar := by
  have no_types (count : (Arity.exactly 0).accepts args.types.length = true) :
      args.types = [] := by
    simpa [Arity.accepts] using count
  have other {word : String} (built : Built args word (.var v)) (hw : word ≠ "var") : False :=
    hw built.name.symm
  simp only [constructors, List.mem_cons, List.not_mem_nil, or_false] at hc
  rcases hc with rfl | rfl | rfl | rfl | rfl | rfl | rfl | rfl | rfl | rfl | rfl
  · exact (other (built_intRange (no_types arity) h) (by decide)).elim
  · exact (other (built_rationalRange (no_types arity) h) (by decide)).elim
  · exact (other (built_enumeration (no_types arity) h) (by decide)).elim
  · exact (other (built_record h) (by decide)).elim
  · exact (other (built_variant h) (by decide)).elim
  · exact (other (built_array h) (by decide)).elim
  · exact (other (built_sum h) (by decide)).elim
  · exact (other (built_tuple h) (by decide)).elim
  · exact (other (built_generic names h) (by decide)).elim
  · refine ⟨rfl, ?_, rfl⟩
    rw [← names, no_types arity, List.map_nil]
  · exact (other (built_map h) (by decide)).elim

end Core

namespace Registry

variable {home : Nat} {t : Ty}

/-! ## What kinds say about references -/

/-- The constructor under a name builds as the one in the table does. -/
theorem build_of_constructor? {id : GlobalId} {c : Constructor}
    (build : Constructor.Args → Except TypeError (Kind Ty))
    (hc : (core home).constructor? id = some c)
    (known : ((core home).constructor? id).map (·.build) = some build) : c.build = build := by
  rw [hc] at known
  exact Option.some.inj known

/-- A variable has the reference that is written for it. -/
theorem ref_of_var {v : TypeVar} (h : (core home).Owns t) (ht : t.kind = .var v) :
    t.ref = .var v.index v.depth := by
  have own := h
  rw [Owns] at own
  cases hr : t.ref with
  | primitive id =>
    rw [hr] at own
    obtain ⟨p, hp, rfl⟩ := resolve_primitive_eq_ok.1 own
    have listed : p ∈ Core.primitives := List.mem_of_find?_eq_some hp
    simp only [Core.primitives, List.mem_cons, List.not_mem_nil, or_false] at listed
    rcases listed with rfl | rfl | rfl | rfl <;> cases ht
  | constructed id types values =>
    rw [hr] at own
    obtain ⟨c, ts, hc, hs, hb⟩ := resolve_constructed_eq_ok.1 own
    obtain ⟨arity, -, kind, build, rfl⟩ := Constructor.construct_eq_ok.1 hb
    obtain rfl : kind = .var v := ht
    obtain ⟨name, none, builder⟩ := Core.build_eq_var (List.mem_of_find?_eq_some hc)
      (refs_of_forall₂ hs) arity build
    rw [builder] at build
    have written : values = _ := Core.values_of_buildVar build
    obtain rfl : types = [] := none
    rw [← id_of_constructor? hc, name, written]
    rfl

/-- A generic has the reference that is written for its body and bindings. -/
theorem ref_of_generic {body : TypeRef} {inner : Ty} {vars : UInt32}
    {bindings : List (TypeRef × Ty)} (h : (core home).Owns t)
    (ht : t.kind = .generic body inner vars bindings) :
    t.ref = .genericBound body vars (bindings.map (·.1)) := by
  obtain ⟨values, hr⟩ := (forms_of_owns h).ref_of_generic ht
  have own := h
  rw [Owns, hr] at own
  obtain ⟨c, ts, hc, -, hb⟩ := resolve_constructed_eq_ok.1 own
  obtain ⟨-, -, kind, build, whole⟩ := Constructor.construct_eq_ok.1 hb
  obtain rfl : t.kind = kind := by rw [whole]
  rw [build_of_constructor? Core.buildGeneric hc rfl, ht] at build
  have written : values = _ := Core.values_of_buildGeneric build
  rw [hr, written]
  rfl

/-- All other types have a reference that names no variable and no generic. -/
theorem ref_of_plain (h : (core home).Owns t) (plain : t.IsPlain) :
    (∃ id, t.ref = .primitive id) ∨ ∃ c types values, t.ref = .constructed c types values ∧
      TypeRef.var? c values = none ∧ c ≠ Core.generic := by
  cases hr : t.ref with
  | primitive id => exact .inl ⟨id, rfl⟩
  | constructed id types values =>
    refine .inr ⟨id, types, values, rfl, ?_, ?_⟩
    · rw [Option.eq_none_iff_forall_ne_some]
      intro v hv
      obtain ⟨rfl, -⟩ := TypeRef.eq_of_var? hv
      have own := h
      rw [Owns, hr] at own
      obtain ⟨c, ts, hc, -, hb⟩ := resolve_constructed_eq_ok.1 own
      obtain ⟨-, -, kind, build, whole⟩ := Constructor.construct_eq_ok.1 hb
      rw [build_of_constructor? Core.buildVar hc rfl] at build
      simp only [Core.buildVar, Outcome.bind_eq_ok] at build
      obtain ⟨_, -, index, -, depth, -, build⟩ := build
      have var : t.kind = .var ⟨index, depth⟩ := by rw [whole, ← Except.ok.inj build]
      exact Ty.IsVar.not_isPlain ⟨_, var⟩ plain
    · rintro rfl
      have named := (forms_of_owns h).name_generic.2 (by rw [hr]; rfl)
      rw [Ty.IsPlain] at plain
      cases hk : t.kind <;> simp_all [Kind.name]

theorem forall_types_iff {P : TypeRef → Prop} (h : (core home).Owns t) :
    (∀ r ∈ t.ref.types, P r) ↔ ∀ p ∈ t.kind.parts, P p.ref := by
  rw [← (forms_of_owns h).parts_refs, List.forall_mem_map]

theorem eachVar_of_plain {P : Nat → TypeVar → List TypeRef → Prop} {level : Nat}
    (h : (core home).Owns t) (plain : t.IsPlain) :
    t.ref.EachVar P level ↔ ∀ p ∈ t.kind.parts, p.ref.EachVar P level := by
  rw [← forall_types_iff h]
  obtain ⟨id, hr⟩ | ⟨c, types, values, hr, hv, hc⟩ := ref_of_plain h plain
  · simp [hr, TypeRef.EachVar, TypeRef.types]
  · rw [hr]
    exact TypeRef.eachVar_plain hv fun generic => absurd generic hc

theorem scoped_of_plain {scopes : List Nat} (h : (core home).Owns t) (plain : t.IsPlain) :
    t.ref.Scoped scopes ↔ ∀ p ∈ t.kind.parts, p.ref.Scoped scopes := by
  rw [← forall_types_iff h]
  obtain ⟨id, hr⟩ | ⟨c, types, values, hr, hv, hc⟩ := ref_of_plain h plain
  · simp [hr, TypeRef.scoped_primitive, TypeRef.types]
  · rw [hr]
    exact TypeRef.scoped_plain hv fun generic => absurd generic hc

end Registry

/-! ## Free variables -/

namespace Ty

variable {n : Nat} {t : Ty}

theorem var_or_generic_or_plain (t : Ty) :
    t.IsVar ∨ (∃ body inner vars bindings, t.kind = .generic body inner vars bindings) ∨
      t.IsPlain := by
  rw [IsVar, IsPlain]
  cases t.kind <;> simp

theorem deeper_lt_iff {a b : Option Nat} :
    (∀ d ∈ deeper a b, d < n) ↔ (∀ d ∈ a, d < n) ∧ ∀ d ∈ b, d < n := by
  cases a with
  | none => simp [deeper]
  | some d =>
    cases b with
    | none => simp [deeper]
    | some e =>
      simp only [deeper, Option.mem_some_iff, forall_eq']
      exact Nat.max_lt

theorem deepest_lt_iff {depths : List (Option Nat)} :
    (∀ d ∈ deepest depths, d < n) ↔ ∀ depth ∈ depths, ∀ d ∈ depth, d < n := by
  induction depths with
  | nil => simp [deepest]
  | cons depth depths ih =>
    rw [deepest, List.foldr_cons, deeper_lt_iff, List.forall_mem_cons]
    exact and_congr_right fun _ => ih

theorem lower_lt_iff {depth : Option Nat} :
    (∀ d ∈ lower depth, d < n) ↔ ∀ d ∈ depth, d < n + 1 := by
  rcases depth with _ | _ | d <;> simp [lower]

theorem freeDepth_var {v : TypeVar} (ht : t.kind = .var v) : t.freeDepth = some v.depth.toNat := by
  rw [freeDepth, fold_eq, ht]

theorem freeDepth_generic {body : TypeRef} {inner : Ty} {vars : UInt32}
    {bindings : List (TypeRef × Ty)} (ht : t.kind = .generic body inner vars bindings) :
    t.freeDepth = deeper (lower inner.freeDepth) (deepest ((bindings.map (·.2)).map freeDepth)) := by
  rw [freeDepth, fold_eq, ht]
  rfl

theorem freeDepth_plain (plain : t.IsPlain) : t.freeDepth = deepest (t.kind.parts.map freeDepth) := by
  rw [IsPlain] at plain
  rw [freeDepth, fold_eq]
  cases hk : t.kind with
  | generic | var => simp [hk] at plain
  | _ => rfl

end Ty

namespace Registry

variable {home home' : Nat} {t : Ty} {n : Nat}

/-- How far the free variables of a type reach can be seen in its reference. -/
theorem freeDepth_lt_iff (h : (core home).Owns t) :
    (∀ d ∈ t.freeDepth, d < n) ↔ t.ref.BoundWithin n := by
  induction hw : t.ref.weight using Nat.strongRecOn generalizing t n with
  | ind w ih =>
    subst hw
    have forms := forms_of_owns h
    have parts {m : Nat} (p : Ty) (hp : p ∈ t.kind.parts) :
        (∀ d ∈ p.freeDepth, d < m) ↔ p.ref.BoundWithin m :=
      ih _ (forms.weight_part_lt hp) (forms.owns_parts p hp) rfl
    obtain ⟨v, hk⟩ | ⟨body, inner, vars, bindings, hk⟩ | plain := t.var_or_generic_or_plain
    · rw [Ty.freeDepth_var hk, ref_of_var h hk, TypeRef.var, TypeRef.BoundWithin,
        TypeRef.eachVar_var (TypeRef.var?_var v.index v.depth)]
      simp
    · have formed : Kind.Formed (.generic body inner vars bindings) := hk ▸ forms.kind
      rw [hk, Kind.parts] at parts
      rw [Ty.freeDepth_generic hk, Ty.deeper_lt_iff, Ty.lower_lt_iff, Ty.deepest_lt_iff,
        ref_of_generic h hk, TypeRef.genericBound, TypeRef.BoundWithin, TypeRef.eachVar_generic,
        ← formed.inner_ref, ← TypeRef.BoundWithin, parts inner List.mem_cons_self]
      refine and_congr_right fun _ => ?_
      simp only [List.forall_mem_map]
      refine forall₂_congr fun b hb => ?_
      rw [← formed.binding_ref b hb]
      exact parts b.2 (List.mem_cons_of_mem _ (List.mem_map_of_mem hb))
    · rw [Ty.freeDepth_plain plain, Ty.deepest_lt_iff, List.forall_mem_map, TypeRef.BoundWithin,
        eachVar_of_plain h plain]
      exact forall₂_congr parts

/-- A type of the core registry has no free variables if its reference has none. -/
theorem freeDepth_eq_none_iff (h : (core home).Owns t) :
    t.freeDepth = none ↔ t.ref.BoundWithin 0 := by
  rw [← freeDepth_lt_iff h, Option.eq_none_iff_forall_not_mem]
  simp

/-! ## Instances -/

/-- Whether a reference resolves. -/
def Resolves (r : Registry) (ref : TypeRef) : Prop :=
  ∃ t, r.resolve ref = .ok t

/-- A relation that leads on from every member of a list leads on from the list. -/
theorem exists_forall₂ {α β : Type} {R : α → β → Prop} {P : β → Prop} {as : List α}
    (h : ∀ a ∈ as, ∃ b, R a b ∧ P b) : ∃ bs, List.Forall₂ R as bs ∧ ∀ b ∈ bs, P b := by
  induction as with
  | nil => exact ⟨[], .nil, by simp⟩
  | cons a as ih =>
    obtain ⟨b, hb, pb⟩ := h a List.mem_cons_self
    obtain ⟨bs, hbs, pbs⟩ := ih fun x hx => h x (List.mem_cons_of_mem _ hx)
    exact ⟨b :: bs, .cons hb hbs, List.forall_mem_cons.2 ⟨pb, pbs⟩⟩

theorem resolves_types {c : GlobalId} {types : List TypeRef} {values : List Value}
    (h : (core home).Resolves (.constructed c types values)) :
    ∀ t ∈ types, (core home).Resolves t := by
  obtain ⟨t, ht⟩ := h
  obtain ⟨_, ts, -, hs, -⟩ := resolve_constructed_eq_ok.1 ht
  rw [← refs_of_forall₂ hs, List.forall_mem_map]
  exact fun x hx => ⟨x, owns_of_forall₂ hs x hx⟩

/-- A reference that resolves does so with any other type arguments of the same number that resolve,
in whichever type system. -/
theorem resolves_withTypes {c : GlobalId} {types types' : List TypeRef} {values : List Value}
    (h : (core home).Resolves (.constructed c types values)) (count : types'.length = types.length)
    (each : ∀ t ∈ types', (core home').Resolves t) :
    (core home').Resolves (.constructed c types' values) := by
  obtain ⟨t, ht⟩ := h
  obtain ⟨k, ts, hk, hs, hb⟩ := resolve_constructed_eq_ok.1 ht
  obtain ⟨arity, -, kind, build, -⟩ := Constructor.construct_eq_ok.1 hb
  obtain ⟨ts', hs', -⟩ := exists_forall₂ (P := fun _ => True) fun t ht =>
    (each t ht).imp fun _ h => ⟨h, trivial⟩
  have listed : k ∈ Core.constructors := List.mem_of_find?_eq_some hk
  have number : ts'.length = ts.length := by rw [← hs'.length_eq, ← hs.length_eq, count]
  have related : List.Forall₂ (fun _ _ => True) ts ts' :=
    List.forall₂_iff_zip.2 ⟨number.symm, fun _ => trivial⟩
  obtain ⟨kind', build', -⟩ := Core.build_withTypes listed arity count related build
  exact ⟨_, resolve_constructed_eq_ok.2 ⟨k, ts', hk, hs', Constructor.construct_eq_ok.2
    ⟨number ▸ arity, Core.check_eq_ok listed, kind', build', rfl⟩⟩⟩

/-- A reference that resolves in one core type system does so in all others. -/
theorem Resolves.elsewhere {ref : TypeRef} (h : (core home).Resolves ref) :
    (core home').Resolves ref := by
  induction ref using TypeRef.induct_types with
  | primitive id =>
    obtain ⟨t, ht⟩ := h
    obtain ⟨p, hp, -⟩ := resolve_primitive_eq_ok.1 ht
    exact ⟨_, resolve_primitive_eq_ok.2 ⟨p, hp, rfl⟩⟩
  | constructed c types values ih =>
    exact resolves_withTypes h rfl fun t ht => ih t ht (resolves_types h t ht)

/-- Closed bindings can be put in the place of the variables of a scope; the result is scoped as
before without this scope, and resolves if the reference and the bindings do. -/
theorem exists_substitute {bs : List TypeRef} {scopes : List Nat} {r : TypeRef}
    (closed : ∀ b ∈ bs, b.Scoped []) (bound : ∀ b ∈ bs, (core home).Resolves b)
    (within : r.Scoped (scopes ++ [bs.length])) (resolves : (core home).Resolves r) :
    ∃ r', TypeRef.substitute bs scopes.length r = .ok r' ∧ r'.Scoped scopes ∧
      (core home).Resolves r' := by
  induction r using TypeRef.induct_forms generalizing scopes with
  | primitive id => exact ⟨_, rfl, TypeRef.scoped_primitive id, resolves⟩
  | var c types values v hv =>
    obtain ⟨count, found, below⟩ := (TypeRef.scoped_var hv).1 within
    rcases Nat.lt_trichotomy v.depth.toNat scopes.length with inside | here | beyond
    · rw [List.getElem?_append_left inside] at found
      exact ⟨_, TypeRef.substitute_inside hv inside, (TypeRef.scoped_var hv).2 ⟨count, found, below⟩,
        resolves⟩
    · rw [here, List.getElem?_concat_length] at found
      obtain rfl := Option.some.inj found
      have hb : bs[v.index.toNat]? = some bs[v.index.toNat] := List.getElem?_eq_getElem below
      have own := closed _ (List.getElem_mem below)
      refine ⟨_, (TypeRef.substitute_here hv here).2 ⟨_, hb, own.shift _⟩, own.weaken scopes, ?_⟩
      exact bound _ (List.getElem_mem below)
    · have inside := (List.getElem?_eq_some_iff.1 found).1
      rw [List.length_append, List.length_singleton] at inside
      omega
  | generic body bindings values ihb ihs =>
    obtain ⟨count, inner, outer⟩ := TypeRef.scoped_generic.1 within
    have parts := resolves_types resolves
    rw [List.forall_mem_cons] at parts
    have inner : body.Scoped ((TypeRef.varCount values :: scopes) ++ [bs.length]) := inner
    obtain ⟨body', hb, within', resolves'⟩ := ihb inner parts.1
    obtain ⟨bindings', hbs, each⟩ := exists_forall₂ fun b hb => ihs b hb (outer b hb) (parts.2 b hb)
    have number : bindings'.length = bindings.length := hbs.length_eq.symm
    refine ⟨_, TypeRef.substitute_generic_eq_ok.2 ⟨body', bindings', hb, hbs, rfl⟩,
      TypeRef.scoped_generic.2 ⟨number.trans count, within', fun b hb => (each b hb).1⟩, ?_⟩
    refine resolves_withTypes resolves (congrArg (· + 1) number) ?_
    exact List.forall_mem_cons.2 ⟨resolves', fun b hb => (each b hb).2⟩
  | plain c types values hv hc ih =>
    have inner := (TypeRef.scoped_plain hv hc).1 within
    have parts := resolves_types resolves
    obtain ⟨types', hs, each⟩ := exists_forall₂ fun t ht => ih t ht (inner t ht) (parts t ht)
    have hc' : c = Core.generic → types' = [] := TypeRef.nil_of_forall₂ hc hs
    refine ⟨_, (TypeRef.substitute_plain_eq_ok hv hc).2 ⟨types', hs, rfl⟩,
      (TypeRef.scoped_plain hv hc').2 fun t ht => (each t ht).1, ?_⟩
    exact resolves_withTypes resolves hs.length_eq.symm fun t ht => (each t ht).2

/-- A generic with closed bindings has an instance, which is closed again. -/
theorem exists_instance {body : TypeRef} {vars : UInt32} {bindings : List TypeRef}
    (count : bindings.length = vars.toNat) (closed : ∀ b ∈ bindings, b.Scoped [])
    (bound : ∀ b ∈ bindings, (core home).Resolves b) (within : body.Scoped [vars.toNat])
    (resolves : (core home).Resolves body) :
    ∃ s, body.HasInstance (core home).oracle vars bindings s ∧ s.ref.Scoped [] := by
  have within : body.Scoped ([] ++ [bindings.length]) := count.symm ▸ within
  obtain ⟨ref, hr, within', s, hs⟩ := exists_substitute closed bound within resolves
  have expanded := TypeRef.expand_eq_ok.2 ⟨Nat.le_of_eq count.symm, hr⟩
  exact ⟨s, ⟨ref, expanded, hs⟩, (ref_of_resolve hs).symm ▸ within'⟩

end Registry

end TypedTree
