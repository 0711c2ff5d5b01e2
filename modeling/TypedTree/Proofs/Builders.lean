import TypedTree.Proofs.Instances
import TypedTree.Proofs.Sessions
import TypedTree.Proofs.Unsteady

/-!
# What is written is what is built

A reference to a core type is written by flattening what the type is made of into a list of type
arguments and a list of value arguments, and the constructor that resolves it reads both by
position. The two agree. A reference resolves exactly if what was written makes a type, and then the
type is made of what was written, each argument in its place.

## Main definitions

* `Registry.Makes`, `TypeSystem.Makes`: a reference resolves to a type of some kind.

## Main statements

* `Registry.makes_intRange`, …, `Registry.makes_map`: one for each form of reference.
* `TypeSystem.builders_spec`: all of them in any session, with the types that are handed out.
-/

namespace TypedTree

/-! ## Reading value arguments -/

namespace Constructor.Args

variable {args : Args} {i : Nat}

/-- An argument is read as what was written in its form. -/
theorem form_of_value {α : Type} {what : String} {read? : Value → Option α} {v : Value} {a : α}
    (h : args.values[i]? = some v) (read : read? v = some a) :
    args.form i what read? = .ok a := by
  simp [form, value, h, read]

/-- Items that were written in one form are read back. -/
theorem mapM_item {α : Type} {what : String} {read? : Value → Option α} (write : α → Value)
    {as : List α} (back : ∀ a ∈ as, read? (write a) = some a) :
    (as.map write).mapM (args.item i what read?) = .ok as := by
  induction as with
  | nil => rfl
  | cons a as ih =>
    rw [List.forall_mem_cons] at back
    have first : args.item i what read? (write a) = .ok a := by simp [item, back.1]
    simp only [List.map_cons, List.mapM_cons, first, ih back.2, Outcome.ok_bind]
    rfl

theorem idents_of_value {ids : List Ident} (h : args.values[i]? = some (.idents ids)) :
    args.idents i = .ok ids := by
  have items : args.list i = .ok (ids.map .ident) := form_of_value h rfl
  rw [idents, items, Outcome.ok_bind]
  exact mapM_item Value.ident fun _ _ => rfl

theorem booleans_of_value {flags : List Bool}
    (h : args.values[i]? = some (.array (flags.map .bool))) : args.booleans i = .ok flags := by
  have items : args.list i = .ok (flags.map .bool) := form_of_value h rfl
  rw [booleans, items, Outcome.ok_bind]
  exact mapM_item Value.bool fun _ _ => rfl

end Constructor.Args

/-! ## Lists of arguments -/

namespace Enumeration

theorem distinct_filter (p : Ident → Bool) (ids : List Ident) :
    distinct (ids.filter p) = (distinct ids).filter p := by
  induction ids with
  | nil => rfl
  | cons id ids ih =>
    by_cases h : p id = true
    · rw [List.filter_cons_of_pos h, distinct, distinct, List.filter_cons_of_pos h, ih,
        List.filter_filter, List.filter_filter]
      simp only [Bool.and_comm]
    · rw [List.filter_cons_of_neg h, distinct, List.filter_cons_of_neg h, ih, List.filter_filter]
      refine List.filter_congr fun x _ => ?_
      by_cases same : x = id <;> simp [same, h]

/-- Of equal members the first stays, and all that stay keep their order. -/
theorem distinct_eq (ids : List Ident) : distinct ids = ids.eraseDups := by
  induction h : ids.length using Nat.strongRecOn generalizing ids with
  | ind n ih =>
    subst h
    cases ids with
    | nil => rfl
    | cons id ids =>
      have shorter : (ids.filter (· != id)).length < (id :: ids).length :=
        Nat.lt_succ_of_le (List.length_filter_le _ _)
      rw [distinct, ← distinct_filter, ih _ shorter _ rfl, List.eraseDups_cons]
      rfl

end Enumeration

namespace Core

/-- No identifier is found to be repeated if all are different. -/
theorem firstRepeat?_of_nodup {before ids : List Ident} (nodup : ids.Nodup)
    (fresh : ∀ id ∈ ids, id ∉ before) : firstRepeat? before ids = none := by
  induction ids generalizing before with
  | nil => rfl
  | cons id ids ih =>
    obtain ⟨new, rest⟩ := List.nodup_cons.1 nodup
    obtain ⟨first, fresh⟩ := List.forall_mem_cons.1 fresh
    rw [firstRepeat?, if_neg first]
    refine ih rest fun x hx => ?_
    rw [List.mem_cons, not_or]
    exact ⟨fun same => new (same ▸ hx), fresh x hx⟩

theorem recordFields_eq (fields : List TypeRef.RecordField) (types : List Ty) :
    recordFields (fields.map (·.id)) types (fields.map (·.optional)) =
      List.zipWith (fun f t => ⟨f.id, t, f.optional⟩) fields types := by
  induction fields generalizing types with
  | nil => simp [recordFields]
  | cons f fields ih => cases types <;> simp [recordFields, ih]

/-! ## Builders -/

open Constructor (Args)

variable {args : Args} {kind : Kind Ty}

theorem buildIntRange_eq_ok {min max : Int64} (values : args.values = [.int min, .int max]) :
    buildIntRange args = .ok kind ↔ ∃ h : min ≤ max, kind = .int ⟨min, max, h⟩ := by
  have lo : args.int 0 = .ok min := Args.form_of_value (by rw [values]; rfl) rfl
  have hi : args.int 1 = .ok max := Args.form_of_value (by rw [values]; rfl) rfl
  by_cases h : min ≤ max <;>
    simp [buildIntRange, emptyRange, Args.expectValues, Args.refuse, IntRange.make?, values, lo, hi,
      h, eq_comm]

theorem buildRationalRange_eq_ok {min max : Rational}
    (values : args.values = [.rational min, .rational max]) :
    buildRationalRange args = .ok kind ↔ ∃ h : min ≤ max, kind = .rational ⟨min, max, h⟩ := by
  have lo : args.number 0 = .ok min := Args.form_of_value (by rw [values]; rfl) rfl
  have hi : args.number 1 = .ok max := Args.form_of_value (by rw [values]; rfl) rfl
  by_cases h : min ≤ max <;>
    simp [buildRationalRange, emptyRange, Args.expectValues, Args.refuse, RationalRange.make?,
      values, lo, hi, h, eq_comm]

theorem buildEnumeration_eq_ok {members : List Ident} {blank : Bool}
    (values : args.values = [.idents members, .bool blank]) :
    buildEnumeration args = .ok kind ↔
      (members ≠ [] ∨ blank = true) ∧ kind = .enumeration ⟨members.eraseDups, blank⟩ := by
  have first : args.idents 0 = .ok members := Args.idents_of_value (by rw [values]; rfl)
  have second : args.boolean 1 = .ok blank := Args.form_of_value (by rw [values]; rfl) rfl
  have refused : (members.isEmpty && !blank) = true ↔ ¬ (members ≠ [] ∨ blank = true) := by
    cases members <;> simp
  simp only [buildEnumeration, Args.expectValues, values, first, second, Outcome.ok_bind,
    List.length_cons, List.length_nil, if_true, Enumeration.ofList, Enumeration.distinct_eq, refused]
  split
  · rename_i empty
    simp only [Args.refuse, reduceCtorEq, false_iff, not_and]
    exact fun inhabited => absurd inhabited empty
  · rename_i inhabited
    simp only [not_not.1 inhabited, true_and, Except.ok.injEq, eq_comm]

theorem buildRecord_eq_ok {fields : List TypeRef.RecordField}
    (count : fields.length = args.types.length)
    (values : args.values =
      [.idents (fields.map (·.id)), .array (fields.map fun f => .bool f.optional)]) :
    buildRecord args = .ok kind ↔ (fields.map (·.id)).Nodup ∧
      kind = .record (List.zipWith (fun f t => ⟨f.id, t, f.optional⟩) fields args.types) := by
  have first : args.idents 0 = .ok (fields.map (·.id)) := Args.idents_of_value (by rw [values]; rfl)
  have second : args.booleans 1 = .ok (fields.map (·.optional)) :=
    Args.booleans_of_value (by rw [values, List.map_map]; rfl)
  simp only [buildRecord, Args.expectValues, values, first, second, Outcome.ok_bind,
    List.length_map, count, recordFields_eq]
  by_cases nodup : (fields.map (·.id)).Nodup
  · have unique : firstRepeat? [] (fields.map (·.id)) = none :=
      firstRepeat?_of_nodup nodup (by simp)
    simp [unique, nodup, eq_comm]
  · cases unique : firstRepeat? [] (fields.map (·.id)) with
    | none => exact absurd (ids_nodup_of_firstRepeat? unique).1 nodup
    | some id => simp [Args.refuse, nodup]

theorem buildArray_eq_ok {t : Ty} {min max initial : UInt32} (types : args.types = [t])
    (values : args.values = [.count min.toNat, .count max.toNat, .count initial.toNat]) :
    buildArray args = .ok kind ↔ ∃ (lo : min ≤ initial) (hi : initial ≤ max),
      initial ≤ maxInitialSize ∧ kind = .array t ⟨min, max, initial, lo, hi⟩ := by
  have first : args.count 0 = .ok min := Registry.count_of_value (by rw [values]; rfl)
  have second : args.count 1 = .ok max := Registry.count_of_value (by rw [values]; rfl)
  have third : args.count 2 = .ok initial := Registry.count_of_value (by rw [values]; rfl)
  simp only [buildArray, Args.expectValues, values, first, second, third, types, Outcome.ok_bind]
  by_cases few : initial ≤ maxInitialSize
  · by_cases bounds : min ≤ initial ∧ initial ≤ max
    · simp [few, UInt32.not_lt.2 few, bounds, eq_comm]
    · have apart (lo : min ≤ initial) (hi : initial ≤ max) : False := bounds ⟨lo, hi⟩
      simpa [Args.refuse, UInt32.not_lt.2 few, bounds] using fun _ lo hi => (apart lo hi).elim
  · simp [Args.refuse, few, UInt32.not_le.1 few]

theorem buildSum_eq_ok {initial : UInt32} (values : args.values = [.count initial.toNat]) :
    buildSum args = .ok kind ↔
      initial.toNat < args.types.length ∧ kind = .sum args.types initial := by
  have first : args.count 0 = .ok initial := Registry.count_of_value (by rw [values]; rfl)
  by_cases h : initial.toNat < args.types.length <;>
    simp [buildSum, Args.expectValues, Args.refuse, values, first, h, eq_comm]

theorem buildTuple_eq_ok (values : args.values = []) :
    buildTuple args = .ok kind ↔ kind = .tuple args.types := by
  simp [buildTuple, Args.expectValues, values, eq_comm]

theorem buildGeneric_eq_ok {body : TypeRef} {t : Ty} {vars : UInt32} {bindings : List TypeRef}
    {types : List Ty} (refs : args.refs = body :: bindings) (resolved : args.types = t :: types)
    (count : bindings.length = types.length) (values : args.values = [.count vars.toNat]) :
    buildGeneric args = .ok kind ↔ vars ≤ maxVars ∧
      (bindings = [] ∨ bindings.length = vars.toNat) ∧
        kind = .generic body t vars (bindings.zip types) := by
  have first : args.count 0 = .ok vars := Registry.count_of_value (by rw [values]; rfl)
  have fits : (types.isEmpty || types.length == vars.toNat) = true ↔
      bindings = [] ∨ bindings.length = vars.toNat := by
    have none : types = [] ↔ bindings = [] := by
      rw [← List.length_eq_zero_iff, ← count, List.length_eq_zero_iff]
    simp [none, ← count]
  simp only [buildGeneric, Args.expectValues, values, first, refs, resolved, Outcome.ok_bind, fits]
  by_cases few : vars ≤ maxVars
  · by_cases all : bindings = [] ∨ bindings.length = vars.toNat <;>
      simp [Args.refuse, few, UInt32.not_lt.2 few, all, eq_comm]
  · simp [Args.refuse, few, UInt32.not_le.1 few]

theorem buildVar_eq_ok {index depth : UInt32}
    (values : args.values = [.count index.toNat, .count depth.toNat]) :
    buildVar args = .ok kind ↔ kind = .var ⟨index, depth⟩ := by
  have first : args.count 0 = .ok index := Registry.count_of_value (by rw [values]; rfl)
  have second : args.count 1 = .ok depth := Registry.count_of_value (by rw [values]; rfl)
  simp [buildVar, Args.expectValues, values, first, second, eq_comm]

theorem buildMap_eq_ok {s t : Ty} (types : args.types = [s, t]) (values : args.values = []) :
    buildMap args = .ok kind ↔ kind = .map s t := by
  simp [buildMap, Args.expectValues, types, values, eq_comm]

end Core

namespace Registry

/-- Whether a reference resolves to a type of a kind. -/
def Makes (r : Registry) (ref : TypeRef) (kind : Kind Ty) : Prop :=
  ∃ t, r.resolve ref = .ok t ∧ t.kind = kind

variable {home : Nat} {kind : Kind Ty}

/-- A reference to a core constructor makes what the constructor builds of the resolved
arguments. -/
theorem makes_constructed {id : GlobalId} (arity : Arity)
    (build : Constructor.Args → Except TypeError (Kind Ty)) {types : List TypeRef} {ts : List Ty}
    {values : List Value}
    (known : ((core home).constructor? id).map (fun c => (c.arity, c.build)) = some (arity, build))
    (args : List.Forall₂ (fun ref t => (core home).resolve ref = .ok t) types ts) :
    (core home).Makes (.constructed id types values) kind ↔
      arity.accepts ts.length = true ∧ build ⟨id, types, ts, values⟩ = .ok kind := by
  obtain ⟨c, hc, same⟩ := Option.map_eq_some_iff.1 known
  obtain ⟨rfl, rfl⟩ := Prod.mk.inj same
  obtain rfl := id_of_constructor? hc
  constructor
  · rintro ⟨t, resolved, rfl⟩
    obtain ⟨c', ts', hc', args', built⟩ := resolve_constructed_eq_ok.1 resolved
    obtain rfl := Option.some.inj (hc.symm.trans hc')
    obtain rfl := Except.ok.inj ((resolveAll_eq_ok.2 args).symm.trans (resolveAll_eq_ok.2 args'))
    obtain ⟨accepts, -, kind, made, rfl⟩ := Constructor.construct_eq_ok.1 built
    exact ⟨accepts, made⟩
  · rintro ⟨accepts, made⟩
    have unchecked : c.check ⟨c.id, types, ts, values⟩ = .ok () :=
      Core.check_eq_ok (List.mem_of_find?_eq_some hc)
    exact ⟨_, resolve_constructed_eq_ok.2 ⟨c, ts, hc, args,
      Constructor.construct_eq_ok.2 ⟨accepts, unchecked, kind, made, rfl⟩⟩, rfl⟩

/-! ## The forms of references -/

theorem makes_intRange {min max : Int64} :
    (core home).Makes (.intRange min max) kind ↔ ∃ h : min ≤ max, kind = .int ⟨min, max, h⟩ := by
  rw [TypeRef.intRange, makes_constructed (.exactly 0) Core.buildIntRange rfl .nil,
    Core.buildIntRange_eq_ok rfl]
  exact and_iff_right rfl

theorem makes_rationalRange {min max : Rational} :
    (core home).Makes (.rationalRange min max) kind ↔
      ∃ h : min ≤ max, kind = .rational ⟨min, max, h⟩ := by
  rw [TypeRef.rationalRange, makes_constructed (.exactly 0) Core.buildRationalRange rfl .nil,
    Core.buildRationalRange_eq_ok rfl]
  exact and_iff_right rfl

theorem makes_enumeration {members : List Ident} {blank : Bool} :
    (core home).Makes (.enumeration members blank) kind ↔
      (members ≠ [] ∨ blank = true) ∧ kind = .enumeration ⟨members.eraseDups, blank⟩ := by
  rw [TypeRef.enumeration, makes_constructed (.exactly 0) Core.buildEnumeration rfl .nil,
    Core.buildEnumeration_eq_ok rfl]
  exact and_iff_right rfl

theorem makes_record {fields : List TypeRef.RecordField} {types : List Ty}
    (args : List.Forall₂ (fun f t => (core home).resolve f.type = .ok t) fields types) :
    (core home).Makes (.record fields) kind ↔ (fields.map (·.id)).Nodup ∧
      kind = .record (List.zipWith (fun f t => ⟨f.id, t, f.optional⟩) fields types) := by
  rw [TypeRef.record, makes_constructed (.atLeast 0) Core.buildRecord rfl
    (List.forall₂_map_left_iff.2 args), Core.buildRecord_eq_ok args.length_eq rfl]
  exact and_iff_right rfl

theorem makes_array {element : TypeRef} {t : Ty} {min max initial : UInt32}
    (arg : (core home).resolve element = .ok t) :
    (core home).Makes (.array element min max initial) kind ↔
      ∃ (lo : min ≤ initial) (hi : initial ≤ max), initial ≤ 65536 ∧
        kind = .array t ⟨min, max, initial, lo, hi⟩ := by
  rw [TypeRef.array, makes_constructed (.exactly 1) Core.buildArray rfl (.cons arg .nil),
    Core.buildArray_eq_ok rfl rfl]
  exact and_iff_right rfl

theorem makes_sum {summands : List TypeRef} {types : List Ty} {initial : UInt32}
    (args : List.Forall₂ (fun ref t => (core home).resolve ref = .ok t) summands types) :
    (core home).Makes (.sum summands initial) kind ↔
      initial.toNat < summands.length ∧ kind = .sum types initial := by
  rw [TypeRef.sum, makes_constructed (.atLeast 1) Core.buildSum rfl args, Core.buildSum_eq_ok rfl,
    args.length_eq]
  -- a position among the summands means that there are some
  refine and_iff_right_of_imp fun ⟨inside, _⟩ => ?_
  simpa [Arity.accepts] using Nat.succ_le_of_lt (Nat.lt_of_le_of_lt (Nat.zero_le _) inside)

theorem makes_tuple {slots : List TypeRef} {types : List Ty}
    (args : List.Forall₂ (fun ref t => (core home).resolve ref = .ok t) slots types) :
    (core home).Makes (.tuple slots) kind ↔ kind = .tuple types := by
  rw [TypeRef.tuple, makes_constructed (.atLeast 0) Core.buildTuple rfl args,
    Core.buildTuple_eq_ok rfl]
  exact and_iff_right rfl

theorem makes_genericBound {body : TypeRef} {t : Ty} {vars : UInt32} {bindings : List TypeRef}
    {types : List Ty} (arg : (core home).resolve body = .ok t)
    (args : List.Forall₂ (fun ref t => (core home).resolve ref = .ok t) bindings types) :
    (core home).Makes (.genericBound body vars bindings) kind ↔
      vars ≤ 256 ∧ (bindings = [] ∨ bindings.length = vars.toNat) ∧
        kind = .generic body t vars (bindings.zip types) := by
  rw [TypeRef.genericBound, makes_constructed (.atLeast 1) Core.buildGeneric rfl (.cons arg args),
    Core.buildGeneric_eq_ok rfl rfl args.length_eq rfl]
  refine and_iff_right ?_
  simp [Arity.accepts]

theorem makes_generic {body : TypeRef} {t : Ty} {vars : UInt32}
    (arg : (core home).resolve body = .ok t) :
    (core home).Makes (.generic body vars) kind ↔ vars ≤ 256 ∧ kind = .generic body t vars [] := by
  have same : TypeRef.generic body vars = .genericBound body vars [] := rfl
  rw [same, makes_genericBound arg .nil]
  simp

theorem makes_var {index depth : UInt32} :
    (core home).Makes (.var index depth) kind ↔ kind = .var ⟨index, depth⟩ := by
  rw [TypeRef.var, makes_constructed (.exactly 0) Core.buildVar rfl .nil, Core.buildVar_eq_ok rfl]
  exact and_iff_right rfl

theorem makes_map {source target : TypeRef} {s t : Ty}
    (left : (core home).resolve source = .ok s) (right : (core home).resolve target = .ok t) :
    (core home).Makes (.map source target) kind ↔ kind = .map s t := by
  rw [TypeRef.map, makes_constructed (.exactly 2) Core.buildMap rfl (.cons left (.cons right .nil)),
    Core.buildMap_eq_ok rfl rfl]
  exact and_iff_right rfl

end Registry

namespace TypeSystem

/-- Whether a type system finds a type for a reference. -/
def Finds (s : TypeSystem) (ref : TypeRef) (t : Ty) : Prop :=
  (s.perform (.resolveStrict ref)).1 = .type (.ok t)

/-- Whether a type system finds a type of a kind for a reference. -/
def Makes (s : TypeSystem) (ref : TypeRef) (kind : Kind Ty) : Prop :=
  ∃ t, s.Finds ref t ∧ t.kind = kind

variable {s : TypeSystem} {steps : List Step} {config : Config} {home : Nat} {ref : TypeRef}
  {t : Ty} {kind : Kind Ty}

/-- A session that only resolves references leaves the registry alone. -/
theorem registry_resolutions (h : s.Coherent)
    (resolutions : ∀ step ∈ steps, step.isRegistration = false) :
    (s.run steps).Coherent ∧ (s.run steps).registry = s.registry := by
  induction steps generalizing s with
  | nil => exact ⟨h, rfl⟩
  | cons step steps ih =>
    obtain ⟨first, rest⟩ := List.forall_mem_cons.1 resolutions
    have contract : step.Faithful := by cases step <;> trivial
    obtain ⟨last, same⟩ := ih (coherent_perform h contract).1 rest
    exact ⟨last, same.trans (registry_perform h first)⟩

theorem finds_iff (h : s.Coherent) (builtin : s.registry = .core home) :
    s.Finds ref t ↔ (Registry.core home).resolve ref = .ok t := by
  have answer : (s.perform (.resolveStrict ref)).1 = .type ((Registry.core home).resolve ref) := by
    rw [← builtin, ← (looked h).outcome]
    rfl
  rw [Finds, answer, Reply.type.injEq]

theorem makes_iff (h : s.Coherent) (builtin : s.registry = .core home) :
    s.Makes ref kind ↔ (Registry.core home).Makes ref kind := by
  simp only [Makes, Registry.Makes, finds_iff h builtin]

/-- In any session with the builtins, a reference that is written for a type resolves exactly if its
arguments make a type, and then the kind of the type gives them back, types as the type system finds
them for the arguments. All that a found type is made of is handed out under one number ever
after. -/
theorem builders_spec (resolutions : ∀ step ∈ steps, step.isRegistration = false) :
    let s := (ofRegistry config (.core home)).run steps
    (∀ min max kind, s.Makes (.intRange min max) kind ↔
      ∃ h : min ≤ max, kind = .int ⟨min, max, h⟩) ∧
    (∀ min max kind, s.Makes (.rationalRange min max) kind ↔
      ∃ h : min ≤ max, kind = .rational ⟨min, max, h⟩) ∧
    (∀ members blank kind, s.Makes (.enumeration members blank) kind ↔
      (members ≠ [] ∨ blank = true) ∧ kind = .enumeration ⟨members.eraseDups, blank⟩) ∧
    (∀ fields types kind, List.Forall₂ (fun f t => s.Finds f.type t) fields types →
      (s.Makes (.record fields) kind ↔ (fields.map (·.id)).Nodup ∧
        kind = .record (List.zipWith (fun f t => ⟨f.id, t, f.optional⟩) fields types))) ∧
    (∀ element t min max initial kind, s.Finds element t →
      (s.Makes (.array element min max initial) kind ↔
        ∃ (lo : min ≤ initial) (hi : initial ≤ max), initial ≤ 65536 ∧
          kind = .array t ⟨min, max, initial, lo, hi⟩)) ∧
    (∀ summands types initial kind, List.Forall₂ s.Finds summands types →
      (s.Makes (.sum summands initial) kind ↔
        initial.toNat < summands.length ∧ kind = .sum types initial)) ∧
    (∀ slots types kind, List.Forall₂ s.Finds slots types →
      (s.Makes (.tuple slots) kind ↔ kind = .tuple types)) ∧
    (∀ source target t u kind, s.Finds source t → s.Finds target u →
      (s.Makes (.map source target) kind ↔ kind = .map t u)) ∧
    (∀ index depth kind, s.Makes (.var index depth) kind ↔ kind = .var ⟨index, depth⟩) ∧
    (∀ body t vars kind, s.Finds body t →
      (s.Makes (.generic body vars) kind ↔ vars ≤ 256 ∧ kind = .generic body t vars [])) ∧
    (∀ body t vars bindings types kind, s.Finds body t → List.Forall₂ s.Finds bindings types →
      (s.Makes (.genericBound body vars bindings) kind ↔ vars ≤ 256 ∧
        (bindings = [] ∨ bindings.length = vars.toNat) ∧
          kind = .generic body t vars (bindings.zip types))) ∧
    ∀ ref t, s.Finds ref t → t.ref = ref ∧ ∀ p, p = t ∨ p ∈ t.kind.parts →
      ∃ n, ∀ later : List Step, (∀ step ∈ later, step.Faithful) →
        ((s.perform (.resolveStrict ref)).2.run later).HandsOut p n := by
  intro s
  obtain ⟨coherent, builtin⟩ : s.Coherent ∧ s.registry = .core home :=
    registry_resolutions (coherent_ofRegistry Registry.faithful_core) resolutions
  have finds (ref : TypeRef) (t : Ty) : s.Finds ref t ↔ (Registry.core home).resolve ref = .ok t :=
    finds_iff coherent builtin
  have makes (ref : TypeRef) (kind : Kind Ty) :
      s.Makes ref kind ↔ (Registry.core home).Makes ref kind :=
    makes_iff coherent builtin
  have findsAll : s.Finds = fun ref t => (Registry.core home).resolve ref = .ok t :=
    funext₂ fun ref t => propext (finds ref t)
  simp only [findsAll, makes]
  refine ⟨fun _ _ _ => Registry.makes_intRange, fun _ _ _ => Registry.makes_rationalRange,
    fun _ _ _ => Registry.makes_enumeration, fun _ _ _ args => Registry.makes_record args,
    fun _ _ _ _ _ _ arg => Registry.makes_array arg, fun _ _ _ _ args => Registry.makes_sum args,
    fun _ _ _ args => Registry.makes_tuple args,
    fun _ _ _ _ _ left right => Registry.makes_map left right, fun _ _ _ => Registry.makes_var,
    fun _ _ _ _ arg => Registry.makes_generic arg,
    fun _ _ _ _ _ _ arg args => Registry.makes_genericBound arg args, fun ref t found => ?_⟩
  have looked : Looked ref s ((lookup ref).run s) := looked coherent
  have kept := looked.keeps t (looked.outcome.trans (builtin ▸ found))
  refine ⟨Registry.ref_of_resolve found, ?_⟩
  rintro p (rfl | part)
  · exact looked.coherent.exists_handsOut kept
  · exact looked.coherent.exists_handsOut (looked.coherent.keeps_part kept part)

/-- Lists of at most two truth values that start with one; and no lists whose bounds are
exchanged. -/
theorem builders_spec_array :
    let s := (ofRegistry .standard (.core 0)).run [.resolve .bool]
    ∃ t, s.Finds .bool t ∧
      s.Makes (.array .bool 0 2 1) (.array t ⟨0, 2, 1, by decide, by decide⟩) ∧
      ∀ kind, ¬ s.Makes (.array .bool 2 0 1) kind := by
  intro s
  have resolutions : ∀ step ∈ [Step.resolve .bool], step.isRegistration = false := by
    simp [Step.isRegistration]
  obtain ⟨-, -, -, -, array, -⟩ := @builders_spec _ .standard 0 resolutions
  have found : s.Finds .bool _ := rfl
  refine ⟨_, found, (array _ _ 0 2 1 _ found).2 ⟨by decide, by decide, by decide, rfl⟩, ?_⟩
  intro kind made
  obtain ⟨lo, -⟩ := (array _ _ 2 0 1 kind found).1 made
  exact absurd lo (by decide)

end TypeSystem

end TypedTree
