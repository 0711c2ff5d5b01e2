import TypedTree.Proofs.Resolution
import TypedTree.TypeSystem

/-!
# Looking up references

A type system remembers what constructed references resolved to. The memory is *coherent* if it
holds only what the registry determines, holds nothing twice, and holds the parts of every type that
it holds. Then a look-up answers as the registry does. It leaves the memory coherent and only adds
to it, and what it has answered once it finds again.

## Main definitions

* `Constructor.Faithful`: whether a constructor builds kinds of its type arguments only.
* `Registry.Extends`: whether a registry has all that another one has.
* `TypeSystem.Keeps`: whether a type system finds a type without building it.
* `TypeSystem.Coherent`: the invariant of the memory.
* `TypeSystem.Grows`: what happens to a type system in the course of time.

## Main statements

* `Registry.Extends.resolve`: what resolves still does in an extended registry.
* `TypeSystem.looked`: what a look-up does.
-/

namespace TypedTree

/-- Whether a constructor makes the kinds of its types of the type arguments that it is given. -/
def Constructor.Faithful (c : Constructor) : Prop :=
  ∀ (args : Constructor.Args) (kind : Kind Ty), args.types.map (·.ref) = args.refs →
    c.arity.accepts args.types.length = true → c.build args = .ok kind →
      ∀ p ∈ kind.parts, p ∈ args.types

namespace Registry

variable {r r' : Registry} {ref : TypeRef} {t : Ty}

/-- Whether all constructors of a registry make kinds of what they are given. -/
def Faithful (r : Registry) : Prop :=
  ∀ c ∈ r.constructors, c.Faithful

/-- Whether a registry starts with all that another one has. -/
structure Extends (r r' : Registry) : Prop where
  home : r.home = r'.home
  primitives : r.primitives <+: r'.primitives
  constructors : r.constructors <+: r'.constructors

theorem Extends.refl (r : Registry) : r.Extends r :=
  ⟨rfl, List.prefix_rfl, List.prefix_rfl⟩

theorem Extends.trans {r'' : Registry} (h : r.Extends r') (h' : r'.Extends r'') :
    r.Extends r'' :=
  ⟨h.home.trans h'.home, h.primitives.trans h'.primitives, h.constructors.trans h'.constructors⟩

theorem extends_addPrimitive {p : Primitive} (h : r.addPrimitive p = .ok r') :
    r.Extends r' ∧ r'.constructors = r.constructors := by
  rw [addPrimitive] at h
  split at h
  · simp at h
  · obtain rfl := Except.ok.inj h
    exact ⟨⟨rfl, List.prefix_append _ _, List.prefix_rfl⟩, rfl⟩

theorem extends_addConstructor {c : Constructor} (h : r.addConstructor c = .ok r') :
    r.Extends r' ∧ r'.constructors = r.constructors ++ [c] := by
  rw [addConstructor] at h
  split at h
  · simp at h
  · obtain rfl := Except.ok.inj h
    exact ⟨⟨rfl, List.prefix_rfl, List.prefix_append _ _⟩, rfl⟩

/-- What resolves still does, and to the same type, once more is registered. -/
theorem Extends.resolve (h : r.Extends r') (resolved : r.resolve ref = .ok t) :
    r'.resolve ref = .ok t := by
  induction ref using TypeRef.induct_types generalizing t with
  | primitive id =>
    obtain ⟨p, hp, rfl⟩ := resolve_primitive_eq_ok.1 resolved
    refine resolve_primitive_eq_ok.2 ⟨p, h.primitives.find?_eq_some hp, ?_⟩
    simp only [primitiveType, h.home]
  | constructed id types values ih =>
    obtain ⟨c, ts, hc, args, built⟩ := resolve_constructed_eq_ok.1 resolved
    refine resolve_constructed_eq_ok.2 ⟨c, ts, h.constructors.find?_eq_some hc, ?_, h.home ▸ built⟩
    exact List.forall₂_iff_get.2 ⟨args.length_eq, fun i hi hi' =>
      ih _ (List.get_mem _ _) ((List.forall₂_iff_get.1 args).2 i hi hi')⟩

theorem resolve_constructed {id : GlobalId} {c : Constructor} (hc : r.constructor? id = some c)
    (types : List TypeRef) (values : List Value) :
    r.resolve (.constructed id types values) =
      match r.resolveAll types with
      | .error (arg, e) => .error (argumentFailed (.constructed id types values) arg e)
      | .ok ts => c.construct r.home types ts values := by
  cases args : r.resolveAll types <;> simp [Registry.resolve, hc, args]

/-- The parts of a type that resolves are types of its type arguments. -/
theorem Faithful.parts {id : GlobalId} {types : List TypeRef} {values : List Value} {c : Constructor}
    {ts : List Ty} (h : r.Faithful) (hc : r.constructor? id = some c)
    (args : List.Forall₂ (fun ref t => r.resolve ref = .ok t) types ts)
    (built : c.construct r.home types ts values = .ok t) : ∀ p ∈ t.kind.parts, p ∈ ts := by
  obtain ⟨arity, -, kind, hk, rfl⟩ := Constructor.construct_eq_ok.1 built
  exact h c (List.mem_of_find?_eq_some hc) ⟨c.id, types, ts, values⟩ kind (refs_of_forall₂ args)
    arity hk

end Registry

namespace TypeSystem

variable {s s' : TypeSystem} {ref : TypeRef} {t : Ty}

/-! ## Memory -/

/-- Whether a type system finds a type as it is, in its memory or among its primitives. -/
def Keeps (s : TypeSystem) (t : Ty) : Prop :=
  t ∈ s.builtTypes ∨ t.ref.isPrimitive = true ∧ s.registry.resolve t.ref = .ok t

/-- Whether the memory of a type system holds what its registry determines, each reference once,
and the parts of each type. -/
structure Coherent (s : TypeSystem) : Prop where
  faithful : s.registry.Faithful
  sound : ∀ known ∈ s.outcomes, s.registry.resolve known.1 = known.2
  once : (s.outcomes.map (·.1)).Nodup
  parts : ∀ t ∈ s.builtTypes, ∀ p ∈ t.kind.parts, s.Keeps p

/-- What happens to a type system in the course of time: its registry is extended, and types are
built. -/
structure Grows (s s' : TypeSystem) : Prop where
  config : s'.config = s.config
  registry : s.registry.Extends s'.registry
  built : s.builtTypes <:+ s'.builtTypes

theorem Grows.refl (s : TypeSystem) : s.Grows s :=
  ⟨rfl, .refl _, List.suffix_rfl⟩

theorem Grows.trans {s'' : TypeSystem} (h : s.Grows s') (h' : s'.Grows s'') : s.Grows s'' :=
  ⟨h'.config.trans h.config, h.registry.trans h'.registry, h.built.trans h'.built⟩

theorem Grows.keeps (h : s.Grows s') (kept : s.Keeps t) : s'.Keeps t :=
  kept.imp (h.built.subset ·) fun ⟨primitive, resolved⟩ => ⟨primitive, h.registry.resolve resolved⟩

theorem mem_builtTypes : t ∈ s.builtTypes ↔ ∃ ref, (ref, .ok t) ∈ s.outcomes := by
  simp only [builtTypes, List.mem_filterMap, Prod.exists]
  constructor
  · rintro ⟨ref, outcome, known, ok⟩
    cases outcome with
    | error e => simp [Except.toOption] at ok
    | ok t' => exact ⟨ref, (Option.some.inj ok) ▸ known⟩
  · rintro ⟨ref, known⟩
    exact ⟨ref, _, known, rfl⟩

theorem Coherent.mem_of_mem_builtTypes (h : s.Coherent) (ht : t ∈ s.builtTypes) :
    (t.ref, .ok t) ∈ s.outcomes := by
  obtain ⟨ref, known⟩ := mem_builtTypes.1 ht
  rwa [Registry.ref_of_resolve (h.sound _ known)]

theorem Coherent.outcome?_eq_some (h : s.Coherent) {outcome : Except TypeError Ty}
    (known : (ref, outcome) ∈ s.outcomes) : s.outcome? ref = some outcome := by
  have found : (s.outcomes.lookup ref).isSome := by
    rw [List.lookup_isSome_iff]
    exact ⟨_, known, by simp⟩
  obtain ⟨outcome', known'⟩ := Option.isSome_iff_exists.1 found
  obtain ⟨before, after, split, -⟩ := List.lookup_eq_some_iff.1 known'
  have member : (ref, outcome') ∈ s.outcomes := by simp [split]
  rw [outcome?, known', ← show outcome' = outcome from
    (h.sound _ member).symm.trans (h.sound _ known)]

/-! ## Looking up -/

theorem lookup_known {id : GlobalId} {types : List TypeRef} {values : List Value}
    {outcome : Except TypeError Ty}
    (h : s.outcome? (.constructed id types values) = some outcome) :
    (lookup (.constructed id types values)).run s = (outcome, s) := by
  simp only [lookup, StateT.run_bind, StateT.run_get, pure_bind, h]
  rfl

/-- What is looked up for the first time is remembered. -/
theorem lookup_new {id : GlobalId} {types : List TypeRef} {values : List Value}
    (h : s.outcome? (.constructed id types values) = none) :
    (lookup (.constructed id types values)).run s =
      match s.registry.constructor? id with
      | none => (remember (.constructed id types values)
          (.error (Registry.missingConstructor (.constructed id types values) id))).run s
      | some c =>
        let (args, next) := (lookupAll types).run s
        (remember (.constructed id types values)
          (match args with
          | .error (arg, e) => .error (Registry.argumentFailed (.constructed id types values) arg e)
          | .ok ts => c.construct s.registry.home types ts values)).run next := by
  simp only [lookup, StateT.run_bind, StateT.run_get, pure_bind, h]
  cases s.registry.constructor? id with
  | none => rfl
  | some c =>
    simp only [StateT.run_bind]
    generalize (lookupAll types).run s = looked
    obtain ⟨args, next⟩ := looked
    cases args <;> rfl

theorem lookupAll_cons {rest : List TypeRef} :
    (lookupAll (ref :: rest)).run s =
      match (lookup ref).run s with
      | (.error e, next) => (.error (ref, e), next)
      | (.ok t, next) =>
        match (lookupAll rest).run next with
        | (.error e, last) => (.error e, last)
        | (.ok ts, last) => (.ok (t :: ts), last) := by
  simp only [lookupAll, StateT.run_bind]
  generalize (lookup ref).run s = looked
  obtain ⟨_ | t, next⟩ := looked
  · rfl
  · change ((lookupAll rest >>= _).run next) = _
    rw [StateT.run_bind]
    dsimp only
    generalize (lookupAll rest).run next = looked
    obtain ⟨_ | ts, last⟩ := looked <;> rfl

theorem lookup_kept (h : s.Coherent) (kept : s.Keeps t) : (lookup t.ref).run s = (.ok t, s) := by
  obtain built | ⟨primitive, resolved⟩ := kept
  · have known := h.mem_of_mem_builtTypes built
    cases hr : t.ref with
    | primitive id =>
      have resolved := h.sound _ known
      rw [hr] at resolved
      exact Prod.ext resolved rfl
    | constructed id types values =>
      rw [hr] at known
      exact lookup_known (h.outcome?_eq_some known)
  · cases hr : t.ref with
    | primitive id =>
      rw [hr] at resolved
      exact Prod.ext resolved rfl
    | constructed id types values => simp [hr, TypeRef.isPrimitive] at primitive

/-- Whether a type system differs from another one by outcomes in front of its memory, for
references of bounded size. -/
structure Adds (bound : Nat) (s s' : TypeSystem) : Prop where
  config : s'.config = s.config
  registry : s'.registry = s.registry
  outcomes : ∃ added, s'.outcomes = added ++ s.outcomes ∧ ∀ known ∈ added, sizeOf known.1 ≤ bound

theorem Adds.refl (bound : Nat) (s : TypeSystem) : Adds bound s s :=
  ⟨rfl, rfl, [], rfl, by simp⟩

theorem Adds.trans {bound bound' : Nat} {s'' : TypeSystem} (h : Adds bound s s')
    (h' : Adds bound' s' s'') {whole : Nat} (le : bound ≤ whole) (le' : bound' ≤ whole) :
    Adds whole s s'' := by
  obtain ⟨added, outcomes, small⟩ := h.outcomes
  obtain ⟨added', outcomes', small'⟩ := h'.outcomes
  refine ⟨h'.config.trans h.config, h'.registry.trans h.registry, added' ++ added, ?_, ?_⟩
  · rw [outcomes', outcomes, List.append_assoc]
  · intro known hk
    obtain hk | hk := List.mem_append.1 hk
    · have := small' known hk
      omega
    · have := small known hk
      omega

theorem Adds.grows {bound : Nat} (h : Adds bound s s') : s.Grows s' := by
  obtain ⟨added, outcomes, -⟩ := h.outcomes
  refine ⟨h.config, h.registry ▸ .refl _, ?_⟩
  rw [builtTypes, builtTypes, outcomes, List.filterMap_append]
  exact List.suffix_append _ _

/-- A reference that is larger than what was added is not in the memory if it was not before. -/
theorem Adds.new {bound : Nat} (h : Adds bound s s') (new : s.outcome? ref = none)
    (larger : bound < sizeOf ref) : ref ∉ s'.outcomes.map (·.1) := by
  obtain ⟨added, outcomes, small⟩ := h.outcomes
  rw [outcomes, List.map_append, List.mem_append, List.mem_map, List.mem_map]
  rintro (⟨known, hk, rfl⟩ | ⟨known, hk, rfl⟩)
  · have := small known hk
    omega
  · have missing := List.lookup_eq_none_iff.1 new known hk
    simp at missing

theorem adds_remember {bound : Nat} (h : Adds bound s s') (le : bound ≤ sizeOf ref)
    {outcome : Except TypeError Ty} : Adds (sizeOf ref) s ((remember ref outcome).run s').2 := by
  have last : Adds (sizeOf ref) s' ((remember ref outcome).run s').2 :=
    ⟨rfl, rfl, [(ref, outcome)], rfl, by simp⟩
  exact h.trans last le (Nat.le_refl _)

theorem Coherent.remember (h : s.Coherent) (new : ref ∉ s.outcomes.map (·.1))
    {outcome : Except TypeError Ty} (right : s.registry.resolve ref = outcome)
    (parts : ∀ t, outcome = .ok t → ∀ p ∈ t.kind.parts, s.Keeps p) :
    ((TypeSystem.remember ref outcome).run s).2.Coherent := by
  have grows : s.Grows ((TypeSystem.remember ref outcome).run s).2 :=
    (adds_remember (.refl 0 s) (Nat.zero_le _)).grows
  refine ⟨h.faithful, List.forall_mem_cons.2 ⟨right, h.sound⟩, List.nodup_cons.2 ⟨new, h.once⟩, ?_⟩
  intro t ht p hp
  refine grows.keeps ?_
  obtain ⟨ref', known⟩ := mem_builtTypes.1 ht
  obtain same | known := List.mem_cons.1 known
  · exact parts t (Prod.mk.inj same).2.symm p hp
  · exact h.parts t (mem_builtTypes.2 ⟨ref', known⟩) p hp

/-- What a look-up does to a type system and answers. -/
structure Looked (ref : TypeRef) (s : TypeSystem) (result : Except TypeError Ty × TypeSystem) :
    Prop where
  outcome : result.1 = s.registry.resolve ref
  coherent : result.2.Coherent
  adds : Adds (sizeOf ref) s result.2
  keeps : ∀ t, result.1 = .ok t → result.2.Keeps t

/-- What looking up several references does and answers. -/
structure LookedAll (refs : List TypeRef) (s : TypeSystem)
    (result : Except (TypeRef × TypeError) (List Ty) × TypeSystem) : Prop where
  outcome : result.1 = s.registry.resolveAll refs
  coherent : result.2.Coherent
  adds : Adds (sizeOf refs) s result.2
  keeps : ∀ ts, result.1 = .ok ts → ∀ t ∈ ts, result.2.Keeps t

theorem lookedAll {refs : List TypeRef}
    (each : ∀ ref ∈ refs, ∀ s : TypeSystem, s.Coherent → Looked ref s ((lookup ref).run s))
    (h : s.Coherent) : LookedAll refs s ((lookupAll refs).run s) := by
  induction refs generalizing s with
  | nil => exact ⟨rfl, h, .refl _ s, fun ts ok => by cases ok; simp⟩
  | cons ref rest ih =>
    have head := each ref List.mem_cons_self s h
    have small : sizeOf ref ≤ sizeOf (ref :: rest) := by simp; omega
    have small' : sizeOf rest ≤ sizeOf (ref :: rest) := by simp
    rw [lookupAll_cons]
    generalize (lookup ref).run s = looked at head
    obtain ⟨e | t, next⟩ := looked
    · refine ⟨?_, head.coherent, head.adds.trans (.refl 0 next) small (Nat.zero_le _), ?_⟩
      · simp only [Registry.resolveAll, ← head.outcome]
      · rintro ts ⟨⟩
    · have tail := ih (fun ref hr => each ref (List.mem_cons_of_mem _ hr)) head.coherent
      have resolved := tail.outcome
      rw [head.adds.registry] at resolved
      have adds := head.adds.trans tail.adds small small'
      have kept := tail.adds.grows.keeps (head.keeps t rfl)
      dsimp only at tail resolved adds kept ⊢
      generalize (lookupAll rest).run next = looked at tail resolved adds kept ⊢
      obtain ⟨e | ts, last⟩ := looked
      · refine ⟨?_, tail.coherent, adds, ?_⟩
        · simp only [Registry.resolveAll, ← head.outcome, ← resolved]
        · rintro ts ⟨⟩
      · refine ⟨?_, tail.coherent, adds, ?_⟩
        · simp only [Registry.resolveAll, ← head.outcome, ← resolved]
        · rintro ts ⟨⟩
          exact List.forall_mem_cons.2 ⟨kept, tail.keeps ts rfl⟩

/-- Remembering a right outcome after other look-ups is what a look-up may do. -/
theorem looked_remember {bound : Nat} {outcome : Except TypeError Ty} (h : s'.Coherent)
    (adds : Adds bound s s') (new : s.outcome? ref = none) (larger : bound < sizeOf ref)
    (right : s.registry.resolve ref = outcome)
    (parts : ∀ t, outcome = .ok t → ∀ p ∈ t.kind.parts, s'.Keeps p) :
    Looked ref s ((remember ref outcome).run s') := by
  refine ⟨right.symm, h.remember (adds.new new larger) (adds.registry ▸ right) parts,
    adds_remember adds (Nat.le_of_lt larger), ?_⟩
  intro t ok
  exact .inl (mem_builtTypes.2 ⟨ref, ok ▸ List.mem_cons_self⟩)

/-- A look-up answers as the registry does and keeps what it answers. -/
theorem looked (h : s.Coherent) : Looked ref s ((lookup ref).run s) := by
  induction ref using TypeRef.induct_types generalizing s with
  | primitive id =>
    refine ⟨rfl, h, .refl _ s, fun t resolved => .inr ?_⟩
    have resolved : s.registry.resolve (.primitive id) = .ok t := resolved
    rw [Registry.ref_of_resolve resolved]
    exact ⟨rfl, resolved⟩
  | constructed id types values ih =>
    cases hs : s.outcome? (.constructed id types values) with
    | some outcome =>
      obtain ⟨before, after, split, -⟩ := List.lookup_eq_some_iff.1 hs
      have known : (.constructed id types values, outcome) ∈ s.outcomes := by simp [split]
      rw [lookup_known hs]
      refine ⟨(h.sound _ known).symm, h, .refl _ s, ?_⟩
      rintro t rfl
      exact .inl (mem_builtTypes.2 ⟨_, known⟩)
    | none =>
      rw [lookup_new hs]
      cases hc : s.registry.constructor? id with
      | none =>
        have right : s.registry.resolve (.constructed id types values) =
            .error (Registry.missingConstructor (.constructed id types values) id) := by
          simp [Registry.resolve, hc]
        refine looked_remember h (.refl 0 s) hs (Nat.pos_of_ne_zero (by simp)) right ?_
        intro t built
        simp at built
      | some c =>
        have args : LookedAll types s ((lookupAll types).run s) :=
          lookedAll (fun ref hr s h => ih ref hr h) h
        have small : sizeOf types < sizeOf (TypeRef.constructed id types values) := by simp; omega
        have right := Registry.resolve_constructed hc types values
        rw [← args.outcome] at right
        generalize (lookupAll types).run s = looked at args right ⊢
        obtain ⟨e | ts, next⟩ := looked
        · refine looked_remember args.coherent args.adds hs small right ?_
          intro t built
          simp at built
        · refine looked_remember args.coherent args.adds hs small right ?_
          intro t built p hp
          have resolved := Registry.resolveAll_eq_ok.1 args.outcome.symm
          exact args.keeps ts rfl p (h.faithful.parts hc resolved built p hp)

end TypeSystem

end TypedTree
