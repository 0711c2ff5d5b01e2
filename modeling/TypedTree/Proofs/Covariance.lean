import TypedTree.Proofs.Sealed
import TypedTree.Proofs.Unsteady

/-!
# Instances grow with their bindings

A generic that is instantiated with subtypes is a subtype of the generic that is instantiated with
their supertypes. The body is the same on both sides, so the two instances differ where variables
stand and nowhere else, and the rules of all kinds follow their parts upwards. Even the source of a
mapping does, which has to relate only.

Generics within the body stand in the way: they compare as their instances, which are no parts of
the body. So the claim is generalized from one list of bindings to one for each generic around a
reference. The instance of a nested generic is then its body under one list more.

## Main definitions

* `TypeRef.fill`: a reference with bindings for the variables of several generics around it.
* `Registry.Narrower`: whether a sealed reference names a subtype of what another one names.
* `Registry.isSubtypeBy`: whether the type of a reference is a subtype, under a failure policy.

## Main statements

* `Registry.alike_of_resolve`: what related type arguments make of one constructor.
* `Registry.narrower_of_fill`: subtypes in the place of variables make subtypes.
* `Registry.instantiate_covariant`: the same for a generic and its instances.
-/

namespace TypedTree

/-! ## Bindings for several scopes -/

namespace TypeRef

variable {level n m : Nat} {bs types bindings : List TypeRef} {env : List (List TypeRef)}
  {values : List Value} {c : GlobalId} {v : TypeVar} {body b r : TypeRef}

/-- Put bindings in the place of the variables of several generics, of which the innermost is the
first and `level` generics out. Outer generics come first, so that closed bindings stay as they
are. -/
def fill (level : Nat) : List (List TypeRef) → TypeRef → Except TypeError TypeRef
  | [], r => .ok r
  | bs :: env, r => do
    let r ← fill (level + 1) env r
    substitute bs level r

theorem BoundWithin.mono (h : r.BoundWithin n) (le : n ≤ m) : r.BoundWithin m := by
  induction r using induct_forms generalizing n m with
  | primitive id => exact trivial
  | var c types values v hv =>
    exact (eachVar_var hv).2 (Nat.lt_of_lt_of_le ((eachVar_var hv).1 h) le)
  | generic body bindings values ihb ihs =>
    obtain ⟨inner, outer⟩ := eachVar_generic.1 h
    exact eachVar_generic.2 ⟨ihb inner (Nat.succ_le_succ le), fun b hb => ihs b hb (outer b hb) le⟩
  | plain c types values hv hc ih =>
    exact (eachVar_plain hv hc).2 fun t ht => ih t ht ((eachVar_plain hv hc).1 h t ht) le

/-- Substitution leaves variables alone that are bound further in. -/
theorem substitute_of_boundWithin (h : r.BoundWithin level) : substitute bs level r = .ok r := by
  induction r using induct_forms generalizing level with
  | primitive id => rfl
  | var c types values v hv => exact substitute_inside hv ((eachVar_var hv).1 h)
  | generic body bindings values ihb ihs =>
    obtain ⟨inner, outer⟩ := eachVar_generic.1 h
    exact substitute_generic_eq_ok.2
      ⟨body, bindings, ihb inner, List.forall₂_same.2 fun b hb => ihs b hb (outer b hb), rfl⟩
  | plain c types values hv hc ih =>
    have each := (eachVar_plain hv hc).1 h
    exact (substitute_plain_eq_ok hv hc).2
      ⟨types, List.forall₂_same.2 fun t ht => ih t ht (each t ht), rfl⟩

theorem fill_of_boundWithin (h : r.BoundWithin level) : fill level env r = .ok r := by
  induction env generalizing level with
  | nil => rfl
  | cons bs env ih =>
    rw [fill, ih (h.mono (Nat.le_succ level)), Outcome.ok_bind]
    exact substitute_of_boundWithin h

/-- A variable is replaced by what is bound to it. -/
theorem fill_var (hv : var? c values = some v) {i : Nat} (depth : v.depth.toNat = level + i)
    (hbs : env[i]? = some bs) (hb : bs[v.index.toNat]? = some b) (closed : b.Scoped []) :
    fill level env (.constructed c types values) = .ok b := by
  induction env generalizing level i with
  | nil => simp at hbs
  | cons bs' env ih =>
    cases i with
    | zero =>
      obtain rfl := Option.some.inj hbs
      have near : v.depth.toNat < level + 1 := by omega
      rw [fill, fill_of_boundWithin ((eachVar_var hv).2 near), Outcome.ok_bind]
      exact (substitute_here hv depth).2 ⟨b, hb, closed.shift level⟩
    | succ i =>
      rw [fill, ih (depth.trans (by omega)) hbs, Outcome.ok_bind]
      exact substitute_of_boundWithin (closed.boundWithin.mono (Nat.zero_le level))

/-- The body of a generic has one scope more around it, which is left alone. -/
theorem fill_generic
    (h : fill level env (.constructed Core.generic (body :: bindings) values) = .ok r) :
    ∃ body' bindings', fill (level + 1) env body = .ok body' ∧
      List.Forall₂ (fun b b' => fill level env b = .ok b') bindings bindings' ∧
        .constructed Core.generic (body' :: bindings') values = r := by
  induction env generalizing level r with
  | nil => exact ⟨body, bindings, rfl, List.forall₂_same.2 fun _ _ => rfl, Except.ok.inj h⟩
  | cons bs env ih =>
    obtain ⟨r', h', hr⟩ := Outcome.bind_eq_ok.1 h
    obtain ⟨body', bindings', hb, hbs, rfl⟩ := ih h'
    obtain ⟨body'', bindings'', hb', hbs', rfl⟩ := substitute_generic_eq_ok.1 hr
    refine ⟨body'', bindings'', Outcome.bind_eq_ok.2 ⟨body', hb, hb'⟩, ?_, rfl⟩
    exact forall₂_of_common hbs.flip hbs' fun b' _ _ _ h h' => Outcome.bind_eq_ok.2 ⟨b', h, h'⟩

theorem fill_plain (hv : var? c values = none) (hc : c = Core.generic → types = [])
    (h : fill level env (.constructed c types values) = .ok r) :
    ∃ types', List.Forall₂ (fun t t' => fill level env t = .ok t') types types' ∧
      .constructed c types' values = r := by
  induction env generalizing level r with
  | nil => exact ⟨types, List.forall₂_same.2 fun _ _ => rfl, Except.ok.inj h⟩
  | cons bs env ih =>
    obtain ⟨r', h', hr⟩ := Outcome.bind_eq_ok.1 h
    obtain ⟨types', hs, rfl⟩ := ih h'
    obtain ⟨types'', hs', rfl⟩ := (substitute_plain_eq_ok hv (nil_of_forall₂ hc hs)).1 hr
    refine ⟨types'', ?_, rfl⟩
    exact forall₂_of_common hs.flip hs' fun t' _ _ _ h h' => Outcome.bind_eq_ok.2 ⟨t', h, h'⟩

end TypeRef

/-! ## One constructor around related parts -/

/-- Plain kinds follow their parts upwards. -/
theorem Kind.under_of_alike {o : Oracle} {a b : Ty} (formed : a.kind.Formed) (plain : a.IsPlain)
    (alike : a.kind.Alike o.Below b.kind) : a.kind.Under o b.kind := by
  rw [Ty.IsPlain] at plain
  generalize hk : a.kind = k at *
  generalize b.kind = k' at *
  cases alike with
  | same none =>
    subst hk
    exact Kind.under_self formed plain (none ▸ List.forall_mem_nil _)
  | record fields =>
    intro g hg
    obtain ⟨f, hf, name, optional, below⟩ := exists_mem_of_forall₂ fields.flip hg
    rw [Field.ServedBy, ← name, find?_key formed hf]
    exact ⟨by rw [optional]; cases g.optional <;> simp, below⟩
  | variant fields =>
    refine ⟨rfl, fun t ht => ⟨t, Ty.tag?_eq_of_mem formed.tags_nodup ht, ?_⟩⟩
    intro w hw
    obtain ⟨i, hi, place⟩ := List.mem_filterMap.1 hw
    obtain ⟨f, hf, name, below⟩ := exists_get_of_forall₂ fields.flip place
    have names := Ty.nodup_tagFields formed.fields_nodup (formed.positions_nodup t ht)
    have mine : f ∈ Ty.tagFields _ t := List.mem_filterMap.2 ⟨i, hi, hf⟩
    rw [← name]
    exact ⟨f, find?_key names mine, below⟩
  | array element => exact element
  | sum summands => exact fun x hx => exists_mem_of_forall₂ summands hx
  | tuple slots => exact slots
  | generic => exact plain.elim
  | map source target => exact ⟨Inclusion.isRelated_of_isSubtype source, target⟩

namespace Registry

variable {home home' : Nat} {a b : Ty}

/-- A constructor of the core namespace builds the same kind around related parts, in whichever type
systems. -/
theorem alike_of_resolve {R : Ty → Ty → Prop} {c : GlobalId} {types types' : List TypeRef}
    {values : List Value} (ha : (core home).resolve (.constructed c types values) = .ok a)
    (hb : (core home').resolve (.constructed c types' values) = .ok b)
    (related : List.Forall₂ (fun x y => ∀ s t, (core home).resolve x = .ok s →
      (core home').resolve y = .ok t → R s t) types types') :
    a.kind.Alike R b.kind := by
  obtain ⟨k, ts, hk, hs, build⟩ := resolve_constructed_eq_ok.1 ha
  obtain ⟨k', ts', hk', hs', build'⟩ := resolve_constructed_eq_ok.1 hb
  obtain rfl := Option.some.inj (hk.symm.trans hk')
  obtain ⟨arity, -, kind, made, rfl⟩ := Constructor.construct_eq_ok.1 build
  obtain ⟨-, -, kind', made', rfl⟩ := Constructor.construct_eq_ok.1 build'
  have half : List.Forall₂ (fun s y => ∀ t, (core home').resolve y = .ok t → R s t) ts types' :=
    forall₂_of_common hs related fun x _ s y hx each t hy => each s t hx hy
  have parts : List.Forall₂ R ts ts' :=
    forall₂_of_common half.flip hs' fun y _ s t each hy => each t hy
  have listed : k ∈ Core.constructors := List.mem_of_find?_eq_some hk
  obtain ⟨kind'', again, alike⟩ :=
    Core.build_withTypes listed arity related.length_eq.symm parts made
  obtain rfl := Except.ok.inj (made'.symm.trans again)
  exact alike

/-- A reference that names no variable and no generic resolves to a plain type. -/
theorem isPlain_of_resolve {c : GlobalId} {types : List TypeRef} {values : List Value}
    (ha : (core home).resolve (.constructed c types values) = .ok a)
    (hv : TypeRef.var? c values = none) (hc : c = Core.generic → types = []) : a.IsPlain := by
  have own := owns_of_resolve ha
  have ref := ref_of_resolve ha
  obtain ⟨v, hk⟩ | ⟨body, inner, vars, bindings, hk⟩ | plain := a.var_or_generic_or_plain
  · rw [ref_of_var own hk] at ref
    obtain ⟨rfl, -, rfl⟩ := TypeRef.constructed.inj ref
    rw [TypeRef.var?_var] at hv
    cases hv
  · rw [ref_of_generic own hk] at ref
    obtain ⟨rfl, rfl, -⟩ := TypeRef.constructed.inj ref
    cases hc rfl
  · exact plain

/-! ## Subtypes in the place of variables -/

/-- Whether two references are sealed and the type of the first is a subtype of that of the
second. -/
structure Narrower (r : Registry) (x y : TypeRef) : Prop where
  left : r.Sealed x
  right : r.Sealed y
  below : ∀ a b, r.resolve x = .ok a → r.resolve y = .ok b → r.oracle.Below a b

/-- Sealed bindings can be put in the place of the variables of the outer scopes; those of the inner
ones stay. -/
theorem exists_fill {env : List (List TypeRef)} {scopes : List Nat} {r : TypeRef}
    (bound : ∀ bs ∈ env, ∀ b ∈ bs, (core home).Sealed b)
    (within : r.Scoped (scopes ++ env.map List.length)) (resolves : (core home).Resolves r) :
    ∃ r', TypeRef.fill scopes.length env r = .ok r' ∧ r'.Scoped scopes ∧
      (core home).Resolves r' := by
  induction env generalizing scopes with
  | nil =>
    rw [List.map_nil, List.append_nil] at within
    exact ⟨r, rfl, within, resolves⟩
  | cons bs env ih =>
    rw [List.forall_mem_cons] at bound
    rw [List.map_cons, List.append_cons] at within
    obtain ⟨r', filled, within', resolves'⟩ := ih bound.2 within
    obtain ⟨s, substituted, rest⟩ := exists_substitute (fun b hb => (bound.1 b hb).closed)
      (fun b hb => (bound.1 b hb).resolves) within' resolves'
    rw [List.length_append, List.length_singleton] at filled
    exact ⟨s, Outcome.bind_eq_ok.2 ⟨r', filled, substituted⟩, rest⟩

theorem sealed_of_fill {env : List (List TypeRef)} {r x : TypeRef}
    (bound : ∀ bs ∈ env, ∀ b ∈ bs, (core home).Sealed b) (within : r.Scoped (env.map List.length))
    (resolves : (core home).Resolves r) (hx : TypeRef.fill 0 env r = .ok x) :
    (core home).Sealed x := by
  have within : r.Scoped ([] ++ env.map List.length) := within
  obtain ⟨x', filled, closed, resolves'⟩ := exists_fill bound within resolves
  obtain rfl := Except.ok.inj (hx.symm.trans filled)
  exact ⟨resolves', closed⟩

section Related

variable {env env' : List (List TypeRef)} {r x y : TypeRef}
  (related : List.Forall₂ (List.Forall₂ (core home).Narrower) env env')
include related

theorem sealed_of_related (within : r.Scoped (env.map List.length))
    (resolves : (core home).Resolves r) (hx : TypeRef.fill 0 env r = .ok x)
    (hy : TypeRef.fill 0 env' r = .ok y) : (core home).Sealed x ∧ (core home).Sealed y := by
  constructor
  · refine sealed_of_fill (fun bs hbs b hb => ?_) within resolves hx
    obtain ⟨bs', -, each⟩ := exists_mem_of_forall₂ related hbs
    obtain ⟨b', -, narrower⟩ := exists_mem_of_forall₂ each hb
    exact narrower.left
  · have counts : env.map List.length = env'.map List.length := by
      rw [← List.forall₂_eq_eq_eq, List.forall₂_map_left_iff, List.forall₂_map_right_iff]
      exact related.imp fun _ _ each => each.length_eq
    refine sealed_of_fill (fun bs hbs b hb => ?_) (counts ▸ within) resolves hy
    obtain ⟨bs', -, each⟩ := exists_mem_of_forall₂ related.flip hbs
    obtain ⟨b', -, narrower⟩ := exists_mem_of_forall₂ each.flip hb
    exact narrower.right

theorem narrower_var {c : GlobalId} {types : List TypeRef} {values : List Value} {v : TypeVar}
    (hv : TypeRef.var? c values = some v)
    (within : (TypeRef.constructed c types values).Scoped (env.map List.length))
    (hx : TypeRef.fill 0 env (.constructed c types values) = .ok x)
    (hy : TypeRef.fill 0 env' (.constructed c types values) = .ok y) :
    (core home).Narrower x y := by
  obtain ⟨count, found, below⟩ := (TypeRef.scoped_var hv).1 within
  rw [List.getElem?_map, Option.map_eq_some_iff] at found
  obtain ⟨bs, hbs, rfl⟩ := found
  obtain ⟨bs', hbs', each⟩ := exists_get_of_forall₂ related hbs
  have hb : bs[v.index.toNat]? = some bs[v.index.toNat] := List.getElem?_eq_getElem below
  obtain ⟨b', hb', narrower⟩ := exists_get_of_forall₂ each hb
  have depth : v.depth.toNat = 0 + v.depth.toNat := (Nat.zero_add _).symm
  rw [TypeRef.fill_var hv depth hbs hb narrower.left.closed] at hx
  rw [TypeRef.fill_var hv depth hbs' hb' narrower.right.closed] at hy
  rwa [← Except.ok.inj hx, ← Except.ok.inj hy]

end Related

/-- Generics are as narrow as their instances. -/
theorem below_of_instances {body body' x y : TypeRef} {bindings bindings' : List TypeRef}
    {values values' : List Value}
    (left : (core home).Sealed (.constructed Core.generic (body :: bindings) values))
    (right : (core home).Sealed (.constructed Core.generic (body' :: bindings') values'))
    (hx : body.instantiate bindings = .ok x) (hy : body'.instantiate bindings' = .ok y)
    (narrower : (core home).Narrower x y)
    (ha : (core home).resolve (.constructed Core.generic (body :: bindings) values) = .ok a)
    (hb : (core home).resolve (.constructed Core.generic (body' :: bindings') values') = .ok b) :
    (core home).oracle.Below a b := by
  obtain ⟨x', s, instantiated, -, hs, unfolds⟩ := exists_instance_of_sealed left ha
  obtain ⟨y', t, instantiated', sealed', ht, unfolds'⟩ := exists_instance_of_sealed right hb
  obtain rfl := Except.ok.inj (hx.symm.trans instantiated)
  obtain rfl := Except.ok.inj (hy.symm.trans instantiated')
  have own := owns_of_resolve ha
  have own' := owns_of_resolve hb
  have firm := left.firm ha
  rw [below_unfold_left own own' firm unfolds, below_unfold_right (owns_of_resolve hs) own'
    (firm.of_unfolds unfolds) (right.firm hb) unfolds']
  exact narrower.below s t hs ht

/-- A reference whose variables are bound to subtypes names a subtype. -/
theorem narrower_of_fill {env env' : List (List TypeRef)} {r x y : TypeRef}
    (related : List.Forall₂ (List.Forall₂ (core home).Narrower) env env')
    (within : r.Scoped (env.map List.length)) (resolves : (core home).Resolves r)
    (hx : TypeRef.fill 0 env r = .ok x) (hy : TypeRef.fill 0 env' r = .ok y) :
    (core home).Narrower x y := by
  induction r using TypeRef.induct_forms generalizing env env' x y with
  | primitive id =>
    obtain ⟨left, right⟩ := sealed_of_related related within resolves hx hy
    have still {env : List (List TypeRef)} :
        TypeRef.fill 0 env (.primitive id) = .ok (.primitive id) :=
      TypeRef.fill_of_boundWithin trivial
    obtain rfl := Except.ok.inj (still.symm.trans hx)
    obtain rfl := Except.ok.inj (still.symm.trans hy)
    refine ⟨left, right, fun a b ha hb => ?_⟩
    obtain rfl := Except.ok.inj (ha.symm.trans hb)
    exact below_self (owns_of_resolve ha)
  | var c types values v hv => exact narrower_var related hv within hx hy
  | generic body bindings values ihb ihs =>
    obtain ⟨left, right⟩ := sealed_of_related related within resolves hx hy
    obtain ⟨count, inner, outer⟩ := TypeRef.scoped_generic.1 within
    have parts := resolves_types resolves
    rw [List.forall_mem_cons] at parts
    obtain ⟨body', bound, hbody, hbs, rfl⟩ := TypeRef.fill_generic hx
    obtain ⟨body'', bound', hbody', hbs', rfl⟩ := TypeRef.fill_generic hy
    have each : List.Forall₂ (core home).Narrower bound bound' :=
      forall₂_of_common hbs hbs' fun b hm _ _ h h' =>
        ihs b hm related (outer b hm) (parts.2 b hm) h h'
    refine ⟨left, right, fun a b ha hb => ?_⟩
    -- the instance is the body under the new bindings
    obtain ⟨s, -, hs, -⟩ := exists_instance_of_sealed left ha
    obtain ⟨t, -, ht, -⟩ := exists_instance_of_sealed right hb
    refine below_of_instances left right hs ht ?_ ha hb
    rw [← count, hbs.length_eq] at inner
    exact ihb (.cons each related) inner parts.1 (Outcome.bind_eq_ok.2 ⟨body', hbody, hs⟩)
      (Outcome.bind_eq_ok.2 ⟨body'', hbody', ht⟩)
  | plain c types values hv hc ih =>
    obtain ⟨left, right⟩ := sealed_of_related related within resolves hx hy
    have inner := (TypeRef.scoped_plain hv hc).1 within
    have parts := resolves_types resolves
    obtain ⟨types', hs, rfl⟩ := TypeRef.fill_plain hv hc hx
    obtain ⟨types'', hs', rfl⟩ := TypeRef.fill_plain hv hc hy
    have each : List.Forall₂ (core home).Narrower types' types'' :=
      forall₂_of_common hs hs' fun t hm _ _ h h' => ih t hm related (inner t hm) (parts t hm) h h'
    refine ⟨left, right, fun a b ha hb => ?_⟩
    have plain := isPlain_of_resolve ha hv (TypeRef.nil_of_forall₂ hc hs)
    have plain' := isPlain_of_resolve hb hv (TypeRef.nil_of_forall₂ hc hs')
    have own := owns_of_resolve ha
    rw [below_plain_iff own (owns_of_resolve hb) plain plain']
    exact Kind.under_of_alike (forms_of_owns own).kind plain
      (alike_of_resolve ha hb (each.imp fun _ _ h => h.below))

/-- Whether the type of a reference is a subtype of that of another one, or what a failure policy
makes of the first that does not resolve. -/
def isSubtypeBy (r : Registry) (policy : FailurePolicy) (x y : TypeRef) :
    Except TypeError Bool := do
  let o ← r.compareBy policy x y
  .ok o.isSubtype

theorem isSubtypeBy_iff {policy : FailurePolicy} {x y : TypeRef}
    (hx : (core home).resolve x = .ok a) (hy : (core home).resolve y = .ok b) :
    (core home).isSubtypeBy policy x y = .ok true ↔ (core home).oracle.Below a b := by
  simp [isSubtypeBy, compareBy_of_resolve policy hx hy, Oracle.Below, oracle_compare]

theorem Narrower.isSubtypeBy {x y : TypeRef} (h : (core home).Narrower x y)
    (policy : FailurePolicy) : (core home).isSubtypeBy policy x y = .ok true := by
  obtain ⟨a, ha⟩ := h.left.resolves
  obtain ⟨b, hb⟩ := h.right.resolves
  exact (isSubtypeBy_iff ha hb).2 (h.below a b ha hb)

theorem narrower_of_isSubtypeBy {policy : FailurePolicy} {x y : TypeRef}
    (left : (core home).Sealed x) (right : (core home).Sealed y)
    (h : (core home).isSubtypeBy policy x y = .ok true) : (core home).Narrower x y :=
  ⟨left, right, fun _ _ ha hb => (isSubtypeBy_iff ha hb).1 h⟩

/-- A generic around a body is sealed if its bindings are and the variables of the body are its. -/
theorem sealed_genericBound {inner : TypeRef} {n : UInt32} {bs : List TypeRef}
    (few : n ≤ Core.maxVars) (resolves : (core home).Resolves inner)
    (within : inner.Scoped [n.toNat]) (count : bs.length = n.toNat)
    (bound : ∀ b ∈ bs, (core home).Sealed b) :
    (core home).Sealed (.genericBound inner n bs) := by
  obtain ⟨z, hz⟩ := resolves
  obtain ⟨types, hs, own⟩ := exists_forall₂ (P := (core home).Owns) fun b hb =>
    (bound b hb).resolves.imp fun _ h => ⟨h, owns_of_resolve h⟩
  have written : types.map (·.ref) = bs := refs_of_forall₂ hs
  have all : types = [] ∨ types.length = n.toNat := .inr (hs.length_eq ▸ count)
  obtain ⟨t, ht, -⟩ := exists_generic (owns_of_resolve hz) own few all
  rw [ref_of_resolve hz, written] at ht
  refine ⟨⟨t, ht⟩, TypeRef.scoped_generic.2 ?_⟩
  rw [TypeRef.varCount_count]
  exact ⟨count, within, fun b hb => (bound b hb).closed⟩

/-- Covariance of generics: the instance of a body under some bindings is a subtype of the instance
under supertypes of them, and so are the two generics to which these are bound. -/
theorem instantiate_covariant {inner : TypeRef} {n : UInt32} {bs cs : List TypeRef}
    (few : n ≤ Core.maxVars) (resolves : (core home).Resolves inner)
    (within : inner.Scoped [n.toNat]) (count : bs.length = n.toNat)
    (left : ∀ b ∈ bs, (core home).Sealed b) (right : ∀ c ∈ cs, (core home).Sealed c)
    (policy : FailurePolicy)
    (below : List.Forall₂ (fun b c => (core home).isSubtypeBy policy b c = .ok true) bs cs) :
    ∃ x y, inner.instantiate bs = .ok x ∧ inner.instantiate cs = .ok y ∧
      (core home).isSubtypeBy policy x y = .ok true ∧
        (core home).isSubtypeBy policy (.genericBound inner n bs) (.genericBound inner n cs) =
          .ok true := by
  have count' : cs.length = n.toNat := below.length_eq ▸ count
  have related : List.Forall₂ (core home).Narrower bs cs := by
    rw [List.forall₂_iff_get] at below ⊢
    refine ⟨below.1, fun i hi hi' => ?_⟩
    exact narrower_of_isSubtypeBy (left _ (List.getElem_mem hi)) (right _ (List.getElem_mem hi'))
      (below.2 i hi hi')
  have whole := sealed_genericBound few resolves within count left
  have whole' := sealed_genericBound few resolves within count' right
  obtain ⟨a, ha⟩ := whole.resolves
  obtain ⟨b, hb⟩ := whole'.resolves
  obtain ⟨x, -, hx, -⟩ := exists_instance_of_sealed whole ha
  obtain ⟨y, -, hy, -⟩ := exists_instance_of_sealed whole' hb
  rw [← count] at within
  have alone : List.Forall₂ (List.Forall₂ (core home).Narrower) [bs] [cs] := .cons related .nil
  have narrower := narrower_of_fill alone within resolves hx hy
  exact ⟨x, y, hx, hy, narrower.isSubtypeBy policy,
    (isSubtypeBy_iff ha hb).2 (below_of_instances whole whole' hx hy narrower ha hb)⟩

/-- A mapping from a variable to records, which have a field whose type is a generic that is bound
to a list of it. -/
theorem instantiate_covariant_nested :
    let inner : TypeRef := .map (.var 0 0)
      (.record [⟨⟨"p"⟩, .genericBound (.tuple [.var 0 0, .var 0 1]) 1 [.list (.var 0 0)], true⟩])
    ∃ x y, inner.instantiate [.intRange 0 3] = .ok x ∧ inner.instantiate [.int] = .ok y ∧
      (core 0).isSubtypeBy .strict x y = .ok true ∧
        (core 0).isSubtypeBy .strict (.genericBound inner 1 [.intRange 0 3])
          (.genericBound inner 1 [.int]) = .ok true := by
  intro inner
  obtain ⟨a, b, ha, hb, ka, kb, free, free'⟩ : ∃ a b, (core 0).resolve (.intRange 0 3) = .ok a ∧
      (core 0).resolve .int = .ok b ∧ a.kind = .int ⟨0, 3, by decide⟩ ∧ b.kind = .int .full ∧
        a.freeDepth = none ∧ b.freeDepth = none :=
    ⟨_, _, rfl, rfl, rfl, rfl, rfl, rfl⟩
  have left : (core 0).Sealed (.intRange 0 3) := sealed_of_resolve ha free rfl
  have right : (core 0).Sealed .int := sealed_of_resolve hb free' rfl
  have reach : inner.EachVar (fun level v _ => v.depth.toNat < level) 1 := by decide
  have within : inner.Scoped [(1 : UInt32).toNat] := ⟨rfl, reach⟩
  have below : (core 0).isSubtypeBy .strict (.intRange 0 3) .int = .ok true := by
    have own := owns_of_resolve ha
    rw [isSubtypeBy_iff ha hb, below_kinds_iff own (owns_of_resolve hb) ka kb trivial trivial]
    show IntRange.within _ _ = true
    decide
  exact instantiate_covariant (by decide) ⟨_, rfl⟩ within rfl (List.forall_mem_singleton.2 left)
    (List.forall_mem_singleton.2 right) .strict (.cons below .nil)

end Registry

end TypedTree
