import TypedTree.Proofs.Questions
import TypedTree.Proofs.Sessions
import TypedTree.Proofs.Substitution

/-!
# What later registrations cannot change

A reference that names only what is registered resolves ever after as it does now, and if it fails,
it fails ever after. So do the references of the instances of generics, as long as constructors put
no references into a kind but those that they are handed: substitution introduces no new names.

## Main definitions

* `Registry.Knows`: whether everything that a reference names is registered.
* `Constructor.Contained`, `Registry.Contained`: whether constructors build kinds only from the
  types and references that they are handed.
* `Registry.Handle`: the types that a comparison can be asked about.

## Main statements

* `Registry.Extends.resolve_of_knows`: what registrations leave alone.
* `Registry.knows_of_expands`: the instances of generics are among it.
-/

namespace TypedTree

namespace Kind

/-- The references in a kind: of a generic the body and what is bound. -/
def refs {τ : Type} : Kind τ → List TypeRef
  | .generic body _ _ bindings => body :: bindings.map (·.1)
  | _ => []

end Kind

/-- Whether a constructor makes the kinds of its types only of the type arguments and of the
references that it is given. -/
structure Constructor.Contained (c : Constructor) : Prop where
  faithful : c.Faithful
  refs : ∀ (args : Constructor.Args) (kind : Kind Ty), args.types.map (·.ref) = args.refs →
    c.arity.accepts args.types.length = true → c.build args = .ok kind →
      ∀ ref ∈ kind.refs, ref ∈ args.refs

namespace Registry

variable {r r' : Registry} {ref : TypeRef} {t s : Ty}

/-! ## Known references -/

/-- Whether everything that a reference names is registered. -/
inductive Knows (r : Registry) : TypeRef → Prop
  | primitive {id : GlobalId} (h : (r.primitive? id).isSome = true) : r.Knows (.primitive id)
  | constructed {id : GlobalId} {types : List TypeRef} {values : List Value}
    (h : (r.constructor? id).isSome = true) (args : ∀ ref ∈ types, r.Knows ref) :
    r.Knows (.constructed id types values)

theorem knows_constructed {id : GlobalId} {types : List TypeRef} {values : List Value} :
    r.Knows (.constructed id types values) ↔
      (r.constructor? id).isSome = true ∧ ∀ ref ∈ types, r.Knows ref :=
  ⟨fun | .constructed h args => ⟨h, args⟩, fun h => .constructed h.1 h.2⟩

/-- What resolves names nothing that is missing. -/
theorem knows_of_resolve (h : r.resolve ref = .ok t) : r.Knows ref := by
  induction ref using TypeRef.induct_types generalizing t with
  | primitive id =>
    obtain ⟨p, hp, -⟩ := resolve_primitive_eq_ok.1 h
    exact .primitive (by simp [hp])
  | constructed id types values ih =>
    obtain ⟨c, ts, hc, args, -⟩ := resolve_constructed_eq_ok.1 h
    refine .constructed (by simp [hc]) fun ref hr => ?_
    obtain ⟨s, -, hs⟩ := exists_mem_of_forall₂ args hr
    exact ih ref hr hs

theorem resolveAll_congr {refs : List TypeRef} (h : ∀ ref ∈ refs, r'.resolve ref = r.resolve ref) :
    r'.resolveAll refs = r.resolveAll refs := by
  induction refs with
  | nil => rfl
  | cons ref refs ih =>
    rw [List.forall_mem_cons] at h
    simp only [resolveAll, h.1, ih h.2]

/-- A reference whose names are registered comes to the same once more is registered, be it a type
or an error. -/
theorem Extends.resolve_of_knows (h : r.Extends r') (known : r.Knows ref) :
    r'.resolve ref = r.resolve ref := by
  induction known with
  | @primitive id known =>
    obtain ⟨p, hp⟩ := Option.isSome_iff_exists.1 known
    have hp' : r'.primitive? id = some p := h.primitives.find?_eq_some hp
    simp only [Registry.resolve, hp, hp', primitiveType, h.home]
  | @constructed id types values known _ ih =>
    obtain ⟨c, hc⟩ := Option.isSome_iff_exists.1 known
    have hc' : r'.constructor? id = some c := h.constructors.find?_eq_some hc
    rw [resolve_constructed hc, resolve_constructed hc', resolveAll_congr ih, h.home]

/-! ## Substitution -/

section Substitution

variable {bindings : List TypeRef} {level levels cutoff : Nat}

theorem knows_varAt {c : GlobalId} {types : List TypeRef} {values : List Value} {v : TypeVar}
    (hv : TypeRef.var? c values = some v) (known : r.Knows (.constructed c types values))
    (index : UInt32) (depth : Nat) : r.Knows (TypeRef.varAt index depth) := by
  obtain ⟨rfl, -⟩ := TypeRef.eq_of_var? hv
  exact .constructed (knows_constructed.1 known).1 (List.forall_mem_nil _)

theorem knows_raise (known : r.Knows ref) : r.Knows (ref.raise levels cutoff) := by
  induction ref using TypeRef.induct_forms generalizing cutoff with
  | primitive id => exact known
  | var c types values v hv =>
    by_cases far : cutoff ≤ v.depth.toNat
    · rw [TypeRef.raise_far hv far]
      exact knows_varAt hv known _ _
    · rw [TypeRef.raise_near hv (Nat.lt_of_not_le far)]
      exact known
  | generic body bindings values ihb ihs =>
    rw [knows_constructed, List.forall_mem_cons] at known
    rw [TypeRef.raise_generic, knows_constructed, List.forall_mem_cons, List.forall_mem_map]
    exact ⟨known.1, ihb known.2.1, fun b hb => ihs b hb (known.2.2 b hb)⟩
  | plain c types values hv hc ih =>
    rw [knows_constructed] at known
    rw [TypeRef.raise_plain hv hc, knows_constructed, List.forall_mem_map]
    exact ⟨known.1, fun t ht => ih t ht (known.2 t ht)⟩

theorem knows_shift (known : r.Knows ref) : r.Knows (ref.shift levels cutoff) := by
  rw [TypeRef.shift_eq]
  split
  · exact known
  · exact knows_raise known

theorem knows_of_forall₂ {refs refs' : List TypeRef}
    (h : List.Forall₂ (fun ref ref' => TypeRef.substitute bindings level ref = .ok ref') refs refs')
    (each : ∀ ref ∈ refs, ∀ ref', TypeRef.substitute bindings level ref = .ok ref' → r.Knows ref') :
    ∀ ref' ∈ refs', r.Knows ref' := by
  intro ref' hr
  obtain ⟨ref, listed, substituted⟩ := exists_mem_of_forall₂ h.flip hr
  exact each ref listed ref' substituted

/-- Substitution introduces no new names. -/
theorem knows_substitute (bound : ∀ b ∈ bindings, r.Knows b) {ref' : TypeRef}
    (known : r.Knows ref) (h : TypeRef.substitute bindings level ref = .ok ref') :
    r.Knows ref' := by
  induction ref using TypeRef.induct_forms generalizing level ref' with
  | primitive id => cases h; exact known
  | var c types values v hv =>
    obtain beyond | here | inside := Nat.lt_trichotomy level v.depth.toNat
    · rw [TypeRef.substitute_beyond hv beyond] at h
      cases h
      exact knows_varAt hv known _ _
    · obtain ⟨b, found, rfl⟩ := (TypeRef.substitute_here hv here.symm).1 h
      exact knows_shift (bound b (List.mem_of_getElem? found))
    · rw [TypeRef.substitute_inside hv inside] at h
      cases h
      exact known
  | generic body bs values ihb ihs =>
    rw [knows_constructed, List.forall_mem_cons] at known
    obtain ⟨body', bs', hbody, hbs, rfl⟩ := TypeRef.substitute_generic_eq_ok.1 h
    rw [knows_constructed, List.forall_mem_cons]
    refine ⟨known.1, ihb known.2.1 hbody, knows_of_forall₂ hbs ?_⟩
    intro b hb b' hb'
    exact ihs b hb (known.2.2 b hb) hb'
  | plain c types values hv hc ih =>
    rw [knows_constructed] at known
    obtain ⟨types', hs, rfl⟩ := (TypeRef.substitute_plain_eq_ok hv hc).1 h
    refine knows_constructed.2 ⟨known.1, knows_of_forall₂ hs ?_⟩
    intro t ht t' ht'
    exact ih t ht (known.2 t ht) ht'

end Substitution

/-! ## Contained constructors -/

/-- Whether all constructors of a registry build kinds only from what they are handed. -/
def Contained (r : Registry) : Prop :=
  ∀ c ∈ r.constructors, c.Contained

theorem Contained.faithful (h : r.Contained) : r.Faithful :=
  fun c hc => (h c hc).faithful

theorem contained_core {home : Nat} : (core home).Contained := by
  intro c hc
  refine ⟨faithful_core c hc, ?_⟩
  intro args kind names arity built ref hr
  obtain ⟨word, made, -⟩ := Core.built_of_mem_constructors hc names arity built
  cases kind with
  | generic body inner vars bindings =>
    have formed : Kind.GenericFormed body inner vars bindings := made.formed
    rwa [← names, ← made.parts, Kind.parts, List.map_cons, formed.inner_ref, formed.refs_bound]
  | _ => simp [Kind.refs] at hr

/-- The references in the kind of a type resolve. -/
theorem Contained.exists_resolve (h : r.Contained) (own : r.Owns t) (hr : ref ∈ t.kind.refs) :
    ∃ s, r.resolve ref = .ok s := by
  rw [Owns] at own
  cases ht : t.ref with
  | primitive id =>
    rw [ht] at own
    obtain ⟨p, -, rfl⟩ := resolve_primitive_eq_ok.1 own
    rw [primitiveType] at hr
    cases hk : p.kind with
    | generic body inner => exact inner.elim
    | _ => simp [hk, Kind.mapParts, Kind.refs] at hr
  | constructed id types values =>
    rw [ht] at own
    obtain ⟨c, ts, hc, args, built⟩ := resolve_constructed_eq_ok.1 own
    obtain ⟨arity, -, kind, hk, rfl⟩ := Constructor.construct_eq_ok.1 built
    have contained := h c (List.mem_of_find?_eq_some hc)
    have listed : ref ∈ types :=
      contained.refs ⟨c.id, types, ts, values⟩ kind (refs_of_forall₂ args) arity hk ref hr
    obtain ⟨s, -, hs⟩ := exists_mem_of_forall₂ args listed
    exact ⟨s, hs⟩

/-- The parts of a type are of the same type system. -/
theorem Faithful.owns_part (h : r.Faithful) (own : r.Owns t) {p : Ty} (hp : p ∈ t.kind.parts) :
    r.Owns p := by
  rw [Owns] at own
  cases ht : t.ref with
  | primitive id =>
    rw [ht] at own
    obtain ⟨q, -, rfl⟩ := resolve_primitive_eq_ok.1 own
    simp only [primitiveType, Kind.parts_mapParts, List.mem_map] at hp
    obtain ⟨e, -⟩ := hp
    exact e.elim
  | constructed id types values =>
    rw [ht] at own
    obtain ⟨c, ts, hc, args, built⟩ := resolve_constructed_eq_ok.1 own
    exact owns_of_forall₂ args p (h.parts hc args built p hp)

/-- The instance of a generic names nothing that is missing, even if it does not resolve. -/
theorem Contained.knows_of_expands (h : r.Contained) (own : r.Owns t) (expands : t.Expands ref) :
    r.Knows ref := by
  obtain ⟨body, inner, vars, bindings, ht, -, expand⟩ := expands
  have known : ∀ ref ∈ t.kind.refs, r.Knows ref := by
    intro ref hr
    obtain ⟨s, hs⟩ := h.exists_resolve own hr
    exact knows_of_resolve hs
  rw [ht, Kind.refs, List.forall_mem_cons] at known
  obtain ⟨-, instantiated⟩ := TypeRef.expand_eq_ok.1 expand
  exact knows_substitute known.2 known.1 instantiated

/-! ## Handles -/

/-- The types that a comparison can be asked about: those of the registry, those of other type
systems, and stand-ins for types that could not be built. -/
inductive Handle (r : Registry) (t : Ty) : Prop
  | own (h : r.Owns t)
  | foreign (other : Registry) (faithful : other.Faithful) (away : other.home ≠ r.home)
    (h : other.Owns t)
  | standIn (h : t.isFailure = true)

theorem Handle.part (faithful : r.Faithful) (h : r.Handle t) {p : Ty} (hp : p ∈ t.kind.parts) :
    r.Handle p := by
  cases h with
  | own own => exact .own (faithful.owns_part own hp)
  | foreign other faithful' away own =>
    exact .foreign other faithful' away (faithful'.owns_part own hp)
  | standIn failed =>
    cases hk : t.kind with
    | failure e => simp [hk, Kind.parts] at hp
    | _ => simp [Ty.isFailure, Ty.failure?, hk] at failed

theorem Handle.extends (h : r.Handle t) (more : r.Extends r') : r'.Handle t := by
  cases h with
  | own own => exact .own (more.resolve own)
  | foreign other faithful away own => exact .foreign other faithful (more.home ▸ away) own
  | standIn failed => exact .standIn failed

/-- A handle of the home of the registry is its own. -/
theorem Handle.owns (h : r.Handle t) (proper : t.isFailure = false) (home : t.home = r.home) :
    r.Owns t := by
  cases h with
  | own own => exact own
  | foreign other faithful away own => exact absurd ((home_of_owns own).symm.trans home) away
  | standIn failed => simp [proper] at failed

/-- The rules ask about handles if they are asked about them. -/
theorem Handle.within_judge (faithful : r.Faithful) {a b : Ty} (ha : r.Handle a)
    (hb : r.Handle b) :
    (a.judge b).Within r.resolve (fun _ => True) fun x y => r.Handle x ∧ r.Handle y := by
  refine Ty.within_judge ?_ ?_ ?_
  · intro x hx y hy
    have left := ha.part faithful hx
    have right := hb.part faithful hy
    exact ⟨⟨left, right⟩, right, left⟩
  · intro ref _
    refine ⟨trivial, fun s hs => ?_⟩
    have inst : r.Handle s := .own (owns_of_resolve hs)
    exact ⟨⟨inst, hb⟩, hb, inst⟩
  · intro ref _
    refine ⟨trivial, fun s hs => ?_⟩
    have inst : r.Handle s := .own (owns_of_resolve hs)
    exact ⟨⟨ha, inst⟩, inst, ha⟩

/-- For types of the registry the rules ask about types of the registry and resolve only what it
knows. -/
theorem Contained.within_judge (contained : r.Contained) {a b : Ty} (ha : r.Owns a)
    (hb : r.Owns b) :
    (a.judge b).Within r.resolve r.Knows fun x y => r.Owns x ∧ r.Owns y := by
  refine Ty.within_judge ?_ ?_ ?_
  · intro x hx y hy
    have left := contained.faithful.owns_part ha hx
    have right := contained.faithful.owns_part hb hy
    exact ⟨⟨left, right⟩, right, left⟩
  · intro ref expands
    refine ⟨contained.knows_of_expands ha expands, fun s hs => ?_⟩
    have inst := owns_of_resolve hs
    exact ⟨⟨inst, hb⟩, hb, inst⟩
  · intro ref expands
    refine ⟨contained.knows_of_expands hb expands, fun s hs => ?_⟩
    have inst := owns_of_resolve hs
    exact ⟨⟨ha, inst⟩, inst, ha⟩

end Registry

end TypedTree
