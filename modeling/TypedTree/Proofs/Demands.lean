import TypedTree.Proofs.Defaults
import TypedTree.Proofs.Comparison
import Mathlib.Logic.Relation

/-!
# What defaults are made of

The default of a type is made of defaults of other types: of those of its fields that are not
optional, of the fields of its initial tag, of its element, its initial summand, its slots, of the
target of a mapping whose source is not below it, and of the instance of a generic. It does not
look at other parts. A type has a default if those that it is made of have one and it is itself not
barren, which only variables, stand-ins and some generics are.

Going on from there, a type has a default just if nothing that its default is made of, however
indirectly, is barren. The induction is on what a type weighs.

## Main definitions

* `Ty.Demands`: the types whose defaults the default of a type is made of.
* `Ty.IsBarren`: the types without a default whatever other types have.
* `Ty.IsFertile`: the types that lead to no barren ones.

## Main statements

* `Registry.exists_default_step`: when a type has a default, by the types it demands.
* `Registry.exists_default_iff`: when a type has a default.
-/

namespace TypedTree

open Relation

namespace Ty

variable {o : Oracle} {default : Ty → Attempt Value} {s t : Ty}

/-! ## Pieces of defaults -/

/-- Whether a value is computed for a type. -/
def Yields (o : Oracle) (default : Ty → Attempt Value) (t : Ty) : Prop :=
  ∃ v, (default t).answer o = .ok v

theorem exists_initialSlots {fields : List (Field Ty)} :
    (∃ slots, (initialSlots default fields).answer o = .ok slots) ↔
      ∀ f ∈ fields, f.optional = false → f.type.Yields o default := by
  rw [initialSlots, Attempt.exists_each]
  refine forall₂_congr fun f _ => ?_
  cases f.optional with
  | true => exact iff_of_true ⟨_, rfl⟩ nofun
  | false => exact Attempt.exists_bind_pure.trans ⟨fun made _ => made, fun made => made rfl⟩

theorem exists_fill {declared : List (Ident × Ty)} {tag : Tag} :
    (∃ v, (fill default declared tag []).answer o = .ok v) ↔
      ∀ d ∈ tagFields declared tag, d.2.Yields o default := by
  rw [fill, Attempt.exists_bind_pure, Attempt.exists_each]
  exact forall₂_congr fun d _ => Attempt.exists_bind_pure

theorem exists_boundValue {body : TypeRef} {vars : UInt32} {bindings : List TypeRef} :
    (∃ v, (boundValue default body vars bindings).answer o = .ok v) ↔
      (∀ b ∈ bindings, b.Closed o) ∧
        ∃ s, body.HasInstance o vars bindings s ∧ s.Yields o default := by
  simp only [boundValue_eq_ok]
  constructor
  · rintro ⟨_, closed, s, own, v, made, -⟩
    exact ⟨closed, s, own, v, made⟩
  · rintro ⟨closed, s, own, v, made⟩
    exact ⟨_, closed, s, own, v, made, rfl⟩

/-! ## Demands -/

/-- Whether the default of a type is made of that of another. -/
def Demands (o : Oracle) (t s : Ty) : Prop :=
  match t.kind with
  | .record fields => ∃ f ∈ fields, f.optional = false ∧ f.type = s
  | .variant declared _ initial => ∃ d ∈ tagFields declared initial, d.2 = s
  | .array element _ => element = s
  | .sum summands initial => summands[initial.toNat]? = some s
  | .tuple slots => s ∈ slots
  | .generic .. => t.Unfolds o s
  | .map source target => (o.compare source target).isSubtype = false ∧ target = s
  | .bool | .int _ | .rational _ | .text | .enumeration _ | .var _ | .failure _ => False

/-- Whether a type has no default whatever other types have. A generic has none if a variable is
free in what is bound, or if it has no instance, as when nothing is bound. -/
def IsBarren (o : Oracle) (t : Ty) : Prop :=
  match t.kind with
  | .generic _ _ _ bindings =>
    (∃ b ∈ bindings, b.2.freeDepth ≠ none) ∨ ∀ s, ¬ t.Unfolds o s
  | .var _ | .failure _ => True
  | _ => False

/-- Whether nothing that the default of a type is made of, however indirectly, is barren. -/
def IsFertile (o : Oracle) (t : Ty) : Prop :=
  ∀ s, ReflTransGen (Demands o) t s → ¬ s.IsBarren o

theorem unfolds_iff_of_generic {body : TypeRef} {inner : Ty} {vars : UInt32}
    {bindings : List (TypeRef × Ty)} (hk : t.kind = .generic body inner vars bindings) :
    t.Unfolds o s ↔
      isBound vars bindings = true ∧ body.HasInstance o vars (bindings.map (·.1)) s := by
  constructor
  · rintro ⟨_, _, _, _, hk', bound, own⟩
    obtain ⟨rfl, rfl, rfl, rfl⟩ := Kind.generic.inj (hk.symm.trans hk')
    exact ⟨bound, own⟩
  · exact fun ⟨bound, own⟩ => ⟨body, inner, vars, bindings, hk, bound, own⟩

theorem Demands.part_or_unfolds (h : t.Demands o s) : s ∈ t.kind.parts ∨ t.Unfolds o s := by
  rw [Demands] at h
  cases hk : t.kind with
  | record fields =>
    rw [hk] at h
    obtain ⟨f, hf, -, rfl⟩ := h
    exact .inl (List.mem_map_of_mem hf)
  | variant declared tags initial =>
    rw [hk] at h
    obtain ⟨d, hd, rfl⟩ := h
    exact .inl (List.mem_map_of_mem (mem_of_mem_tagFields hd))
  | array element size =>
    rw [hk] at h
    exact .inl (List.mem_singleton.2 h.symm)
  | sum summands initial =>
    rw [hk] at h
    exact .inl (List.mem_of_getElem? h)
  | tuple slots =>
    rw [hk] at h
    exact .inl h
  | generic =>
    rw [hk] at h
    exact .inr h
  | map source target =>
    rw [hk] at h
    obtain ⟨-, rfl⟩ := h
    exact .inl (by simp [Kind.parts])
  | _ => simp [hk] at h

end Ty

namespace Registry

variable {home : Nat} {s t : Ty}

theorem owns_of_demands (ht : (core home).Owns t) (h : t.Demands (core home).oracle s) :
    (core home).Owns s := by
  obtain part | unfolds := h.part_or_unfolds
  · exact (forms_of_owns ht).owns_parts s part
  · exact owns_of_unfolds unfolds

theorem weight_demands_lt (ht : (core home).Owns t) (h : t.Demands (core home).oracle s) :
    s.ref.weight < t.ref.weight := by
  obtain part | unfolds := h.part_or_unfolds
  · exact (forms_of_owns ht).weight_part_lt part
  · exact (forms_of_owns ht).weight_instance_lt unfolds

/-- What is bound in a generic is closed just if it has no free variables. -/
theorem closed_binding_iff {body : TypeRef} {inner : Ty} {vars : UInt32}
    {bindings : List (TypeRef × Ty)} (h : (core home).Owns t)
    (hk : t.kind = .generic body inner vars bindings) :
    (∀ ref ∈ bindings.map (·.1), ref.Closed (core home).oracle) ↔
      ¬ ∃ b ∈ bindings, b.2.freeDepth ≠ none := by
  have forms := forms_of_owns h
  have formed : Kind.Formed (.generic body inner vars bindings) := hk ▸ forms.kind
  have owns := forms.owns_parts
  rw [hk, Kind.parts, List.forall_mem_cons, List.forall_mem_map] at owns
  simp only [ne_eq, not_exists, not_and, not_not, List.forall_mem_map]
  refine forall₂_congr fun b hb => ?_
  have resolved : (core home).resolve b.1 = .ok b.2 := formed.binding_ref b hb ▸ owns.2 b hb
  constructor
  · rintro ⟨x, hx, closed⟩
    obtain rfl := Except.ok.inj (resolved.symm.trans hx)
    exact closed
  · exact fun closed => ⟨b.2, resolved, closed⟩

/-- A type has a default if it is not barren and the types that it demands have one. -/
theorem exists_default_step (h : (core home).Owns t) :
    (∃ v, t.default.answer (core home).oracle = .ok v) ↔
      ¬ t.IsBarren (core home).oracle ∧ ∀ s, t.Demands (core home).oracle s →
        ∃ v, s.default.answer (core home).oracle = .ok v := by
  have formed := (forms_of_owns h).kind
  let within (x : Ty) : Attempt Value :=
    if x.ref.weight < t.ref.weight then x.default
    else Attempt.invalid t.name "nested too deeply"
  have lighter (x : Ty) (demanded : t.Demands (core home).oracle x) :
      (∃ v, x.default.answer (core home).oracle = .ok v) ↔
        x.Yields (core home).oracle within := by
    simp only [Ty.Yields, within, if_pos (weight_demands_lt h demanded)]
  rw [forall₂_congr lighter, Ty.default, Ty.IsBarren]
  simp only [Ty.Demands]
  cases hk : t.kind with
  | bool | int | rational | text | enumeration =>
    exact iff_of_true ⟨_, rfl⟩ ⟨not_false, fun _ demanded => demanded.elim⟩
  | var | failure =>
    refine iff_of_false ?_ fun both => both.1 trivial
    rintro ⟨v, hv⟩
    cases hv
  | record fields =>
    refine Attempt.exists_bind_pure.trans (Ty.exists_initialSlots.trans ?_)
    constructor
    · rintro made
      refine ⟨not_false, ?_⟩
      rintro _ ⟨f, hf, needed, rfl⟩
      exact made f hf needed
    · exact fun made f hf needed => made.2 f.type ⟨f, hf, needed, rfl⟩
  | variant declared tags initial =>
    refine Ty.exists_fill.trans ?_
    constructor
    · intro made
      refine ⟨not_false, ?_⟩
      rintro _ ⟨d, hd, rfl⟩
      exact made d hd
    · exact fun made d hd => made.2 d.2 ⟨d, hd, rfl⟩
  | array element size =>
    refine Attempt.exists_bind_pure.trans ?_
    simp [Ty.Yields, within]
  | sum summands initial =>
    rw [hk] at formed
    have found : summands[initial.toNat]? = some summands[initial.toNat] :=
      List.getElem?_eq_getElem formed
    simp only [found]
    refine Attempt.exists_bind_pure.trans ?_
    simp [Ty.Yields, within]
  | tuple slots =>
    refine Attempt.exists_bind_pure.trans (Attempt.exists_each.trans ?_)
    simp [Ty.Yields, within]
  | generic body inner vars bindings =>
    have unfolds (s : Ty) : t.Unfolds (core home).oracle s ↔ Ty.isBound vars bindings = true ∧
        body.HasInstance (core home).oracle vars (bindings.map (·.1)) s :=
      Ty.unfolds_iff_of_generic hk
    cases bound : Ty.isBound vars bindings with
    | true =>
      simp only [bound, if_true, unfolds, true_and, not_or]
      refine Ty.exists_boundValue.trans ?_
      rw [closed_binding_iff h hk, and_assoc, not_forall_not]
      refine and_congr_right fun _ => ?_
      constructor
      · rintro ⟨s, own, made⟩
        exact ⟨⟨s, own⟩, fun x own' => own.unique own' ▸ made⟩
      · rintro ⟨⟨s, own⟩, made⟩
        exact ⟨s, own, made s own⟩
    | false => simp [bound, unfolds]
  | map source target =>
    cases below : ((core home).oracle.compare source target).isSubtype with
    | true =>
      refine iff_of_true ⟨.map (.ofFallback .itself), ?_⟩ ⟨not_false, by simp [below]⟩
      simp [below]
    | false =>
      rw [Attempt.answer_bind, Attempt.answer_relate, Outcome.ok_bind, if_neg (by simp [below])]
      refine Attempt.exists_bind_pure.trans ?_
      simp [Ty.Yields, within, below]

/-- A type has a default just if nothing that its default is made of is barren. -/
theorem exists_default_iff (h : (core home).Owns t) :
    (∃ v, t.default.answer (core home).oracle = .ok v) ↔ t.IsFertile (core home).oracle := by
  induction hn : t.ref.weight using Nat.strongRecOn generalizing t with
  | ind n ih =>
    subst hn
    rw [exists_default_step h]
    have demanded (x : Ty) (first : t.Demands (core home).oracle x) :
        (∃ v, x.default.answer (core home).oracle = .ok v) ↔ x.IsFertile (core home).oracle :=
      ih _ (weight_demands_lt h first) (owns_of_demands h first) rfl
    constructor
    · rintro ⟨fertile, made⟩ s path
      obtain rfl | ⟨x, first, rest⟩ := path.cases_head
      · exact fertile
      · exact (demanded x first).1 (made x first) s rest
    · intro fertile
      refine ⟨fertile t .refl, fun x first => (demanded x first).2 fun s rest => ?_⟩
      exact fertile s (.head first rest)

end Registry

end TypedTree
