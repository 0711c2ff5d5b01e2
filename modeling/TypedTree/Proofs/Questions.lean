import TypedTree.Proofs.Acceptance
import TypedTree.Proofs.Weights

/-!
# Questions about lighter types

The rules of subtyping ask how parts and instances relate. For types of core registries, what is
asked about weighs less than the types that the question came from. So the guard in
`Registry.compare`, which stops at heavier pairs, never acts: the rules are asked of the answers of
the registry itself.

## Main definitions

* `Inquiry.Asks`: whether all comparisons that an inquiry asks for have a property.
* `Inquiry.Within`: whether an inquiry keeps to some references and comparisons.
* `Ty.Unfolds`, `Ty.Expands`: the instance of a generic with everything bound.

## Main statements

* `Ty.within_judge`: what the rules ask about.
* `Registry.Forms.weight_part_lt`, `Registry.Forms.weight_instance_lt`: what weighs less.
* `Registry.compare_formed`: comparing types of core registries.
-/

namespace TypedTree

namespace Inquiry

variable {α β : Type} {o o' : Oracle} {resolve : TypeRef → Except TypeError Ty}
  {Q : TypeRef → Prop} {P : Ty → Ty → Prop}

/-- Whether all comparisons that an inquiry asks for have a property, as the questions before are
answered. -/
def Asks (o : Oracle) (P : Ty → Ty → Prop) : Inquiry α → Prop
  | .done _ => True
  | .resolve ref next => (next (o.resolve ref)).Asks o P
  | .compare a b next => P a b ∧ (next (o.compare a b)).Asks o P

/-- Answers that agree where they are asked for lead to the same result. -/
theorem answer_congr (hr : o.resolve = o'.resolve)
    (hc : ∀ a b, P a b → o.compare a b = o'.compare a b) {x : Inquiry α} (h : x.Asks o P) :
    x.answer o = x.answer o' := by
  induction x with
  | done a => rfl
  | resolve ref next ih =>
    rw [answer, answer, ← hr]
    exact ih _ h
  | compare a b next ih =>
    rw [answer, answer, ← hc a b h.1]
    exact ih _ h.2

/-- Whether an inquiry resolves and compares only what it may, whatever the comparisons come to. -/
def Within (resolve : TypeRef → Except TypeError Ty) (Q : TypeRef → Prop) (P : Ty → Ty → Prop) :
    Inquiry α → Prop
  | .done _ => True
  | .resolve ref next => Q ref ∧ (next (resolve ref)).Within resolve Q P
  | .compare a b next => P a b ∧ ∀ answer, (next answer).Within resolve Q P

theorem Within.asks {x : Inquiry α} (h : x.Within o.resolve Q P) : x.Asks o P := by
  induction x with
  | done a => trivial
  | resolve ref next ih => exact ih _ h.2
  | compare a b next ih => exact ⟨h.1, ih _ (h.2 _)⟩

@[simp] theorem within_pure (a : α) : (pure a : Inquiry α).Within resolve Q P := trivial

@[simp] theorem within_relate {a b : Ty} : (relate a b).Within resolve Q P ↔ P a b :=
  and_iff_left fun _ => trivial

theorem Within.bind {x : Inquiry α} {f : α → Inquiry β} (hx : x.Within resolve Q P)
    (hf : ∀ a, (f a).Within resolve Q P) : (x >>= f).Within resolve Q P := by
  induction x with
  | done a => exact hf a
  | resolve ref next ih => exact ⟨hx.1, ih _ hx.2⟩
  | compare a b next ih => exact ⟨hx.1, fun answer => ih answer (hx.2 answer)⟩

theorem Within.map {x : Inquiry α} (hx : x.Within resolve Q P) (f : α → β) :
    (f <$> x).Within resolve Q P :=
  hx.bind fun _ => within_pure _

theorem within_all {p : α → Inquiry Bool} {l : List α}
    (h : ∀ a ∈ l, (p a).Within resolve Q P) : (all p l).Within resolve Q P := by
  induction l with
  | nil => trivial
  | cons a l ih =>
    obtain ⟨first, rest⟩ := List.forall_mem_cons.1 h
    refine first.bind fun passed => ?_
    cases passed
    · trivial
    · exact ih rest

theorem within_any {p : α → Inquiry Bool} {l : List α}
    (h : ∀ a ∈ l, (p a).Within resolve Q P) : (any p l).Within resolve Q P := by
  induction l with
  | nil => trivial
  | cons a l ih =>
    obtain ⟨first, rest⟩ := List.forall_mem_cons.1 h
    refine first.bind fun passed => ?_
    cases passed
    · exact ih rest
    · trivial

end Inquiry

namespace Ty

open Inquiry

variable {o : Oracle} {resolve : TypeRef → Except TypeError Ty} {Q : TypeRef → Prop}
  {P : Ty → Ty → Prop}

/-! ## The pieces of the rules -/

theorem within_isBelow {a b : Ty} (h : P a b) : (isBelow a b).Within resolve Q P :=
  (within_relate.2 h).bind fun _ => within_pure _

theorem within_recordFits {mine want : List (Field Ty)}
    (h : ∀ f ∈ mine, ∀ g ∈ want, P f.type g.type) : (recordFits mine want).Within resolve Q P := by
  refine within_all ?_
  intro w hw
  split
  · rename_i f hf
    split
    · exact within_isBelow (h f (List.mem_of_find?_eq_some hf) w hw)
    · exact within_pure _
  · exact within_pure _

theorem within_fieldsFit {mine want : List (Ident × Ty)}
    (h : ∀ f ∈ mine, ∀ g ∈ want, P f.2 g.2) : (fieldsFit mine want).Within resolve Q P := by
  refine within_all ?_
  intro w hw
  split
  · rename_i f hf
    exact within_isBelow (h f (List.mem_of_find?_eq_some hf) w hw)
  · exact within_pure _

theorem within_tagsFit {fields others : List (Ident × Ty)} {theirs tags : List Tag}
    (h : ∀ f ∈ fields, ∀ g ∈ others, P f.2 g.2 ∧ P g.2 f.2) :
    (tagsFit fields others theirs tags).Within resolve Q P := by
  induction tags with
  | nil => exact within_pure _
  | cons t tags ih =>
    have listed : ∀ g ∈ ((tag? theirs t.id).map (tagFields others)).getD [], g ∈ others := by
      cases tag? theirs t.id with
      | none => simp
      | some d => exact fun g hg => mem_of_mem_tagFields hg
    have down : ∀ f ∈ tagFields fields t,
        ∀ g ∈ ((tag? theirs t.id).map (tagFields others)).getD [], P f.2 g.2 ∧ P g.2 f.2 := by
      intro f hf g hg
      exact h f (mem_of_mem_tagFields hf) g (listed g hg)
    refine (within_fieldsFit fun f hf g hg => (down f hf g hg).1).bind fun _ => ?_
    refine (within_fieldsFit fun g hg f hf => (down f hf g hg).2).bind fun _ => ?_
    exact ih.bind fun _ => within_pure _

theorem within_covered {mine theirs : List Ty} (h : ∀ m ∈ mine, ∀ t ∈ theirs, P m t) :
    (covered mine theirs).Within resolve Q P :=
  within_all fun m hm => within_any fun t ht => within_isBelow (h m hm t ht)

theorem within_slotsRelate {as bs : List Ty} {soFar : Inclusion}
    (h : ∀ a ∈ as, ∀ b ∈ bs, P a b) : (slotsRelate soFar as bs).Within resolve Q P := by
  induction as generalizing bs soFar with
  | nil => exact within_pure _
  | cons a as ih =>
    cases bs with
    | nil => exact within_pure _
    | cons b bs =>
      have first : P a b := h a List.mem_cons_self b List.mem_cons_self
      refine (within_relate.2 first).bind fun _ => ih ?_
      intro a ha b hb
      exact h a (List.mem_cons_of_mem _ ha) b (List.mem_cons_of_mem _ hb)

theorem within_withInstance {body : TypeRef} {vars : UInt32} {bindings : List (TypeRef × Ty)}
    {next : Ty → Inquiry Inclusion}
    (h : ∀ ref, body.expand vars (bindings.map (·.1)) = .ok ref →
      Q ref ∧ ∀ t, resolve ref = .ok t → (next t).Within resolve Q P) :
    (withInstance body vars bindings next).Within resolve Q P := by
  rw [withInstance, Attempt.expand]
  cases expanded : body.expand vars (bindings.map (·.1)) with
  | error e => exact within_pure _
  | ok ref =>
    obtain ⟨allowed, instances⟩ := h ref expanded
    refine ⟨allowed, ?_⟩
    cases resolved : resolve ref with
    | error e => exact within_pure _
    | ok t => exact instances t resolved

/-! ## The rules -/

/-- Whether a type is a generic with something bound to every variable. -/
def IsBound (t : Ty) : Prop :=
  ∃ body inner vars bindings, t.kind = .generic body inner vars bindings ∧
    isBound vars bindings = true

/-- Whether a type is a generic with nothing bound. -/
def IsOpen (t : Ty) : Prop :=
  ∃ body inner vars bindings, t.kind = .generic body inner vars bindings ∧
    isBound vars bindings = false

/-- Whether a type is a bound generic of which another is the instance. -/
def Unfolds (o : Oracle) (t s : Ty) : Prop :=
  ∃ body inner vars bindings, t.kind = .generic body inner vars bindings ∧
    isBound vars bindings = true ∧ body.HasInstance o vars (bindings.map (·.1)) s

/-- Whether a type is a bound generic whose instance is the type of a reference, if it has one. -/
def Expands (t : Ty) (ref : TypeRef) : Prop :=
  ∃ body inner vars bindings, t.kind = .generic body inner vars bindings ∧
    isBound vars bindings = true ∧ body.expand vars (bindings.map (·.1)) = .ok ref

theorem unfolds_iff {t s : Ty} :
    t.Unfolds o s ↔ ∃ ref, t.Expands ref ∧ o.resolve ref = .ok s := by
  constructor
  · rintro ⟨body, inner, vars, bindings, ht, bound, ref, expand, resolve⟩
    exact ⟨ref, ⟨body, inner, vars, bindings, ht, bound, expand⟩, resolve⟩
  · rintro ⟨ref, ⟨body, inner, vars, bindings, ht, bound, expand⟩, resolve⟩
    exact ⟨body, inner, vars, bindings, ht, bound, ref, expand, resolve⟩

/-- The rules ask about parts on both sides, about the instance of one side and the other side, and
about the bodies of generics. -/
theorem within_opinion {a b : Ty}
    (parts : ∀ x ∈ a.kind.parts, ∀ y ∈ b.kind.parts, P x y ∧ P y x)
    (left : ∀ ref, a.Expands ref → Q ref ∧ ∀ s, resolve ref = .ok s → P s b)
    (right : ∀ ref, b.Expands ref → Q ref ∧ ∀ s, resolve ref = .ok s → P a s) :
    (opinion a b).Within resolve Q P := by
  rw [opinion]
  split <;> try exact within_pure _
  · rename_i fs gs ha hb
    simp only [ha, hb, Kind.parts, List.forall_mem_map] at parts
    refine (within_recordFits fun f hf g hg => (parts f hf g hg).1).bind fun _ => ?_
    exact (within_recordFits fun g hg f hf => (parts f hf g hg).2).bind fun _ => within_pure _
  · rename_i fs tags _ gs tags' _ ha hb
    simp only [ha, hb, Kind.parts, List.forall_mem_map] at parts
    split
    · exact (within_tagsFit parts).bind fun _ => within_pure _
    · exact within_pure _
  · rename_i e _ f _ ha hb
    simp only [ha, hb, Kind.parts, List.mem_singleton, forall_eq] at parts
    exact (within_relate.2 parts.1).map _
  · rename_i xs _ ys _ ha hb
    simp only [ha, hb, Kind.parts] at parts
    refine (within_covered fun x hx y hy => (parts x hx y hy).1).bind fun _ => ?_
    exact (within_covered fun y hy x hx => (parts x hx y hy).2).bind fun _ => within_pure _
  · rename_i xs ys ha hb
    simp only [ha, hb, Kind.parts] at parts
    split
    · exact (within_slotsRelate fun x hx y hy => (parts x hx y hy).1).map _
    · exact within_pure _
  · rename_i s t s' t' ha hb
    simp only [ha, hb, Kind.parts] at parts
    have sources : P s s' := (parts s (by simp) s' (by simp)).1
    have targets : P t t' := (parts t (by simp) t' (by simp)).1
    refine (within_relate.2 sources).bind fun _ => ?_
    split
    · exact (within_relate.2 targets).map _
    · exact within_pure _
  · rename_i body inner vars bindings ha
    split
    · rename_i bound
      refine Within.map (within_withInstance ?_) _
      intro ref expanded
      obtain ⟨allowed, instances⟩ := left ref ⟨body, inner, vars, bindings, ha, bound, expanded⟩
      exact ⟨allowed, fun s hs => within_relate.2 (instances s hs)⟩
    · refine Within.map ?_ _
      rw [openGeneric]
      split
      · rename_i body' inner' vars' bindings' hb
        split
        · rename_i bound
          refine within_withInstance ?_
          intro ref expanded
          obtain ⟨allowed, instances⟩ :=
            right ref ⟨body', inner', vars', bindings', hb, bound, expanded⟩
          exact ⟨allowed, fun s hs => within_relate.2 (instances s hs)⟩
        · split
          · simp only [ha, hb, Kind.parts] at parts
            exact within_relate.2 (parts inner List.mem_cons_self inner' List.mem_cons_self).1
          · exact within_pure _
      · exact within_pure _

theorem within_judge {a b : Ty}
    (parts : ∀ x ∈ a.kind.parts, ∀ y ∈ b.kind.parts, P x y ∧ P y x)
    (left : ∀ ref, a.Expands ref → Q ref ∧ ∀ s, resolve ref = .ok s → P s b ∧ P b s)
    (right : ∀ ref, b.Expands ref → Q ref ∧ ∀ s, resolve ref = .ok s → P a s ∧ P s a) :
    (judge a b).Within resolve Q P := by
  have forth : (opinion a b).Within resolve Q P :=
    within_opinion parts (fun ref h => ⟨(left ref h).1, fun s hs => ((left ref h).2 s hs).1⟩)
      fun ref h => ⟨(right ref h).1, fun s hs => ((right ref h).2 s hs).1⟩
  have back : (opinion b a).Within resolve Q P :=
    within_opinion (fun x hx y hy => (parts y hy x hx).symm)
      (fun ref h => ⟨(right ref h).1, fun s hs => ((right ref h).2 s hs).2⟩)
      fun ref h => ⟨(left ref h).1, fun s hs => ((left ref h).2 s hs).2⟩
  refine forth.bind fun first => ?_
  cases first with
  | some o => exact within_pure _
  | none =>
    refine back.bind fun second => ?_
    cases second <;> exact within_pure _

theorem asks_judge {a b : Ty}
    (parts : ∀ x ∈ a.kind.parts, ∀ y ∈ b.kind.parts, P x y ∧ P y x)
    (left : ∀ s, a.Unfolds o s → P s b ∧ P b s) (right : ∀ s, b.Unfolds o s → P a s ∧ P s a) :
    (judge a b).Asks o P := by
  have within : (judge a b).Within o.resolve (fun _ => True) P := by
    refine within_judge parts ?_ ?_
    · intro ref expands
      exact ⟨trivial, fun s hs => left s (unfolds_iff.2 ⟨ref, expands, hs⟩)⟩
    · intro ref expands
      exact ⟨trivial, fun s hs => right s (unfolds_iff.2 ⟨ref, expands, hs⟩)⟩
  exact within.asks

end Ty

namespace Registry

variable {r r' : Registry} {t s a b : Ty} {home : Nat}

/-! ## What weighs less -/

theorem Forms.weight_part_lt (h : r.Forms t) {p : Ty} (hp : p ∈ t.kind.parts) :
    p.ref.weight < t.ref.weight := by
  have listed : p.ref ∈ t.ref.types := h.parts_refs ▸ List.mem_map_of_mem hp
  cases hr : t.ref with
  | primitive id => simp [hr, TypeRef.types] at listed
  | constructed c types values =>
    rw [hr] at listed
    exact TypeRef.weight_argument_lt listed

/-- The reference to a generic is made of the body and the bindings. -/
theorem Forms.ref_of_generic (h : r.Forms t) {body : TypeRef} {inner : Ty} {vars : UInt32}
    {bindings : List (TypeRef × Ty)} (ht : t.kind = .generic body inner vars bindings) :
    ∃ values, t.ref = .constructed Core.generic (body :: bindings.map (·.1)) values := by
  have named := h.name_generic.1 (by rw [ht]; rfl)
  have parts := h.parts_refs
  have formed : Kind.GenericFormed body inner vars bindings := (ht ▸ h.kind :)
  rw [ht, Kind.parts, List.map_cons, formed.inner_ref, formed.refs_bound] at parts
  cases hr : t.ref with
  | primitive id => simp [hr, TypeRef.constructor?] at named
  | constructed c types values =>
    rw [hr] at named parts
    obtain rfl := Option.some.inj named
    exact ⟨values, by rw [parts, TypeRef.types]⟩

theorem Forms.weight_instance_lt (h : r'.Forms t) (hs : t.Unfolds r.oracle s) :
    s.ref.weight < t.ref.weight := by
  obtain ⟨body, inner, vars, bindings, ht, -, ref, expand, resolve⟩ := hs
  obtain ⟨values, whole⟩ := h.ref_of_generic ht
  rw [whole, ref_of_resolve resolve]
  exact TypeRef.weight_expand_lt expand values

theorem owns_of_unfolds (hs : t.Unfolds r.oracle s) : r.Owns s := by
  obtain ⟨-, -, -, -, -, -, ref, -, resolve⟩ := hs
  exact owns_of_resolve resolve

/-! ## Comparing types of core registries -/

section Formed

variable {left right : Registry} (ha : left.Forms a) (hb : right.Forms b)
include ha hb

/-- Comparing formed types asks for comparisons of lighter pairs only. -/
theorem Forms.asks_judge :
    (a.judge b).Asks r.oracle fun x y => x.pairWeight y < a.pairWeight b := by
  simp only [Ty.pairWeight]
  refine Ty.asks_judge ?_ ?_ ?_
  · intro x hx y hy
    have left := ha.weight_part_lt hx
    have right := hb.weight_part_lt hy
    omega
  · intro s hs
    have left := ha.weight_instance_lt hs
    omega
  · intro s hs
    have right := hb.weight_instance_lt hs
    omega

/-- The rules for formed types, whichever registries they come from, are asked of the answers of the
registry that compares. -/
theorem compare_formed :
    r.compare a b = (a.shortcut? b).getD ((a.judge b).answer r.oracle) := by
  rw [compare_eq]
  congr 1
  refine (Inquiry.answer_congr ?_ ?_ (ha.asks_judge hb)).symm
  · rfl
  · intro x y light
    rw [oracle_eq]
    exact (if_pos light).symm

end Formed

end Registry

end TypedTree
