import TypedTree.Proofs.Approximation
import TypedTree.Proofs.Covariance

/-!
# Types of other type systems

Two type systems give two types for one reference. They are *twins*: the same but for the type
system they belong to. A type is equivalent to itself at once, while the rules decide how it
compares to its twin. One would expect the same answer, and so the same answers for a type and its
twin wherever they occur.

Bound generics get in the way again. On the left they are replaced by their instance before the
right side is looked at, and if that leads to a variable or to a bound generic without an instance,
the right side is not replaced any more. Generics that this happens to are called *brittle*. They
are unrelated to their twins, although they are equivalent to themselves. Types that expose no
brittle generic compare to all others as their twins do, and for the rest the worst that happens is
that less is found out about a twin.

## Main definitions

* `Registry.twin`: the type of the same reference in another type system.
* `Ty.Brittle`: whether a bound generic comes to a variable or to no instance in the end.
* `Ty.Sturdy`: whether a type exposes none of these.
* `Registry.TwinApproximates`: whether no more is found out about a twin.

## Main statements

* `Registry.kind_twin`: the parts of a twin are the twins of the parts.
* `Registry.compare_twins`: it does not matter which type system is asked.
* `Registry.sturdy_of_scoped`: sealed types are sturdy.
* `Registry.approximates_twin`: what is found out about a twin.
* `Registry.compare_foreign`: the same for references, and what becomes of brittle generics.
-/

namespace TypedTree

open Relation

/-! ## Twins -/

theorem eq_map_of_forall₂ {α β : Type} {f : α → β} {as : List α} {bs : List β}
    (h : List.Forall₂ (fun a b => b = f a) as bs) : bs = as.map f := by
  induction h with
  | nil => rfl
  | cons first _ ih => rw [first, ih, List.map_cons]

namespace Kind

theorem mapParts_id (k : Kind Ty) : k.mapParts id = k := by
  cases k <;> simp [mapParts]

/-- Parts that correspond by a function which keeps references are mapped by it. -/
theorem Alike.eq_mapParts {f : Ty → Ty} {k k' : Kind Ty} (alike : k.Alike (fun x y => y = f x) k')
    (refs : ∀ t, (f t).ref = t.ref) (formed : k.Formed) (formed' : k'.Formed) :
    k' = k.mapParts f := by
  cases alike with
  | same none => cases k <;> simp_all [mapParts, parts]
  | record fields =>
    rw [mapParts, eq_map_of_forall₂ (fields.imp _)]
    rintro ⟨id, type, optional⟩ ⟨_, _, _⟩ ⟨rfl, rfl, rfl⟩
    rfl
  | variant fields =>
    rw [mapParts, eq_map_of_forall₂ (fields.imp _)]
    rintro ⟨id, type⟩ ⟨_, _⟩ ⟨rfl, rfl⟩
    rfl
  | array element => rw [element, mapParts]
  | sum summands => rw [mapParts, eq_map_of_forall₂ summands]
  | tuple slots => rw [mapParts, eq_map_of_forall₂ slots]
  | @generic _ _ _ _ _ bs cs inner bindings =>
    obtain ⟨rfl, named, -, -⟩ := formed
    obtain ⟨rfl, named', -, -⟩ := formed'
    have bound : List.Forall₂ (fun b c => c = (b.1, f b.2)) bs cs := by
      induction bindings with
      | nil => exact .nil
      | @cons b c _ _ first _ ih =>
        rw [List.forall_mem_cons] at named named'
        refine .cons (Prod.ext ?_ first) (ih named.2 named'.2)
        rw [← named'.1, first, refs, named.1]
    rw [mapParts, inner, refs, eq_map_of_forall₂ bound]
  | map source target => rw [source, target, mapParts]

end Kind

namespace Registry

variable {r : Registry} {home home' : Nat} {a b e p s t : Ty}

/-- The type that a type system gives for the reference of a type. -/
def twin (r : Registry) (t : Ty) : Ty :=
  (r.resolve t.ref).toOption.getD t

theorem twin_of_resolve (h : r.resolve t.ref = .ok s) : r.twin t = s := by
  rw [twin, h]
  rfl

@[simp] theorem ref_twin (t : Ty) : (r.twin t).ref = t.ref := by
  cases h : r.resolve t.ref with
  | error e => rw [twin, h]; rfl
  | ok s => rw [twin_of_resolve h, ref_of_resolve h]

theorem owns_twin (home' : Nat) (hb : (core home).Owns b) :
    (core home').Owns ((core home').twin b) := by
  have resolves : (core home').Resolves b.ref := Resolves.elsewhere ⟨b, hb⟩
  obtain ⟨b', hb'⟩ := resolves
  rw [twin_of_resolve hb']
  exact owns_of_resolve hb'

/-- The parts of a twin are the twins of the parts. -/
theorem kind_twin (home' : Nat) (hb : (core home).Owns b) :
    ((core home').twin b).kind = b.kind.mapParts (core home').twin := by
  have hb' := owns_twin home' hb
  have own := hb'
  rw [Owns, ref_twin] at own
  refine Kind.Alike.eq_mapParts ?_ ref_twin (forms_of_owns hb).kind (forms_of_owns hb').kind
  rw [Owns] at hb
  cases hr : b.ref with
  | primitive id =>
    rw [hr] at hb own
    obtain ⟨p, hp, made⟩ := resolve_primitive_eq_ok.1 hb
    obtain ⟨p', hp', made'⟩ := resolve_primitive_eq_ok.1 own
    obtain rfl := Option.some.inj (hp.symm.trans hp')
    rw [← made', ← made]
    refine .same ?_
    rw [primitiveType, Kind.parts_mapParts, List.map_eq_nil_iff]
    exact List.eq_nil_iff_forall_not_mem.2 fun x => x.elim
  | constructed c types values =>
    rw [hr] at hb own
    refine alike_of_resolve hb own (List.forall₂_same.2 fun x _ s t hs ht => ?_)
    rw [twin_of_resolve (ref_of_resolve hs ▸ ht)]

/-! ## Comparing in another type system -/

theorem twin_inj (ha : (core home).Owns a) (hb : (core home).Owns b) :
    (core home').twin a = (core home').twin b ↔ a = b := by
  refine ⟨fun same => eq_of_ref ha hb ?_, fun same => same ▸ rfl⟩
  rw [← ref_twin (r := core home') a, same, ref_twin]

/-- The instance of a twin is the twin of the instance. -/
theorem eq_twin_of_unfolds {s' : Ty} (ha : (core home).Owns a)
    (hs : a.Unfolds (core home).oracle s)
    (hs' : ((core home').twin a).Unfolds (core home').oracle s') : s' = (core home').twin s := by
  obtain ⟨ref, expands, resolve⟩ := Ty.unfolds_iff.1 hs
  obtain ⟨ref', expands', resolve'⟩ :=
    Ty.unfolds_iff.1 ((Ty.unfolds_mapParts (kind_twin home' ha)).1 hs')
  obtain ⟨body, _, vars, bindings, ka, -, expand⟩ := expands
  obtain ⟨_, _, _, _, ka', -, expand'⟩ := expands'
  obtain ⟨rfl, -, rfl, rfl⟩ := Kind.generic.inj (ka.symm.trans ka')
  obtain rfl := Except.ok.inj (expand.symm.trans expand')
  exact (twin_of_resolve (ref_of_resolve resolve ▸ resolve')).symm

/-- Opinions are the same in another type system if lighter types compare alike. -/
theorem opinions_twins (ha : (core home).Owns a) (hb : (core home).Owns b)
    (law : ∀ x y, (core home).Owns x → (core home).Owns y → x.pairWeight y < a.pairWeight b →
      (core home').compare ((core home').twin x) ((core home').twin y) =
        (core home).compare x y) :
    Ty.OpinionsApproximate (core home').oracle (core home).oracle True
      ((core home').twin a) ((core home').twin b) a b := by
  have fa := forms_of_owns ha
  have fb := forms_of_owns hb
  simp only [Ty.pairWeight] at law
  have alike {x y : Ty} (hx : (core home).Owns x) (hy : (core home).Owns y)
      (lighter : x.ref.weight + y.ref.weight < a.ref.weight + b.ref.weight) :
      ((core home').compare ((core home').twin x) ((core home').twin y)).Approximates True
        ((core home).compare x y) := by
    rw [law x y hx hy lighter]
    exact Inclusion.approximates_refl (compare_ne_disjoint hx hy)
  have same (ref : TypeRef) : (∃ s, (core home').oracle.resolve ref = .ok s) ↔
      ∃ s, (core home).oracle.resolve ref = .ok s :=
    ⟨Resolves.elsewhere, Resolves.elsewhere⟩
  refine Ty.opinionsApproximate (kind_twin home' ha) (kind_twin home' hb) ?_ same ?_ ?_ <;>
    simp only [oracle_compare]
  · intro _ _ x hx y hy
    have ox := fa.owns_parts x hx
    have oy := fb.owns_parts y hy
    have lighter := Nat.add_lt_add (fa.weight_part_lt hx) (fb.weight_part_lt hy)
    exact ⟨alike ox oy lighter, alike oy ox (Nat.add_comm y.ref.weight _ ▸ lighter)⟩
  · intro s s' hs hs'
    rw [eq_twin_of_unfolds ha hs hs']
    exact alike (owns_of_unfolds hs) hb (Nat.add_lt_add_right (fa.weight_instance_lt hs) _)
  · intro t t' ht ht'
    rw [eq_twin_of_unfolds hb ht ht']
    exact alike ha (owns_of_unfolds ht) (Nat.add_lt_add_left (fb.weight_instance_lt ht) _)

/-- Two types compare as their twins do where these belong. So it does not matter which type system
is asked. -/
theorem compare_twins (home' : Nat) (ha : (core home).Owns a) (hb : (core home).Owns b) :
    (core home').compare ((core home').twin a) ((core home').twin b) =
      (core home).compare a b := by
  induction hn : a.pairWeight b using Nat.strongRecOn generalizing a b with
  | ind n ih =>
    subst hn
    have ha' := owns_twin home' ha
    have hb' := owns_twin home' hb
    by_cases same : a = b
    · rw [same, compare_self hb, compare_self hb']
    · rw [compare_of_ne ha hb same, compare_of_ne ha' hb' (mt (twin_inj ha hb).1 same)]
      have turned : b.pairWeight a = a.pairWeight b := Nat.add_comm _ _
      have forth := opinions_twins ha hb fun x y hx hy lighter => ih _ lighter hx hy rfl
      have back := opinions_twins hb ha fun x y hx hy lighter => ih _ (turned ▸ lighter) hx hy rfl
      exact (Ty.approximates_judge forth back).same trivial

end Registry

/-! ## Brittle generics -/

namespace Ty

variable (o : Oracle)

/-- Whether a bound generic unfolds to a variable or to a bound generic without an instance, or has
no instance itself. -/
def Brittle (t : Ty) : Prop :=
  t.IsBound ∧ ∃ e, t.Ends o e ∧ e.IsSoft o

/-- Whether a type shows another one as it stands: a part of a plain type, or the body of a generic
with nothing bound. -/
def Exposes (t s : Ty) : Prop :=
  ¬ t.IsBound ∧ s ∈ t.kind.parts

/-- Whether a type exposes no brittle generic. -/
def Sturdy (t : Ty) : Prop :=
  ∀ s, ReflTransGen Exposes t s → ¬ s.Brittle o

variable {o} {t s : Ty}

theorem Sturdy.not_brittle (h : t.Sturdy o) : ¬ t.Brittle o :=
  h t .refl

theorem Sturdy.of_exposes (h : t.Sturdy o) (hs : t.Exposes s) : s.Sturdy o := fun u path =>
  h u (.head hs path)

end Ty

namespace Registry

variable {home home' : Nat} {a b e s t : Ty}

/-- A sealed type exposes no brittle generic. -/
theorem sturdy_of_scoped (h : (core home).Owns t) (closed : t.ref.Scoped []) :
    t.Sturdy (core home).oracle := by
  rintro s path ⟨-, e, ⟨chain, final⟩, soft⟩
  have exposed : ReflTransGen (Ty.Reaches (core home).oracle) t s :=
    ReflTransGen.mono (fun _ _ => .inl) _ _ path
  have unfolded : ReflTransGen (Ty.Reaches (core home).oracle) s e :=
    ReflTransGen.mono (fun _ _ => .inr) _ _ chain
  obtain ⟨own, closed⟩ := scoped_of_path h closed (exposed.trans unfolded)
  obtain ⟨u, hu, -⟩ | plain := unfolds_or_isPlain own closed
  · exact final u hu
  · exact Ty.IsSolid.not_isSoft (.inr plain) soft

/-- The rules find a type equivalent to itself, unless it is brittle. -/
theorem judge_self (ha : (core home).Owns a) (whole : ¬ a.Brittle (core home).oracle) :
    (a.judge a).answer (core home).oracle = .equivalent := by
  have forms := forms_of_owns ha
  obtain ⟨s, hs⟩ | stuck | opened | ⟨v, ka⟩ | plain := a.sorts (core home).oracle
  · obtain ⟨e, chain, final⟩ := exists_ends (owns_of_unfolds hs)
    have ends : a.Ends (core home).oracle e := ⟨.head hs chain, final⟩
    have solid := ends.isSoft_or_isSolid.resolve_left fun soft => whole ⟨hs.isBound, e, ends, soft⟩
    rw [Ty.answer_judge_of_some (Ty.answer_opinion_unfold hs), oracle_compare,
      compare_of_not_chain (owns_of_unfolds hs) ha chain (not_chain_back ha hs .refl)]
    exact compare_solid_back ha ends solid
  · exact absurd ⟨stuck.1, a, ⟨.refl, stuck.2⟩, .inr stuck⟩ whole
  · obtain ⟨_, inner, vars, _, ka, unbound⟩ := opened
    have own : (core home).Owns inner := forms.owns_parts inner (by simp [ka, Kind.parts])
    rw [Ty.answer_judge_of_some (Ty.answer_opinion_open_open ka unbound ka unbound), if_pos rfl,
      oracle_compare, compare_self own]
  · rw [Ty.answer_judge_of_some (Ty.answer_opinion_var_var ka ka), if_pos rfl]
  · have below : ((a.judge a).answer (core home).oracle).isSubtype = true :=
      (Ty.isSubtype_judge plain plain).2
        (Kind.under_self forms.kind plain fun p hp => below_self (forms.owns_parts p hp))
    have law : ∀ x y, a.Leads (core home).oracle x → a.Leads (core home).oracle y →
        Inclusion.Mirrors True ((core home).compare x y) ((core home).compare y x) := by
      intro x y hx hy
      exact (mirrors_compare (owns_of_leads ha hx) (owns_of_leads ha hy)).imp fun _ => trivial
    have same := (mirrors_judge ha ha plain plain law).eq_reverse_iff.2 Iff.rfl
    generalize (a.judge a).answer (core home).oracle = x at below same
    cases x <;> simp_all [Inclusion.reverse, Inclusion.isSubtype]

/-! ## Comparing twins -/

/-- A type compares to those of another type system as the rules say. -/
theorem compare_twin (apart : home ≠ home') (ha : (core home).Owns a) (hb : (core home).Owns b) :
    (core home).compare a ((core home').twin b) =
        (a.judge ((core home').twin b)).answer (core home).oracle ∧
      (core home).compare ((core home').twin b) a =
        (((core home').twin b).judge a).answer (core home).oracle := by
  have hb' := owns_twin home' hb
  have away : a.home ≠ ((core home').twin b).home := by
    rw [home_of_owns ha, home_of_owns hb']
    exact apart
  constructor
  · refine compare_of_apart (forms_of_owns ha) (forms_of_owns hb') ?_
    simp [Ty.sameInstance, away]
  · refine compare_of_apart (forms_of_owns hb') (forms_of_owns ha) ?_
    simp [Ty.sameInstance, away.symm]

/-- Whether no more is found out about the twin of a type than about the type, in both directions,
and the same if `exact`. -/
def TwinApproximates (home home' : Nat) (exact : Prop) (a b : Ty) : Prop :=
  ((core home).compare a ((core home').twin b)).Approximates exact ((core home).compare a b) ∧
    ((core home).compare ((core home').twin b) a).Approximates exact ((core home).compare b a)

theorem TwinApproximates.imp {exact exact' : Prop} (h : TwinApproximates home home' exact a b)
    (less : exact' → exact) : TwinApproximates home home' exact' a b :=
  ⟨h.1.imp less, h.2.imp less⟩

/-- The rules find out no more about a twin if no more is found out about the twins of the parts,
and about the twin when it is compared to instances. -/
theorem judges_twin {exact : Prop} (ha : (core home).Owns a) (hb : (core home).Owns b)
    (parts : ¬ b.IsBound → ∀ x ∈ a.kind.parts, ∀ y ∈ b.kind.parts,
      TwinApproximates home home' exact x y)
    (instances : ∀ s, a.Unfolds (core home).oracle s → TwinApproximates home home' exact s b) :
    ((a.judge ((core home').twin b)).answer (core home).oracle).Approximates exact
        ((a.judge b).answer (core home).oracle) ∧
      ((((core home').twin b).judge a).answer (core home).oracle).Approximates exact
        ((b.judge a).answer (core home).oracle) := by
  -- the instance of a twin belongs to the type system that compares
  have own (t t' : Ty) (ht : b.Unfolds (core home).oracle t)
      (ht' : ((core home').twin b).Unfolds (core home).oracle t') :
      ((core home).compare a t').Approximates exact ((core home).compare a t) ∧
        ((core home).compare t' a).Approximates exact ((core home).compare t a) := by
    obtain rfl := ht.unique ((Ty.unfolds_mapParts (kind_twin home' hb)).1 ht')
    exact ⟨Inclusion.approximates_refl (compare_ne_disjoint ha (owns_of_unfolds ht)),
      Inclusion.approximates_refl (compare_ne_disjoint (owns_of_unfolds ht) ha)⟩
  have ka : a.kind = a.kind.mapParts id := (Kind.mapParts_id a.kind).symm
  have forth : Ty.OpinionsApproximate (core home).oracle (core home).oracle exact
      a ((core home').twin b) a b := by
    refine Ty.opinionsApproximate ka (kind_twin home' hb) ?_ (fun _ => Iff.rfl) ?_ ?_ <;>
      simp only [oracle_compare]
    · exact fun _ unbound x hx y hy => parts unbound x hx y hy
    · exact fun s s' hs hs' => hs.unique hs' ▸ (instances s hs).1
    · exact fun t t' ht ht' => (own t t' ht ht').1
  have back : Ty.OpinionsApproximate (core home).oracle (core home).oracle exact
      ((core home').twin b) a b a := by
    refine Ty.opinionsApproximate (kind_twin home' hb) ka ?_ (fun _ => Iff.rfl) ?_ ?_ <;>
      simp only [oracle_compare]
    · exact fun unbound _ y hy x hx => (parts unbound x hx y hy).symm
    · exact fun t t' ht ht' => (own t t' ht ht').2
    · exact fun s s' hs hs' => hs.unique hs' ▸ (instances s hs).2
  exact ⟨Ty.approximates_judge forth back, Ty.approximates_judge back forth⟩

/-- About a twin no more is found out than about the type itself, and the same if the type is
sturdy. -/
theorem approximates_twin (apart : home ≠ home') (ha : (core home).Owns a)
    (hb : (core home).Owns b) :
    TwinApproximates home home' (b.Sturdy (core home).oracle) a b := by
  induction hn : a.pairWeight b using Nat.strongRecOn generalizing a b with
  | ind n ih =>
    subst hn
    have fa := forms_of_owns ha
    have fb := forms_of_owns hb
    have parts : ¬ b.IsBound → ∀ x ∈ a.kind.parts, ∀ y ∈ b.kind.parts,
        TwinApproximates home home' (b.Sturdy (core home).oracle) x y := by
      intro unbound x hx y hy
      have lighter : x.pairWeight y < a.pairWeight b := by
        have left := fa.weight_part_lt hx
        have right := fb.weight_part_lt hy
        simp only [Ty.pairWeight]
        omega
      have law := ih _ lighter (fa.owns_parts x hx) (fb.owns_parts y hy) rfl
      exact law.imp fun sturdy => sturdy.of_exposes ⟨unbound, hy⟩
    have instances : ∀ s, a.Unfolds (core home).oracle s →
        TwinApproximates home home' (b.Sturdy (core home).oracle) s b := by
      intro s hs
      have lighter : s.pairWeight b < a.pairWeight b := by
        have left := fa.weight_instance_lt hs
        simp only [Ty.pairWeight]
        omega
      exact ih _ lighter (owns_of_unfolds hs) hb rfl
    obtain ⟨forth, back⟩ := judges_twin ha hb parts instances
    obtain ⟨foreign, foreign'⟩ := compare_twin apart ha hb
    rw [TwinApproximates, foreign, foreign']
    by_cases same : a = b
    · -- the shortcut answers for the type, and the rules find the same if it is not brittle
      subst same
      have self (sturdy : a.Sturdy (core home).oracle) := judge_self ha sturdy.not_brittle
      rw [compare_self ha]
      constructor
      · refine Inclusion.approximates_equivalent forth.proper ?_
        intro sturdy
        rw [forth.same sturdy, self sturdy]
      · refine Inclusion.approximates_equivalent back.proper ?_
        intro sturdy
        rw [back.same sturdy, self sturdy]
    · rw [compare_of_ne ha hb same, compare_of_ne hb ha (Ne.symm same)]
      exact ⟨forth, back⟩

/-- What unfolds to a soft type is unrelated to bound generics of other type systems. -/
theorem compare_twin_of_ends (apart : home ≠ home') (ha : (core home).Owns a)
    (ends : a.Ends (core home).oracle e) (soft : e.IsSoft (core home).oracle)
    (hb : (core home).Owns b) (bound : b.IsBound) :
    (core home).compare a ((core home').twin b) = .unrelated := by
  obtain ⟨chain, -⟩ := ends
  induction chain using ReflTransGen.head_induction_on with
  | refl =>
    rw [(compare_twin apart ha hb).1]
    obtain var | stuck := soft
    · have bound' := (Ty.isBound_mapParts (kind_twin home' hb)).2 bound
      exact Ty.answer_judge_of_some (Ty.answer_opinion_var var bound'.not_isVar)
    · exact Ty.answer_judge_of_some (Ty.answer_opinion_stuck stuck)
  | head hs _ ih =>
    rw [(compare_twin apart ha hb).1, Ty.answer_judge_of_some (Ty.answer_opinion_unfold hs),
      oracle_compare]
    exact ih (owns_of_unfolds hs)

/-- The types of two references compare as they do if the second is resolved in another type system,
or less is found out. The latter needs a reference that exposes a brittle generic, and a brittle
generic is unrelated to its twin. -/
theorem compare_foreign {x y : TypeRef} {b' : Ty} (apart : home ≠ home')
    (ha : (core home).resolve x = .ok a) (hb : (core home).resolve y = .ok b)
    (hb' : (core home').resolve y = .ok b') :
    ((core home).compare a b').Approximates (b.Sturdy (core home).oracle)
        ((core home).compare a b) ∧
      ((core home).compare b' a).Approximates (b.Sturdy (core home).oracle)
        ((core home).compare b a) ∧
      (b.Sturdy (core home).oracle → (core home).compare b b' = .equivalent) ∧
      (b.Brittle (core home).oracle → (core home).compare b b' = .unrelated) := by
  have own := owns_of_resolve hb
  obtain rfl := twin_of_resolve (ref_of_resolve hb ▸ hb')
  obtain ⟨forth, back⟩ := approximates_twin apart (owns_of_resolve ha) own
  refine ⟨forth, back, ?_, ?_⟩
  · intro sturdy
    rw [(approximates_twin apart own own).1.same sturdy, compare_self own]
  · rintro ⟨bound, e, ends, soft⟩
    exact compare_twin_of_ends apart own ends soft own bound

/-- Lists of integers, one of them with a sealed generic in the place of the element. -/
theorem compare_foreign_lists :
    let x : TypeRef := .list (.intRange 0 3)
    let y : TypeRef := .list (.genericBound (.var 0 0) 1 [.int])
    ∃ a b b', (core 0).resolve x = .ok a ∧ (core 0).resolve y = .ok b ∧
      (core 1).resolve y = .ok b' ∧ (core 0).compare a b' = (core 0).compare a b ∧
        (core 0).compare b' a = (core 0).compare b a ∧ (core 0).compare b b' = .equivalent := by
  intro x y
  obtain ⟨a, ha⟩ : ∃ a, (core 0).resolve x = .ok a := ⟨_, rfl⟩
  obtain ⟨b, hb⟩ : ∃ b, (core 0).resolve y = .ok b := ⟨_, rfl⟩
  obtain ⟨b', hb'⟩ : ∃ b', (core 1).resolve y = .ok b' := ⟨_, rfl⟩
  have sealed : (core 0).Sealed y := sealed_of_resolve hb (by cases hb; rfl) rfl
  have sturdy : b.Sturdy (core 0).oracle :=
    sturdy_of_scoped (owns_of_resolve hb) (ref_of_resolve hb ▸ sealed.closed)
  obtain ⟨forth, back, self, -⟩ := compare_foreign (by decide) ha hb hb'
  exact ⟨a, b, b', ha, hb, hb', forth.same sturdy, back.same sturdy, self sturdy⟩

/-- A generic whose body is a bound one that unfolds to the variable of the first. -/
theorem foreign_unrelated :
    let inner : TypeRef := .genericBound (.var 0 0) 1 [.var 0 0]
    let y : TypeRef := .generic inner 1
    ∃ b b', (core 0).resolve y = .ok b ∧ (core 1).resolve y = .ok b' ∧ b.freeDepth = none ∧
      (core 0).compare b b = .equivalent ∧ (core 0).compare b b' = .unrelated := by
  intro inner y
  obtain ⟨g, v, b, hg, kb, unfolds, var, hb, closed⟩ : ∃ g v b, (core 0).resolve inner = .ok g ∧
      b.kind = .generic inner g 1 [] ∧ g.Unfolds (core 0).oracle v ∧ v.IsVar ∧
        (core 0).resolve y = .ok b ∧ b.freeDepth = none :=
    ⟨_, _, _, rfl, rfl, ⟨_, _, _, _, rfl, rfl, .var 0 0, rfl, rfl⟩, ⟨_, rfl⟩, rfl, rfl⟩
  obtain ⟨b', hb'⟩ : ∃ b', (core 1).resolve y = .ok b' := ⟨_, rfl⟩
  have own := owns_of_resolve hb
  have own' := owns_of_resolve hg
  have ends : g.Ends (core 0).oracle v :=
    ⟨.single unfolds, fun s hs => hs.isBound.not_isVar var⟩
  have bodies : (core 0).compare g ((core 1).twin g) = .unrelated :=
    compare_twin_of_ends (by decide) own' ends (.inl var) own' unfolds.isBound
  have kb' : ((core 1).twin b).kind = .generic inner ((core 1).twin g) 1 [] := by
    rw [kind_twin 1 own, kb]
    rfl
  refine ⟨b, b', hb, hb', closed, compare_self own, ?_⟩
  obtain rfl := twin_of_resolve (ref_of_resolve hb ▸ hb')
  rw [(compare_twin (by decide) own own).1,
    Ty.answer_judge_of_some (Ty.answer_opinion_open_open kb rfl kb' rfl), if_pos rfl,
    oracle_compare, bodies]

end Registry

end TypedTree
