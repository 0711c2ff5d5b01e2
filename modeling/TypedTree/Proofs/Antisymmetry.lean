import TypedTree.Proofs.Mirroring
import Mathlib.Logic.Relation

/-!
# Comparing in the other direction

One would expect the comparison of two types, taken in the other direction, to be the reverse. Bound
generics get in the way: on the left they are replaced by their instance before the right side is
looked at, but a variable on the left is compared as it stands, and so is a bound generic without an
instance. A type that unfolds to one of these is equivalent to it in one direction and unrelated in
the other.

Types from which no such generic can be reached are called *steady*. The reverse law holds among
steady types. For all others the worst that happens is that one direction finds no relation.

## Main definitions

* `Ty.Ends`: the type that a chain of unfoldings ends at.
* `Ty.Crumbles`: whether a type unfolds to a variable or to a bound generic without an instance.
* `Ty.Steady`: whether a type leads to none that crumbles.

## Main statements

* `Registry.mirrors_compare`: what the two directions of a comparison come to.
* `Registry.compare_reverse`: the reverse law for steady types.
-/

namespace TypedTree

open Relation

namespace Ty

variable (o : Oracle)

/-- Whether a chain of unfoldings leads from one type to another and ends there. -/
def Ends (t e : Ty) : Prop :=
  ReflTransGen (Unfolds o) t e ∧ ∀ s, ¬ e.Unfolds o s

/-- Whether a type is a variable or a bound generic without an instance. -/
def IsSoft (t : Ty) : Prop :=
  t.IsVar ∨ t.Stuck o

/-- Whether a type is a generic with nothing bound or a plain type. -/
def IsSolid (t : Ty) : Prop :=
  t.IsOpen ∨ t.IsPlain

/-- Whether a bound generic has a variable or a bound generic without an instance as its
instance. -/
def Crumbles (t : Ty) : Prop :=
  ∃ s, t.Unfolds o s ∧ s.IsSoft o

/-- Whether a type leads to none that crumbles. -/
def Steady (t : Ty) : Prop :=
  ∀ s, ReflTransGen (Leads o) t s → ¬ s.Crumbles o

variable {o} {a b e f s t : Ty}

theorem Ends.isSoft_or_isSolid (h : t.Ends o e) : e.IsSoft o ∨ e.IsSolid := by
  obtain ⟨s, hs⟩ | stuck | opened | var | plain := e.sorts o
  · exact absurd hs (h.2 s)
  · exact .inl (.inr stuck)
  · exact .inr (.inl opened)
  · exact .inl (.inl var)
  · exact .inr (.inr plain)

theorem IsSolid.not_isVar (h : t.IsSolid) : ¬ t.IsVar :=
  h.elim IsOpen.not_isVar fun plain var => var.not_isPlain plain

theorem IsSolid.not_isSoft (h : t.IsSolid) : ¬ t.IsSoft o := by
  rintro (var | stuck)
  · exact h.not_isVar var
  · exact h.elim stuck.1.not_isOpen stuck.1.not_isPlain

theorem Ends.unique (he : t.Ends o e) (hf : t.Ends o f) : e = f := by
  have only : Relator.RightUnique (Unfolds o) := by
    intro _ _ _ h h'
    exact h.unique h'
  rcases he.1.total_of_right_unique only hf.1 with h | h
  · exact (h.cases_head.resolve_right fun ⟨s, hs, _⟩ => he.2 s hs)
  · exact (h.cases_head.resolve_right fun ⟨s, hs, _⟩ => hf.2 s hs).symm

theorem Ends.eq_self (h : t.Ends o e) (final : ∀ s, ¬ t.Unfolds o s) : e = t :=
  h.unique ⟨.refl, final⟩

/-- What a type leads to is a part or an unfolding. -/
theorem Leads.mem_parts_or_unfolds (h : t.Leads o s) : s ∈ t.kind.parts ∨ t.Unfolds o s := by
  cases h with
  | element ht => simp [ht, Kind.parts]
  | slot ht hs => simp [ht, Kind.parts, hs]
  | source ht => simp [ht, Kind.parts]
  | target ht => simp [ht, Kind.parts]
  | body ht _ => simp [ht, Kind.parts]
  | unfold hs => exact .inr hs

/-- What does not end at itself is a bound generic. -/
theorem Ends.isBound (h : t.Ends o e) (hne : t ≠ e) : t.IsBound := by
  obtain rfl | ⟨s, hs, -⟩ := h.1.cases_head
  · exact absurd rfl hne
  · exact hs.isBound

/-- A bound generic leads to its instance only. -/
theorem Unfolds.eq_of_leads (hs : t.Unfolds o s) (h : t.Leads o e) : e = s := by
  have ⟨_, _, _, _, kt, bound, _⟩ := hs
  cases h with
  | unfold he => exact he.unique hs
  | body ht unbound =>
    obtain ⟨rfl, rfl, rfl, rfl⟩ := Kind.generic.inj (kt.symm.trans ht)
    simp [bound] at unbound
  | slot ht => simp [kt] at ht
  | element ht | source ht | target ht => simp [kt] at ht

theorem Steady.of_leads (h : t.Steady o) (hs : t.Leads o s) : s.Steady o := fun u hu =>
  h u (.head hs hu)

theorem Steady.of_unfolds (h : t.Steady o) (hs : ReflTransGen (Unfolds o) t s) : s.Steady o := by
  induction hs with
  | refl => exact h
  | tail _ next ih => exact ih.of_leads (.unfold next)

theorem exists_leads_of_not_steady (h : ¬ t.Steady o) (whole : ¬ t.Crumbles o) :
    ∃ s, t.Leads o s ∧ ¬ s.Steady o := by
  by_contra none
  refine h ?_
  intro u path
  obtain rfl | ⟨s, hs, rest⟩ := path.cases_head
  · exact whole
  · intro crumbles
    exact none ⟨s, hs, fun steady => steady u rest crumbles⟩

/-- A chain of unfoldings that ends at a soft type crumbles on the way. -/
theorem not_steady_of_ends (h : t.Ends o e) (soft : e.IsSoft o) (hne : t ≠ e) : ¬ t.Steady o := by
  obtain rfl | ⟨s, hs, last⟩ := h.1.cases_tail
  · exact absurd rfl hne
  · intro steady
    exact steady.of_unfolds hs s .refl ⟨e, last, soft⟩

theorem IsSoft.not_unfolds (soft : t.IsSoft o) : ∀ s, ¬ t.Unfolds o s := by
  rintro s hs
  obtain var | stuck := soft
  · exact hs.isBound.not_isVar var
  · exact stuck.2 s hs

/-- A chain of unfoldings that ends at a steady solid type does not crumble. -/
theorem steady_of_ends (h : t.Ends o e) (solid : e.IsSolid) (steady : e.Steady o) :
    t.Steady o := by
  obtain ⟨chain, final⟩ := h
  induction chain using ReflTransGen.head_induction_on with
  | refl => exact steady
  | @head t s hs rest ih =>
    intro u path
    obtain rfl | ⟨x, hx, path⟩ := path.cases_head
    · rintro ⟨s', hs', soft⟩
      obtain rfl := hs.unique hs'
      obtain rfl := Ends.eq_self ⟨rest, final⟩ soft.not_unfolds
      exact solid.not_isSoft soft
    · obtain rfl := hs.eq_of_leads hx
      exact ih u path

end Ty

namespace Registry

variable {home : Nat} {a b e f s t : Ty}

/-! ## Chains of unfoldings -/

theorem owns_of_chain {r : Registry} (h : ReflTransGen (Ty.Unfolds r.oracle) a b)
    (ha : r.Owns a) : r.Owns b := by
  induction h with
  | refl => exact ha
  | tail _ next _ => exact owns_of_unfolds next

/-- An unfolding makes a type of the core registry lighter. -/
theorem weight_unfolds_lt (ha : (core home).Owns a) (hs : a.Unfolds (core home).oracle s) :
    s.ref.weight < a.ref.weight :=
  (forms_of_owns ha).weight_instance_lt hs

theorem owns_of_leads (ha : (core home).Owns a) (hs : a.Leads (core home).oracle s) :
    (core home).Owns s :=
  hs.mem_parts_or_unfolds.elim ((forms_of_owns ha).owns_parts s) owns_of_unfolds

/-- What a comparison goes on with is lighter. -/
theorem weight_leads_lt (ha : (core home).Owns a) (hs : a.Leads (core home).oracle s) :
    s.ref.weight < a.ref.weight :=
  hs.mem_parts_or_unfolds.elim (forms_of_owns ha).weight_part_lt (weight_unfolds_lt ha)

theorem weight_chain_le (ha : (core home).Owns a)
    (h : ReflTransGen (Ty.Unfolds (core home).oracle) a b) : b.ref.weight ≤ a.ref.weight := by
  induction h with
  | refl => exact Nat.le_refl _
  | tail chain next ih =>
    have lighter := weight_unfolds_lt (owns_of_chain chain ha) next
    omega

/-- Unfolding comes to an end. -/
theorem exists_ends (ha : (core home).Owns a) : ∃ e, a.Ends (core home).oracle e := by
  induction hn : a.ref.weight using Nat.strongRecOn generalizing a with
  | ind n ih =>
    subst hn
    by_cases unfolds : ∃ s, a.Unfolds (core home).oracle s
    · obtain ⟨s, hs⟩ := unfolds
      obtain ⟨e, he⟩ := ih _ (weight_unfolds_lt ha hs) (owns_of_unfolds hs) rfl
      exact ⟨e, .head hs he.1, he.2⟩
    · exact ⟨a, .refl, fun s hs => unfolds ⟨s, hs⟩⟩

/-- A chain of unfoldings does not return. -/
theorem not_chain_back (ha : (core home).Owns a) (hs : a.Unfolds (core home).oracle s)
    (h : ReflTransGen (Ty.Unfolds (core home).oracle) s b) :
    ¬ ReflTransGen (Ty.Unfolds (core home).oracle) b a := by
  intro back
  have lighter := weight_unfolds_lt ha hs
  have forth := weight_chain_le (owns_of_unfolds hs) h
  have back := weight_chain_le (owns_of_chain h (owns_of_unfolds hs)) back
  omega

/-- A bound generic is equivalent to all that it unfolds to. -/
theorem compare_of_chain (ha : (core home).Owns a)
    (h : ReflTransGen (Ty.Unfolds (core home).oracle) a b) :
    (core home).compare a b = .equivalent := by
  have hb := owns_of_chain h ha
  induction h using ReflTransGen.head_induction_on with
  | refl => exact compare_self ha
  | @head a s hs _ ih =>
    by_cases same : a = b
    · rw [same, compare_self hb]
    · rw [compare_unfold ha hb same hs, ih (owns_of_unfolds hs)]

/-- A type compares as what it unfolds to, unless the other type comes in between. -/
theorem compare_of_not_chain (ha : (core home).Owns a) (hb : (core home).Owns b)
    (he : ReflTransGen (Ty.Unfolds (core home).oracle) a e)
    (h : ¬ ReflTransGen (Ty.Unfolds (core home).oracle) a b) :
    (core home).compare a b = (core home).compare e b := by
  induction he using ReflTransGen.head_induction_on with
  | refl => rfl
  | @head a s hs _ ih =>
    have other : a ≠ b := by
      intro same
      exact h (same ▸ .refl)
    rw [compare_unfold ha hb other hs, ih (owns_of_unfolds hs) fun back => h (.head hs back)]

/-- A type compares to one that does not unfold as its end does. -/
theorem compare_ends (ha : (core home).Owns a) (hb : (core home).Owns b)
    (he : a.Ends (core home).oracle e) (final : ∀ s, ¬ b.Unfolds (core home).oracle s) :
    (core home).compare a b = (core home).compare e b := by
  by_cases h : ReflTransGen (Ty.Unfolds (core home).oracle) a b
  · obtain rfl := he.unique ⟨h, final⟩
    rw [compare_of_chain ha h, compare_self hb]
  · exact compare_of_not_chain ha hb he.1 h

/-- A generic with nothing bound compares to the end of the other type. -/
theorem compare_open_ends (ha : (core home).Owns a) (opened : a.IsOpen) (hb : (core home).Owns b)
    (hf : ReflTransGen (Ty.Unfolds (core home).oracle) b f) :
    (core home).compare a b = (core home).compare a f := by
  induction hf using ReflTransGen.head_induction_on with
  | refl => rfl
  | @head b t ht _ ih =>
    have other : a ≠ b := by
      intro same
      exact ht.isBound.not_isOpen (same ▸ opened)
    rw [compare_open_unfold ha hb other opened ht, ih (owns_of_unfolds ht)]

/-- A plain type compares to a bound generic as to its end, seen from the end. -/
theorem compare_plain_ends (ha : (core home).Owns a) (plain : a.IsPlain)
    (hb : (core home).Owns b) (hs : b.Unfolds (core home).oracle s)
    (hf : b.Ends (core home).oracle f) :
    (core home).compare a b = ((core home).compare f a).reverse := by
  have other : a ≠ b := by
    intro same
    exact hs.isBound.not_isPlain (same ▸ plain)
  obtain rfl | ⟨t, ht, rest⟩ := hf.1.cases_head
  · exact absurd hs (hf.2 s)
  · rw [compare_plain_unfold ha hb other plain ht,
      compare_ends (owns_of_unfolds ht) ha ⟨rest, hf.2⟩ fun u hu => hu.isBound.not_isPlain plain]

/-- A solid type compares to the end of the other type, seen from there or not. -/
theorem compare_solid_ends (ha : (core home).Owns a) (solid : a.IsSolid)
    (hb : (core home).Owns b) (hf : b.Ends (core home).oracle f) :
    (core home).compare a b = (core home).compare a f ∨
      (core home).compare a b = ((core home).compare f a).reverse := by
  obtain opened | plain := solid
  · exact .inl (compare_open_ends ha opened hb hf.1)
  · obtain rfl | ⟨t, ht, -⟩ := hf.1.cases_head
    · exact .inl rfl
    · exact .inr (compare_plain_ends ha plain hb ht hf)

/-! ## Soft and solid ends -/

/-- A soft type is unrelated to all others, but for variables that are the same. -/
theorem compare_soft (ha : (core home).Owns a) (soft : a.IsSoft (core home).oracle)
    (hb : (core home).Owns b) (hne : a ≠ b) :
    (core home).compare a b = .unrelated ∨
      (core home).compare a b = .equivalent ∧ (core home).compare b a = .equivalent ∧
        b.IsVar := by
  obtain ⟨v, ka⟩ | stuck := soft
  · by_cases var : b.IsVar
    · obtain ⟨w, kb⟩ := var
      rw [compare_var_var ha hb hne ka kb, compare_var_var hb ha hne.symm kb ka]
      by_cases same : v = w
      · exact .inr ⟨if_pos same, if_pos same.symm, w, kb⟩
      · exact .inl (if_neg same)
    · exact .inl (compare_var ha hb hne ⟨v, ka⟩ var)
  · exact .inl (compare_stuck ha hb hne stuck)

/-- A solid type is unrelated to a soft one. -/
theorem compare_solid_soft (ha : (core home).Owns a) (solid : a.IsSolid)
    (hb : (core home).Owns b) (soft : b.IsSoft (core home).oracle) :
    (core home).compare a b = .unrelated := by
  obtain opened | plain := solid
  · obtain var | stuck := soft
    · exact compare_open ha hb (fun same => opened.not_isVar (same ▸ var)) opened (.inl var)
    · exact compare_open_stuck ha hb (fun same => stuck.1.not_isOpen (same ▸ opened)) opened stuck
  · obtain var | stuck := soft
    · exact compare_plain_var ha hb (fun same => var.not_isPlain (same ▸ plain)) plain var
    · exact compare_plain_stuck ha hb (fun same => stuck.1.not_isPlain (same ▸ plain)) plain stuck

/-- Looking back from the solid end of a chain of unfoldings finds an equivalence. -/
theorem compare_solid_back (ha : (core home).Owns a) (he : a.Ends (core home).oracle e)
    (solid : e.IsSolid) : (core home).compare e a = .equivalent := by
  have own := owns_of_chain he.1 ha
  obtain same | same := compare_solid_ends own solid ha he
  · rw [same, compare_self own]
  · rw [same, compare_self own, Inclusion.reverse_equivalent]

/-- Looking back along a chain of unfoldings finds an equivalence, unless the end is soft. -/
theorem compare_back (ha : (core home).Owns a) (he : a.Ends (core home).oracle e) (hne : a ≠ e) :
    (core home).compare e a = .equivalent ∨
      (core home).compare e a = .unrelated ∧ ¬ a.Steady (core home).oracle := by
  have own := owns_of_chain he.1 ha
  obtain soft | solid := he.isSoft_or_isSolid
  · obtain unrelated | ⟨-, -, var⟩ := compare_soft own soft ha hne.symm
    · exact .inr ⟨unrelated, Ty.not_steady_of_ends he soft hne⟩
    · obtain rfl | ⟨s, hs, -⟩ := he.1.cases_head
      · exact absurd rfl hne
      · exact absurd var hs.isBound.not_isVar
  · exact .inl (compare_solid_back ha he solid)

/-- Where one of two ends is soft, the first is unrelated to the second type, but for variables that
are the same. -/
theorem compare_end_soft (ha : (core home).Owns e) (hb : (core home).Owns b)
    (hf : b.Ends (core home).oracle f) (hne : e ≠ b)
    (soft : e.IsSoft (core home).oracle ∨ e.IsSolid ∧ f.IsSoft (core home).oracle) :
    (core home).compare e b = .unrelated ∨
      (core home).compare e b = .equivalent ∧ (core home).compare b e = .equivalent ∧
        b.IsVar ∧ e.IsSoft (core home).oracle := by
  obtain soft | ⟨solid, soft⟩ := soft
  · exact (compare_soft ha soft hb hne).imp_right fun ⟨h, h', var⟩ => ⟨h, h', var, soft⟩
  · have own := owns_of_chain hf.1 hb
    have other : f ≠ e := by
      intro same
      exact solid.not_isSoft (same ▸ soft)
    have back : (core home).compare f e = .unrelated :=
      (compare_soft own soft ha other).resolve_right fun h => solid.not_isVar h.2.2
    obtain same | same := compare_solid_ends ha solid hb hf
    · exact .inl (same.trans (compare_solid_soft ha solid own soft))
    · exact .inl (by rw [same, back, Inclusion.reverse_unrelated])

/-! ## Both directions -/

/-- The rules judge plain types in two directions that mirror each other if what they lead to does. -/
theorem mirrors_judge {P : Prop} (ha : (core home).Owns a) (hb : (core home).Owns b)
    (pa : a.IsPlain) (pb : b.IsPlain)
    (law : ∀ x y, a.Leads (core home).oracle x → b.Leads (core home).oracle y →
      Inclusion.Mirrors P ((core home).compare x y) ((core home).compare y x)) :
    Inclusion.Mirrors P ((a.judge b).answer (core home).oracle)
      ((b.judge a).answer (core home).oracle) := by
  refine (Ty.opinionsMirror (forms_of_owns ha).kind (forms_of_owns hb).kind pa pb ?_).judge
  intro x y hx hy
  rw [oracle_compare, oracle_compare]
  exact law x y hx hy

/-- Solid types mirror each other if what they lead to does. -/
theorem mirrors_solid {P : Prop} (ha : (core home).Owns a) (hb : (core home).Owns b)
    (sa : a.IsSolid) (sb : b.IsSolid)
    (law : ∀ x y, a.Leads (core home).oracle x → b.Leads (core home).oracle y →
      Inclusion.Mirrors P ((core home).compare x y) ((core home).compare y x)) :
    Inclusion.Mirrors P ((core home).compare a b) ((core home).compare b a) := by
  by_cases hne : a = b
  · rw [hne, compare_self hb]
    exact Inclusion.mirrors_equivalent
  obtain oa | pa := sa
  · obtain ob | pb := sb
    · obtain ⟨_, inner, vars, _, ka, unbound⟩ := oa
      obtain ⟨_, inner', vars', _, kb, unbound'⟩ := ob
      rw [compare_open_open ha hb hne ka unbound kb unbound',
        compare_open_open hb ha (Ne.symm hne) kb unbound' ka unbound]
      by_cases count : vars = vars'
      · rw [if_pos count, if_pos count.symm]
        exact law inner inner' (.body ka unbound) (.body kb unbound')
      · rw [if_neg count, if_neg fun h => count h.symm]
        exact Inclusion.mirrors_unrelated
    · rw [compare_open ha hb hne oa (.inr pb), compare_plain_open hb ha (Ne.symm hne) pb oa]
      exact Inclusion.mirrors_unrelated
  · obtain ob | pb := sb
    · rw [compare_plain_open ha hb hne pa ob, compare_open hb ha (Ne.symm hne) ob (.inr pa)]
      exact Inclusion.mirrors_unrelated
    · rw [compare_of_ne ha hb hne, compare_of_ne hb ha (Ne.symm hne)]
      exact mirrors_judge ha hb pa pb law

theorem not_steady_of_one_way (he : a.Ends (core home).oracle e) (var : a.IsVar)
    (hf : b.Ends (core home).oracle f) (soft : f.IsSoft (core home).oracle)
    (none : (core home).compare e b = .unrelated)
    (same : (core home).compare a f = .equivalent) : ¬ b.Steady (core home).oracle := by
  refine Ty.not_steady_of_ends hf soft ?_
  rintro rfl
  rw [he.eq_self (Ty.IsSoft.not_unfolds (.inl var)), same] at none
  contradiction

/-- The ends of two types mirror each other, seen from the types, if one of the ends is soft. -/
theorem mirrors_soft (ha : (core home).Owns a) (he : a.Ends (core home).oracle e)
    (hb : (core home).Owns b) (hf : b.Ends (core home).oracle f) (heb : e ≠ b) (hfa : f ≠ a)
    (soft : e.IsSoft (core home).oracle ∨ e.IsSolid ∧ f.IsSoft (core home).oracle)
    (soft' : f.IsSoft (core home).oracle ∨ f.IsSolid ∧ e.IsSoft (core home).oracle) :
    Inclusion.Mirrors (¬ a.Steady (core home).oracle ∨ ¬ b.Steady (core home).oracle)
      ((core home).compare e b) ((core home).compare f a) := by
  have own := owns_of_chain he.1 ha
  have own' := owns_of_chain hf.1 hb
  obtain none | ⟨same, back, var, left⟩ := compare_end_soft own hb hf heb soft
  · obtain none' | ⟨same', back', var', right⟩ := compare_end_soft own' ha he hfa soft'
    · rw [none, none']
      exact Inclusion.mirrors_unrelated
    · rw [none, same']
      refine Inclusion.mirrors_unrelated_left (.inr ?_) (by decide)
      exact not_steady_of_one_way he var' hf right none back'
  · obtain none' | ⟨same', -⟩ := compare_end_soft own' ha he hfa soft'
    · rw [same, none']
      refine (Inclusion.mirrors_unrelated_left (.inl ?_) (by decide)).symm
      exact not_steady_of_one_way hf var he left none' back
    · rw [same, same']
      exact Inclusion.mirrors_equivalent

/-- A bound generic and what it unfolds to are equivalent in one direction at least. -/
theorem mirrors_of_chain (ha : (core home).Owns a) (hs : a.Unfolds (core home).oracle s)
    (hb : ReflTransGen (Ty.Unfolds (core home).oracle) s b) :
    Inclusion.Mirrors (¬ a.Steady (core home).oracle) ((core home).compare a b)
      ((core home).compare b a) := by
  have own := owns_of_chain hb (owns_of_unfolds hs)
  obtain ⟨e, he⟩ := exists_ends own
  have ends : a.Ends (core home).oracle e := ⟨.head hs (hb.trans he.1), he.2⟩
  have hne : a ≠ e := by
    intro same
    exact he.2 s (same ▸ hs)
  rw [compare_of_chain ha (.head hs hb),
    compare_of_not_chain own ha he.1 (not_chain_back ha hs hb)]
  obtain same | ⟨none, reason⟩ := compare_back ha ends hne
  · rw [same]
    exact Inclusion.mirrors_equivalent
  · rw [none]
    exact (Inclusion.mirrors_unrelated_left reason (by decide)).symm

/-- The two directions of a comparison are the reverse of each other, or one finds no relation; and
the latter needs a type that is not steady. -/
theorem mirrors_compare (ha : (core home).Owns a) (hb : (core home).Owns b) :
    Inclusion.Mirrors (¬ a.Steady (core home).oracle ∨ ¬ b.Steady (core home).oracle)
      ((core home).compare a b) ((core home).compare b a) := by
  induction hn : a.pairWeight b using Nat.strongRecOn generalizing a b with
  | ind n ih =>
    subst hn
    by_cases hne : a = b
    · rw [hne, compare_self hb]
      exact Inclusion.mirrors_equivalent
    obtain ⟨e, he⟩ := exists_ends ha
    obtain ⟨f, hf⟩ := exists_ends hb
    have own := owns_of_chain he.1 ha
    have own' := owns_of_chain hf.1 hb
    by_cases hab : ReflTransGen (Ty.Unfolds (core home).oracle) a b
    · obtain rfl | ⟨s, hs, rest⟩ := hab.cases_head
      · exact absurd rfl hne
      · exact (mirrors_of_chain ha hs rest).imp .inl
    by_cases hba : ReflTransGen (Ty.Unfolds (core home).oracle) b a
    · obtain rfl | ⟨t, ht, rest⟩ := hba.cases_head
      · exact absurd rfl hne
      · exact (mirrors_of_chain hb ht rest).symm.imp .inr
    rw [compare_of_not_chain ha hb he.1 hab, compare_of_not_chain hb ha hf.1 hba]
    have heb : e ≠ b := by
      intro same
      exact hab (same ▸ he.1)
    have hfa : f ≠ a := by
      intro same
      exact hba (same ▸ hf.1)
    obtain se | se := he.isSoft_or_isSolid <;> obtain sf | sf := hf.isSoft_or_isSolid
    · exact mirrors_soft ha he hb hf heb hfa (.inl se) (.inl sf)
    · exact mirrors_soft ha he hb hf heb hfa (.inl se) (.inr ⟨sf, se⟩)
    · exact mirrors_soft ha he hb hf heb hfa (.inr ⟨se, sf⟩) (.inl sf)
    · have ends : Inclusion.Mirrors
          (¬ a.Steady (core home).oracle ∨ ¬ b.Steady (core home).oracle)
          ((core home).compare e f) ((core home).compare f e) := by
        refine mirrors_solid own own' se sf ?_
        intro x y hx hy
        have lighter : x.pairWeight y < a.pairWeight b := by
          have left := weight_leads_lt own hx
          have right := weight_leads_lt own' hy
          have left' := weight_chain_le ha he.1
          have right' := weight_chain_le hb hf.1
          simp only [Ty.pairWeight]
          omega
        refine (ih _ lighter (owns_of_leads own hx) (owns_of_leads own' hy) rfl).imp ?_
        exact Or.imp (fun h steady => h ((steady.of_unfolds he.1).of_leads hx))
          fun h steady => h ((steady.of_unfolds hf.1).of_leads hy)
      obtain left | left := compare_solid_ends own se hb hf <;>
        obtain right | right := compare_solid_ends own' sf ha he <;> rw [left, right]
      · exact ends
      · exact Inclusion.mirrors_of_reverse ends.ne_disjoint.1
      · exact (Inclusion.mirrors_of_reverse ends.ne_disjoint.2).symm
      · exact ends.reverse

/-- Types that are built are never disjoint. -/
theorem compare_ne_disjoint (ha : (core home).Owns a) (hb : (core home).Owns b) :
    (core home).compare a b ≠ .disjoint :=
  (mirrors_compare ha hb).ne_disjoint.1

/-- Steady types compare in the other direction as the reverse. -/
theorem compare_reverse (ha : (core home).Owns a) (hb : (core home).Owns b)
    (sa : a.Steady (core home).oracle) (sb : b.Steady (core home).oracle) :
    (core home).compare a b = ((core home).compare b a).reverse := by
  obtain ⟨same, -⟩ | ⟨reason, -⟩ := mirrors_compare ha hb
  · rw [same, Inclusion.reverse_reverse]
  · exact (reason.elim (· sa) (· sb)).elim

end Registry

end TypedTree
