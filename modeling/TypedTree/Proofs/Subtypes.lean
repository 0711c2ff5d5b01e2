import TypedTree.Proofs.Defaults
import TypedTree.Proofs.Mirroring

/-!
# Subtypes among plain types

A comparison answers how two types relate in both directions. Here it is said, kind by kind, when
the first type is a subtype of the second, in terms of the same question about the parts. Only the
source of a mapping is asked another question: whether the two sources relate at all.

## Main definitions

* `Oracle.Below`: the first type compares as a subtype of the second.
* `Kind.Under`: what that comes to for plain types of one kind.

## Main statements

* `Registry.below_plain_iff`: subtyping of plain types by their kinds.
-/

namespace TypedTree

namespace Inclusion

variable {x y : Inclusion}

@[simp] theorem isSubtype_ofBoth (down up : Bool) : (ofBoth down up).isSubtype = down := by
  cases down <;> cases up <;> rfl

@[simp] theorem isSubtype_meet : (x.meet y).isSubtype = (x.isSubtype && y.isSubtype) := by
  cases x <;> cases y <;> rfl

theorem isRelated_of_isSubtype (h : x.isSubtype = true) : x.isRelated = true := by
  rw [isRelated, h, Bool.true_or]

end Inclusion

/-! ## Scalars -/

theorem IntRange.within_iff {r s : IntRange} :
    r.within s = true ↔ s.min ≤ r.min ∧ r.max ≤ s.max := by
  simp [within]

theorem IntRange.within_trans {r s t : IntRange} (h : r.within s = true) (h' : s.within t = true) :
    r.within t = true := by
  rw [within_iff] at h h' ⊢
  exact ⟨Int64.le_trans h'.1 h.1, Int64.le_trans h.2 h'.2⟩

theorem IntRange.contains_of_within {r s : IntRange} {n : Int64} (h : r.within s = true)
    (hn : r.contains n = true) : s.contains n = true := by
  rw [within_iff] at h
  simp only [contains, Bool.and_eq_true, decide_eq_true_eq] at hn ⊢
  exact ⟨Int64.le_trans h.1 hn.1, Int64.le_trans hn.2 h.2⟩

theorem Rational.le_trans {a b c : Rational} (h : a ≤ b) (h' : b ≤ c) : a ≤ c := by
  rw [le_iff] at h h' ⊢
  have positive : (0 : Int) < b.den := Int.natCast_pos.2 b.den_pos
  refine Int.le_of_mul_le_mul_right ?_ positive
  calc
    a.num * c.den * b.den = a.num * b.den * c.den := Int.mul_right_comm ..
    _ ≤ b.num * a.den * c.den := Int.mul_le_mul_of_nonneg_right h (Int.natCast_nonneg _)
    _ = b.num * c.den * a.den := Int.mul_right_comm ..
    _ ≤ c.num * b.den * a.den := Int.mul_le_mul_of_nonneg_right h' (Int.natCast_nonneg _)
    _ = c.num * a.den * b.den := Int.mul_right_comm ..

theorem RationalRange.within_iff {r s : RationalRange} :
    r.within s = true ↔ s.min ≤ r.min ∧ r.max ≤ s.max := by
  simp [within]

theorem RationalRange.within_trans {r s t : RationalRange} (h : r.within s = true)
    (h' : s.within t = true) : r.within t = true := by
  rw [within_iff] at h h' ⊢
  exact ⟨Rational.le_trans h'.1 h.1, Rational.le_trans h.2 h'.2⟩

theorem RationalRange.contains_of_within {r s : RationalRange} {q : Rational}
    (h : r.within s = true) (hq : r.contains q = true) : s.contains q = true := by
  rw [within_iff] at h
  simp only [contains, Bool.and_eq_true, decide_eq_true_eq] at hq ⊢
  exact ⟨Rational.le_trans h.1 hq.1, Rational.le_trans hq.2 h.2⟩

theorem Enumeration.contains_of_within {e f : Enumeration} {v : Value} (h : e.within f = true)
    (hv : e.contains v = true) : f.contains v = true := by
  simp only [within, Bool.and_eq_true, List.all_eq_true, decide_eq_true_eq] at h
  cases v with
  | ident id =>
    simp only [contains, decide_eq_true_eq] at hv ⊢
    exact h.2 id hv
  | void =>
    rw [contains] at hv ⊢
    simpa [hv] using h.1
  | _ => simp [contains] at hv

theorem Enumeration.within_trans {e f g : Enumeration} (h : e.within f = true)
    (h' : f.within g = true) : e.within g = true := by
  simp only [within, Bool.and_eq_true, List.all_eq_true, decide_eq_true_eq] at h h' ⊢
  refine ⟨?_, fun id hid => h'.2 id (h.2 id hid)⟩
  cases he : e.blank <;> cases hf : f.blank <;> simp_all

/-- Whether the first type compares as a subtype of the second. -/
def Oracle.Below (o : Oracle) (a b : Ty) : Prop :=
  (o.compare a b).isSubtype = true

/-- Whether two types relate. -/
def Oracle.Related (o : Oracle) (a b : Ty) : Prop :=
  (o.compare a b).isRelated = true

section Under

variable (o : Oracle)

/-- Whether some fields have what a field of another record asks for. -/
def Field.ServedBy (w : Field Ty) (fields : List (Field Ty)) : Prop :=
  match fields.find? (·.id == w.id) with
  | some f => (w.optional = true ∨ f.optional = false) ∧ o.Below f.type w.type
  | none => w.optional = true

/-- Whether some fields of a tag include all of others, each at a subtype. -/
def FieldsUnder (mine want : List (Ident × Ty)) : Prop :=
  ∀ w ∈ want, ∃ f, mine.find? (·.1 == w.1) = some f ∧ o.Below f.2 w.2

/-- What makes a plain type a subtype of another one. -/
def Kind.Under : Kind Ty → Kind Ty → Prop
  | .bool, .bool | .text, .text => True
  | .int r, .int s => r.within s = true
  | .rational r, .rational s => r.within s = true
  | .enumeration e, .enumeration f => e.within f = true
  | .record fs, .record gs => ∀ g ∈ gs, g.ServedBy o fs
  | .variant fs tags _, .variant gs tags' _ =>
    tags.length = tags'.length ∧ ∀ t ∈ tags, ∃ t', Ty.tag? tags' t.id = some t' ∧
      FieldsUnder o (Ty.tagFields fs t) (Ty.tagFields gs t')
  | .array e _, .array f _ => o.Below e f
  | .sum xs _, .sum ys _ => ∀ x ∈ xs, ∃ y ∈ ys, o.Below x y
  | .tuple xs, .tuple ys => List.Forall₂ o.Below xs ys
  | .map s t, .map s' t' => o.Related s s' ∧ o.Below t t'
  | _, _ => False

end Under

namespace Ty

open Inquiry

variable {o : Oracle} {a b : Ty}

/-! ## The rules in one direction -/

theorem answer_isBelow : (isBelow a b).answer o = true ↔ o.Below a b := by
  simp [isBelow, Oracle.Below]

theorem answer_recordFits {fs gs : List (Field Ty)} :
    (recordFits fs gs).answer o = true ↔ ∀ g ∈ gs, g.ServedBy o fs := by
  rw [recordFits, answer_all, List.all_eq_true]
  refine forall₂_congr fun g _ => ?_
  rw [Field.ServedBy]
  cases fs.find? (·.id == g.id) with
  | none => simp
  | some f =>
    cases g.optional <;> cases f.optional <;> simp [answer_isBelow]

theorem answer_fieldsFit {mine want : List (Ident × Ty)} :
    (fieldsFit mine want).answer o = true ↔ FieldsUnder o mine want := by
  rw [fieldsFit, answer_all, List.all_eq_true]
  refine forall₂_congr fun w _ => ?_
  cases mine.find? (·.1 == w.1) <;> simp [answer_isBelow]

theorem answer_covered {xs ys : List Ty} :
    (covered xs ys).answer o = true ↔ ∀ x ∈ xs, ∃ y ∈ ys, o.Below x y := by
  simp [covered, answer_isBelow]

theorem isSubtype_slotsRelate {soFar : Inclusion} {xs ys : List Ty} (count : xs.length = ys.length) :
    ((slotsRelate soFar xs ys).answer o).isSubtype = true ↔
      soFar.isSubtype = true ∧ List.Forall₂ o.Below xs ys := by
  induction xs generalizing ys soFar with
  | nil =>
    obtain rfl := List.length_eq_zero_iff.1 count.symm
    simp [slotsRelate]
  | cons x xs ih =>
    obtain ⟨y, ys, rfl⟩ := List.exists_cons_of_length_eq_add_one count.symm
    rw [slotsRelate, answer_bind, answer_relate, ih (Nat.succ.inj count), Inclusion.isSubtype_meet,
      Bool.and_eq_true, List.forall₂_cons, and_assoc]
    rfl

theorem isSubtype_judge_variant {fs gs : List (Ident × Ty)} {tags tags' : List Tag}
    {initial initial' : Tag} (ha : a.kind = .variant fs tags initial)
    (hb : b.kind = .variant gs tags' initial') :
    ((judge a b).answer o).isSubtype = true ↔ a.kind.Under o b.kind := by
  rw [ha, hb, Kind.Under]
  by_cases h : tags.length = tags'.length ∧ tags.all (fun t => (tag? tags' t.id).isSome) = true
  · have down : (opinion a b).answer o = some (.ofBoth ((tagsFit fs gs tags' tags).answer o).1
        ((tagsFit fs gs tags' tags).answer o).2) := by
      simp only [opinion, ha, hb, if_pos h, answer_bind, answer_pure]
    obtain ⟨count, found⟩ := h
    rw [List.all_eq_true] at found
    rw [answer_judge_of_some down, Inclusion.isSubtype_ofBoth, answer_tagsFit, List.all_eq_true,
      forall_counterpart found (H := fun t fields =>
        (fieldsFit (tagFields fs t) fields).answer o = true), and_iff_right count]
    refine forall₂_congr fun t ht => ?_
    obtain ⟨t', ht'⟩ := Option.isSome_iff_exists.1 (found t ht)
    simp [ht', answer_fieldsFit]
  · have down : (opinion a b).answer o = some .unrelated := by
      simp only [opinion, ha, hb, if_neg h, answer_pure]
    rw [answer_judge_of_some down]
    refine iff_of_false (by decide) ?_
    rintro ⟨count, found⟩
    refine h ⟨count, List.all_eq_true.2 fun t ht => ?_⟩
    obtain ⟨t', ht', -⟩ := found t ht
    rw [ht']
    rfl

theorem isSubtype_judge_tuple {xs ys : List Ty} (ha : a.kind = .tuple xs) (hb : b.kind = .tuple ys) :
    ((judge a b).answer o).isSubtype = true ↔ a.kind.Under o b.kind := by
  rw [ha, hb, Kind.Under]
  by_cases count : xs.length = ys.length
  · have down : (opinion a b).answer o = some ((slotsRelate .equivalent xs ys).answer o) := by
      simp only [opinion, ha, hb, if_pos count, answer_map]
    rw [answer_judge_of_some down, isSubtype_slotsRelate count]
    exact and_iff_right rfl
  · have down : (opinion a b).answer o = some .unrelated := by
      simp only [opinion, ha, hb, if_neg count, answer_pure]
    rw [answer_judge_of_some down]
    exact iff_of_false (by decide) fun each => count each.length_eq

theorem isSubtype_judge_map {s t s' t' : Ty} (ha : a.kind = .map s t) (hb : b.kind = .map s' t') :
    ((judge a b).answer o).isSubtype = true ↔ a.kind.Under o b.kind := by
  rw [ha, hb, Kind.Under, answer_judge_of_some (answer_opinion_map ha hb)]
  by_cases related : (o.compare s s').isRelated = true
  · rw [if_pos related]
    exact (and_iff_right related).symm
  · rw [if_neg related]
    exact iff_of_false (by decide) fun both => related both.1

/-- Plain types are judged by their kinds. -/
theorem isSubtype_judge (pa : a.IsPlain) (pb : b.IsPlain) :
    ((judge a b).answer o).isSubtype = true ↔ a.kind.Under o b.kind := by
  obtain ⟨x, given⟩ : ∃ x, opinion a b = x := ⟨_, rfl⟩
  have whole := given
  rw [opinion] at given
  split at given
  · rename_i ha hb
    simp [judge, opinion, ha, hb, Kind.Under, Inclusion.isSubtype]
  · rename_i ha hb
    simp [judge, opinion, ha, hb, Kind.Under, Inclusion.isSubtype]
  · rename_i r s ha hb
    simp [judge, opinion, ha, hb, Kind.Under, IntRange.compare]
  · rename_i r s ha hb
    simp [judge, opinion, ha, hb, Kind.Under, RationalRange.compare]
  · rename_i e f ha hb
    simp [judge, opinion, ha, hb, Kind.Under, Enumeration.compare]
  · rename_i fs gs ha hb
    simp [judge, opinion, ha, hb, Kind.Under, answer_recordFits]
  · rename_i fs tags _ gs tags' _ ha hb
    exact isSubtype_judge_variant ha hb
  · rename_i e _ f _ ha hb
    simp [judge, opinion, ha, hb, Kind.Under, Oracle.Below]
  · rename_i xs _ ys _ ha hb
    simp [judge, opinion, ha, hb, Kind.Under, answer_covered]
  · rename_i xs ys ha hb
    exact isSubtype_judge_tuple ha hb
  · rename_i s t s' t' ha hb
    exact isSubtype_judge_map ha hb
  · rename_i ha
    simp [IsPlain, ha] at pa
  · rename_i ha hb
    simp [IsPlain, ha] at pa
  · rename_i ha hb
    simp [IsPlain, ha] at pa
  · -- types of different kinds: neither has an opinion
    have silent : (opinion a b).answer o = none := by rw [whole, ← given, answer_pure]
    have silent' : (opinion b a).answer o = none := by
      rw [IsPlain] at pb
      rw [opinion]
      split <;> first | rfl | grind
    have apart : ¬ a.kind.Under o b.kind := by
      rw [Kind.Under] <;> first | exact not_false | assumption
    rw [answer_judge_of_none silent, silent']
    exact iff_of_false (by decide) apart

end Ty

/-! ## Places -/

/-- What holds of two lists place by place carries over to a third list of the same length. -/
theorem forall₂_of_places {α β γ : Type} {R : α → β → Prop} {S : α → γ → Prop} {as : List α}
    {bs : List β} {cs : List γ} (h : List.Forall₂ R as bs) (count : bs.length = cs.length)
    (step : ∀ (i : Nat) a b c, as[i]? = some a → bs[i]? = some b → cs[i]? = some c → R a b → S a c) :
    List.Forall₂ S as cs := by
  induction h generalizing cs with
  | nil =>
    obtain rfl := List.length_eq_zero_iff.1 count.symm
    exact .nil
  | @cons a b as bs first _ ih =>
    obtain ⟨c, cs, rfl⟩ := List.exists_cons_of_length_eq_add_one count.symm
    refine .cons (step 0 a b c rfl rfl rfl first) (ih (Nat.succ.inj count) ?_)
    intro i x y z hx hy hz
    exact step (i + 1) x y z hx hy hz

theorem forall₂_get {α β : Type} {R : α → β → Prop} {as : List α} {bs : List β}
    (h : List.Forall₂ R as bs) {i : Nat} {a : α} {b : β} (ha : as[i]? = some a)
    (hb : bs[i]? = some b) : R a b := by
  obtain ⟨hi, rfl⟩ := List.getElem?_eq_some_iff.1 ha
  obtain ⟨hi', rfl⟩ := List.getElem?_eq_some_iff.1 hb
  exact h.get hi hi'

/-! ## Types of the core registry -/

/-- Kinds are under themselves if the parts are below themselves. -/
theorem Kind.under_self {o : Oracle} {t : Ty} (formed : t.kind.Formed) (plain : t.IsPlain)
    (parts : ∀ p ∈ t.kind.parts, o.Below p p) : t.kind.Under o t.kind := by
  cases hk : t.kind with
  | generic | var => simp [Ty.IsPlain, hk] at plain
  | failure e =>
    rw [hk] at formed
    exact formed.elim
  | bool | text => trivial
  | int r => simp [Kind.Under, IntRange.within]
  | rational r => simp [Kind.Under, RationalRange.within, Rational.le_refl]
  | enumeration e => simp [Kind.Under, Enumeration.within]
  | record fields =>
    rw [hk] at formed parts
    intro g hg
    rw [Field.ServedBy, find?_key formed hg]
    exact ⟨by cases g.optional <;> simp, parts _ (List.mem_map_of_mem hg)⟩
  | variant fields tags initial =>
    rw [hk] at formed parts
    refine ⟨rfl, fun t ht => ⟨t, Ty.tag?_eq_of_mem formed.tags_nodup ht, ?_⟩⟩
    intro w hw
    have names := Ty.nodup_tagFields formed.fields_nodup (formed.positions_nodup t ht)
    exact ⟨w, find?_key names hw, parts _ (List.mem_map_of_mem (Ty.mem_of_mem_tagFields hw))⟩
  | array element size =>
    rw [hk] at parts
    exact parts element List.mem_cons_self
  | sum summands initial =>
    rw [hk] at parts
    exact fun x hx => ⟨x, hx, parts x hx⟩
  | tuple slots =>
    rw [hk] at parts
    exact List.forall₂_same.2 parts
  | map source target =>
    rw [hk] at parts
    exact ⟨Inclusion.isRelated_of_isSubtype (parts source (by simp [Kind.parts])),
      parts target (by simp [Kind.parts])⟩

namespace Registry

variable {home : Nat} {a b : Ty}

theorem owns_part {k : Kind Ty} {p : Ty} (ha : (core home).Owns a) (ka : a.kind = k)
    (hp : p ∈ k.parts) : (core home).Owns p :=
  (forms_of_owns ha).owns_parts p (ka ▸ hp)

theorem below_self (ha : (core home).Owns a) : (core home).oracle.Below a a := by
  rw [Oracle.Below, oracle_compare, compare_self ha]
  rfl

/-- Plain types of the core registry are subtypes as their kinds say. -/
theorem below_plain_iff (ha : (core home).Owns a) (hb : (core home).Owns b) (pa : a.IsPlain)
    (pb : b.IsPlain) :
    (core home).oracle.Below a b ↔ a.kind.Under (core home).oracle b.kind := by
  by_cases hne : a = b
  · subst hne
    have forms := forms_of_owns ha
    exact iff_of_true (below_self ha)
      (Kind.under_self forms.kind pa fun p hp => below_self (forms.owns_parts p hp))
  · rw [Oracle.Below, oracle_compare, compare_of_ne ha hb hne]
    exact Ty.isSubtype_judge pa pb

theorem below_kinds_iff {k k' : Kind Ty} (ha : (core home).Owns a) (hb : (core home).Owns b)
    (ka : a.kind = k) (kb : b.kind = k') (pa : Ty.IsPlain { a with kind := k })
    (pb : Ty.IsPlain { b with kind := k' }) :
    (core home).oracle.Below a b ↔ k.Under (core home).oracle k' := by
  subst ka kb
  exact below_plain_iff ha hb pa pb

end Registry

end TypedTree
