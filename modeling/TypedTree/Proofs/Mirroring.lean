import TypedTree.Proofs.Comparison
import Mathlib.Data.List.Perm.Subperm

/-!
# Opinions that mirror each other

Plain types of one kind are compared part by part. Whatever the two directions of the comparisons of
parts come to, the two directions for the whole come to the same: the second is the reverse of the
first, or only one of them finds a relation at all. The latter happens only if it does for parts.

## Main definitions

* `Inclusion.Mirrors`: what the two directions of a comparison come to.
* `Ty.Leads`: from a type to those that a comparison goes on with in one direction only.

## Main statements

* `Ty.opinionsMirror`: plain types mirror each other if what they lead to does.
-/

namespace TypedTree

namespace Inclusion

variable {x y x' y' : Inclusion} {P Q : Prop}

theorem reverse_ofBoth (down up : Bool) : (ofBoth down up).reverse = ofBoth up down := by
  cases down <;> cases up <;> rfl

theorem reverse_meet (x y : Inclusion) : (x.meet y).reverse = x.reverse.meet y.reverse := by
  cases x <;> cases y <;> rfl

theorem meet_comm (x y : Inclusion) : x.meet y = y.meet x := by
  cases x <;> cases y <;> rfl

@[simp] theorem isRelated_reverse (x : Inclusion) : x.reverse.isRelated = x.isRelated := by
  cases x <;> rfl

theorem isRelated_iff : x.isRelated = true ↔ x ≠ .unrelated ∧ x ≠ .disjoint := by
  cases x <;> decide

/-- Two answers of which one finds a relation and the other none. -/
def Splits (x y : Inclusion) : Prop :=
  x = .unrelated ∧ y.isRelated = true ∨ y = .unrelated ∧ x.isRelated = true

/-- What the two directions of a comparison come to: the second is the reverse of the first or, for
a reason, they split. Neither is `disjoint`, which is for types that could not be built. -/
def Mirrors (reason : Prop) (x y : Inclusion) : Prop :=
  y = x.reverse ∧ x ≠ .disjoint ∨ reason ∧ x.Splits y

theorem Splits.symm (h : x.Splits y) : y.Splits x := Or.symm h

theorem Splits.reverse (h : x.Splits y) : y.reverse.Splits x.reverse := by
  obtain ⟨rfl, h⟩ | ⟨rfl, h⟩ := h
  · exact .inr ⟨rfl, by rwa [isRelated_reverse]⟩
  · exact .inl ⟨rfl, by rwa [isRelated_reverse]⟩

/-- One more pair of answers that are the reverse of each other heals a split or leaves it. -/
theorem Splits.meet_reverse (h : x.Splits y) (z : Inclusion) :
    y.meet z.reverse = (x.meet z).reverse ∨ (x.meet z).Splits (y.meet z.reverse) := by
  obtain ⟨rfl, h⟩ | ⟨rfl, h⟩ := h
  · cases y <;> cases z <;> simp_all [Splits, meet, Inclusion.reverse, isRelated_iff]
  · cases x <;> cases z <;> simp_all [Splits, meet, Inclusion.reverse, isRelated_iff]

/-- So does one more pair that splits. -/
theorem Splits.meet (h : x.Splits y) (h' : x'.Splits y') :
    y.meet y' = (x.meet x').reverse ∨ (x.meet x').Splits (y.meet y') := by
  obtain ⟨rfl, h⟩ | ⟨rfl, h⟩ := h <;> obtain ⟨rfl, h'⟩ | ⟨rfl, h'⟩ := h'
  · cases y <;> cases y' <;> simp_all [Splits, Inclusion.meet, Inclusion.reverse, isRelated_iff]
  · cases y <;> cases x' <;> simp_all [Inclusion.meet, Inclusion.reverse, isRelated_iff]
  · cases x <;> cases y' <;> simp_all [Inclusion.meet, Inclusion.reverse, isRelated_iff]
  · cases x <;> cases x' <;> simp_all [Splits, Inclusion.meet, Inclusion.reverse, isRelated_iff]

@[simp] theorem reverse_eq_unrelated : x.reverse = .unrelated ↔ x = .unrelated := by
  cases x <;> simp [Inclusion.reverse]

@[simp] theorem reverse_eq_disjoint : x.reverse = .disjoint ↔ x = .disjoint := by
  cases x <;> simp [Inclusion.reverse]

theorem meet_ne_disjoint (h : x ≠ .disjoint) (h' : y ≠ .disjoint) : x.meet y ≠ .disjoint := by
  cases x <;> cases y <;> simp_all [Inclusion.meet]

theorem ofBoth_ne_disjoint (down up : Bool) : ofBoth down up ≠ .disjoint := by
  cases down <;> cases up <;> decide

theorem Splits.ne_disjoint (h : x.Splits y) : x ≠ .disjoint ∧ y ≠ .disjoint := by
  obtain ⟨rfl, h⟩ | ⟨rfl, h⟩ := h
  · exact ⟨by decide, (isRelated_iff.1 h).2⟩
  · exact ⟨(isRelated_iff.1 h).2, by decide⟩

theorem Splits.ne_reverse (h : x.Splits y) : y ≠ x.reverse := by
  rintro rfl
  obtain ⟨rfl, h⟩ | ⟨none, h⟩ := h
  · exact (isRelated_iff.1 h).1 rfl
  · exact (isRelated_iff.1 h).1 (reverse_eq_unrelated.1 none)

theorem mirrors_of_reverse (h : x ≠ .disjoint) : Mirrors P x x.reverse :=
  .inl ⟨rfl, h⟩

theorem mirrors_ofBoth (down up : Bool) : Mirrors P (ofBoth down up) (ofBoth up down) :=
  .inl ⟨(reverse_ofBoth down up).symm, ofBoth_ne_disjoint down up⟩

theorem mirrors_unrelated : Mirrors P .unrelated .unrelated :=
  mirrors_of_reverse (by decide)

theorem mirrors_equivalent : Mirrors P .equivalent .equivalent :=
  mirrors_of_reverse (by decide)

theorem Mirrors.ne_disjoint (h : Mirrors P x y) : x ≠ .disjoint ∧ y ≠ .disjoint := by
  obtain ⟨rfl, h⟩ | ⟨-, split⟩ := h
  · exact ⟨h, fun h' => h (reverse_eq_disjoint.1 h')⟩
  · exact split.ne_disjoint

theorem Mirrors.symm (h : Mirrors P x y) : Mirrors P y x := by
  obtain ⟨rfl, h⟩ | ⟨reason, split⟩ := h
  · exact .inl ⟨(reverse_reverse x).symm, fun h' => h (reverse_eq_disjoint.1 h')⟩
  · exact .inr ⟨reason, split.symm⟩

theorem Mirrors.imp (h : Mirrors P x y) (hPQ : P → Q) : Mirrors Q x y :=
  Or.imp_right (fun h => ⟨hPQ h.1, h.2⟩) h

theorem Mirrors.reverse (h : Mirrors P x y) : Mirrors P y.reverse x.reverse := by
  obtain ⟨rfl, h⟩ | ⟨reason, split⟩ := h
  · rw [reverse_reverse]
    exact mirrors_of_reverse h
  · exact .inr ⟨reason, split.reverse⟩

theorem Mirrors.meet (h : Mirrors P x y) (h' : Mirrors P x' y') :
    Mirrors P (x.meet x') (y.meet y') := by
  have proper := meet_ne_disjoint h.ne_disjoint.1 h'.ne_disjoint.1
  obtain ⟨rfl, -⟩ | ⟨reason, split⟩ := h
  · obtain ⟨rfl, -⟩ | ⟨reason, split⟩ := h'
    · exact .inl ⟨(reverse_meet x x').symm, proper⟩
    · rw [meet_comm x] at proper ⊢
      rw [meet_comm x.reverse]
      exact (split.meet_reverse x).imp (⟨·, proper⟩) (⟨reason, ·⟩)
  · obtain ⟨rfl, -⟩ | ⟨-, split'⟩ := h'
    · exact (split.meet_reverse x').imp (⟨·, proper⟩) (⟨reason, ·⟩)
    · exact (split.meet split').imp (⟨·, proper⟩) (⟨reason, ·⟩)

/-- An answer in one direction only. -/
theorem mirrors_unrelated_left (reason : P) (h : y ≠ .disjoint) : Mirrors P .unrelated y := by
  by_cases none : y = .unrelated
  · rw [none]
    exact mirrors_unrelated
  · exact .inr ⟨reason, .inl ⟨rfl, isRelated_iff.2 ⟨none, h⟩⟩⟩

/-- Answers that count only where others that mirror each other find a relation. -/
theorem Mirrors.guard (h : Mirrors P x y) (h' : Mirrors P x' y') :
    Mirrors P (if x.isRelated = true then x' else .unrelated)
      (if y.isRelated = true then y' else .unrelated) := by
  obtain ⟨rfl, -⟩ | ⟨reason, ⟨rfl, related⟩ | ⟨rfl, related⟩⟩ := h
  · rw [isRelated_reverse]
    split
    · exact h'
    · exact mirrors_unrelated
  · rw [if_neg (by decide), if_pos related]
    exact mirrors_unrelated_left reason h'.ne_disjoint.2
  · rw [if_neg (by decide : ¬ unrelated.isRelated = true), if_pos related]
    exact (mirrors_unrelated_left reason h'.ne_disjoint.1).symm

/-- Answers that mirror each other are the reverse of each other unless only one of them finds a
relation. -/
theorem Mirrors.eq_reverse_iff (h : Mirrors P x y) :
    x = y.reverse ↔ (x = .unrelated ↔ y = .unrelated) := by
  obtain ⟨rfl, -⟩ | ⟨-, ⟨rfl, h⟩ | ⟨rfl, h⟩⟩ := h
  · simp
  · simp [eq_comm (a := unrelated), (isRelated_iff.1 h).1]
  · simp [(isRelated_iff.1 h).1]

end Inclusion

namespace Ty

variable (o : Oracle)

/-- Whether comparisons of a type go on with another one in the same direction only: an element, a
slot, source or target, the body of a generic with nothing bound, or the instance of a bound one.
Records, variants and sums are not among them, since they look at their parts in both directions. -/
inductive Leads : Ty → Ty → Prop
  | element {t e size} (ht : t.kind = .array e size) : Leads t e
  | slot {t slots s} (ht : t.kind = .tuple slots) (hs : s ∈ slots) : Leads t s
  | source {t s u} (ht : t.kind = .map s u) : Leads t s
  | target {t s u} (ht : t.kind = .map s u) : Leads t u
  | body {t ref inner vars bindings} (ht : t.kind = .generic ref inner vars bindings)
    (unbound : isBound vars bindings = false) : Leads t inner
  | unfold {t s} (hs : t.Unfolds o s) : Leads t s

variable {o} {a b s t : Ty}

/-! ## Plain types of one kind -/

open Inquiry

theorem answer_slotsRelate_mirrors {P : Prop} {as bs : List Ty} {soFar back : Inclusion}
    (start : Inclusion.Mirrors P soFar back)
    (h : ∀ x ∈ as, ∀ y ∈ bs, Inclusion.Mirrors P (o.compare x y) (o.compare y x)) :
    Inclusion.Mirrors P ((slotsRelate soFar as bs).answer o)
      ((slotsRelate back bs as).answer o) := by
  induction as generalizing bs soFar back with
  | nil => cases bs <;> exact start
  | cons a as ih =>
    cases bs with
    | nil => exact start
    | cons b bs =>
      rw [slotsRelate, slotsRelate, answer_bind, answer_bind, answer_relate, answer_relate]
      refine ih (start.meet (h a List.mem_cons_self b List.mem_cons_self)) ?_
      intro x hx y hy
      exact h x (List.mem_cons_of_mem _ hx) y (List.mem_cons_of_mem _ hy)

section Tags

variable {tags tags' : List Tag} (nodup : (tags.map (·.id)).Nodup)
  (nodup' : (tags'.map (·.id)).Nodup)
include nodup

/-- Of equally many tags, each has one of its name on the other side if each there has. -/
theorem isSome_tag?_symm (count : tags.length = tags'.length)
    (h : ∀ t ∈ tags, (tag? tags' t.id).isSome = true) :
    ∀ t ∈ tags', (tag? tags t.id).isSome = true := by
  have sub : tags.map (·.id) ⊆ tags'.map (·.id) := by
    intro id hid
    obtain ⟨t, ht, rfl⟩ := List.mem_map.1 hid
    exact isSome_tag?.1 (h t ht)
  have perm := (nodup.subperm sub).perm_of_length_le (by simp [count])
  intro t ht
  exact isSome_tag?.2 (perm.mem_iff.2 (List.mem_map_of_mem ht))

include nodup'

/-- Going through the tags of one side or of the other meets the same pairs. -/
theorem forall_tag?_comm {G : Tag → Tag → Prop} :
    (∀ t ∈ tags, ∀ t', tag? tags' t.id = some t' → G t t') ↔
      ∀ t' ∈ tags', ∀ t, tag? tags t'.id = some t → G t t' := by
  constructor
  · intro h t' ht' t found
    have named : t.id = t'.id := by simpa using List.find?_some found
    exact h t (List.mem_of_find?_eq_some found) t' (named ▸ tag?_eq_of_mem nodup' ht')
  · intro h t ht t' found
    have named : t'.id = t.id := by simpa using List.find?_some found
    exact h t' (List.mem_of_find?_eq_some found) t (named ▸ tag?_eq_of_mem nodup ht)

end Tags

theorem answer_tagsFit {fields others : List (Ident × Ty)} {tags theirs : List Tag} :
    (tagsFit fields others theirs tags).answer o =
      (tags.all fun t => (fieldsFit (tagFields fields t)
          (((tag? theirs t.id).map (tagFields others)).getD [])).answer o,
        tags.all fun t => (fieldsFit (((tag? theirs t.id).map (tagFields others)).getD [])
          (tagFields fields t)).answer o) := by
  induction tags with
  | nil => rfl
  | cons t tags ih => simp [tagsFit, ih]

/-- A property of each tag and the fields of its counterpart, where each tag has one. -/
theorem forall_counterpart {tags theirs : List Tag} {others : List (Ident × Ty)}
    (h : ∀ t ∈ tags, (tag? theirs t.id).isSome = true) {H : Tag → List (Ident × Ty) → Prop} :
    (∀ t ∈ tags, H t (((tag? theirs t.id).map (tagFields others)).getD [])) ↔
      ∀ t ∈ tags, ∀ t', tag? theirs t.id = some t' → H t (tagFields others t') := by
  refine forall₂_congr ?_
  intro t ht
  obtain ⟨t', found⟩ := Option.isSome_iff_exists.1 (h t ht)
  simp [found]

/-- Tags with a counterpart each fit in one direction as they do in the other. -/
theorem answer_tagsFit_swap {fs gs : List (Ident × Ty)} {tags tags' : List Tag}
    (nodup : (tags.map (·.id)).Nodup) (nodup' : (tags'.map (·.id)).Nodup)
    (h : ∀ t ∈ tags, (tag? tags' t.id).isSome = true)
    (h' : ∀ t ∈ tags', (tag? tags t.id).isSome = true) :
    (tagsFit gs fs tags tags').answer o = ((tagsFit fs gs tags' tags).answer o).swap := by
  rw [answer_tagsFit, answer_tagsFit, Prod.swap_prod_mk, Prod.mk.injEq]
  constructor
  · rw [Bool.eq_iff_iff, List.all_eq_true, List.all_eq_true]
    rw [forall_counterpart h' (H := fun t fields =>
        (fieldsFit (tagFields gs t) fields).answer o = true),
      forall_counterpart h (H := fun t fields =>
        (fieldsFit fields (tagFields fs t)).answer o = true)]
    exact (forall_tag?_comm nodup nodup').symm
  · rw [Bool.eq_iff_iff, List.all_eq_true, List.all_eq_true]
    rw [forall_counterpart h' (H := fun t fields =>
        (fieldsFit fields (tagFields gs t)).answer o = true),
      forall_counterpart h (H := fun t fields =>
        (fieldsFit (tagFields fs t) fields).answer o = true)]
    exact (forall_tag?_comm nodup nodup').symm

/-- Opinions about each other: both types have one or neither, and then they mirror each other. -/
def OpinionsMirror (o : Oracle) (P : Prop) (a b : Ty) : Prop :=
  Option.Rel (Inclusion.Mirrors P) ((opinion a b).answer o) ((opinion b a).answer o)

theorem opinionsMirror_variant {P : Prop} {fs gs : List (Ident × Ty)} {tags tags' : List Tag}
    {initial initial' : Tag} (ha : a.kind = .variant fs tags initial)
    (hb : b.kind = .variant gs tags' initial') (nodup : (tags.map (·.id)).Nodup)
    (nodup' : (tags'.map (·.id)).Nodup) : OpinionsMirror o P a b := by
  by_cases h : tags.length = tags'.length ∧ ∀ t ∈ tags, (tag? tags' t.id).isSome = true
  · have h' : tags'.length = tags.length ∧ ∀ t ∈ tags', (tag? tags t.id).isSome = true :=
      ⟨h.1.symm, isSome_tag?_symm nodup h.1 h.2⟩
    simp only [OpinionsMirror, opinion, ha, hb, List.all_eq_true, if_pos h, if_pos h', answer_bind,
      answer_pure, answer_tagsFit_swap nodup nodup' h.2 h'.2]
    exact .some (Inclusion.mirrors_ofBoth _ _)
  · have h' : ¬ (tags'.length = tags.length ∧ ∀ t ∈ tags', (tag? tags t.id).isSome = true) :=
      fun h' => h ⟨h'.1.symm, isSome_tag?_symm nodup' h'.1 h'.2⟩
    simp only [OpinionsMirror, opinion, ha, hb, List.all_eq_true, if_neg h, if_neg h', answer_pure]
    exact .some Inclusion.mirrors_unrelated

theorem opinionsMirror_tuple {P : Prop} {xs ys : List Ty} (ha : a.kind = .tuple xs)
    (hb : b.kind = .tuple ys)
    (law : ∀ x ∈ xs, ∀ y ∈ ys, Inclusion.Mirrors P (o.compare x y) (o.compare y x)) :
    OpinionsMirror o P a b := by
  by_cases count : xs.length = ys.length
  · simp only [OpinionsMirror, opinion, ha, hb, if_pos count, if_pos count.symm, answer_map]
    exact .some (answer_slotsRelate_mirrors Inclusion.mirrors_equivalent law)
  · have count' : ¬ ys.length = xs.length := by
      intro h
      exact count h.symm
    simp only [OpinionsMirror, opinion, ha, hb, if_neg count, if_neg count', answer_pure]
    exact .some Inclusion.mirrors_unrelated

/-- The opinions of plain types mirror each other if the comparisons of what they lead to do. -/
theorem opinionsMirror {P : Prop} (fa : a.kind.Formed) (fb : b.kind.Formed) (pa : a.IsPlain)
    (pb : b.IsPlain)
    (law : ∀ x y, a.Leads o x → b.Leads o y →
      Inclusion.Mirrors P (o.compare x y) (o.compare y x)) :
    OpinionsMirror o P a b := by
  obtain ⟨x, given⟩ : ∃ x, opinion a b = x := ⟨_, rfl⟩
  have whole := given
  rw [opinion] at given
  split at given
  · rename_i ha hb
    simpa [OpinionsMirror, opinion, ha, hb] using Inclusion.mirrors_equivalent
  · rename_i ha hb
    simpa [OpinionsMirror, opinion, ha, hb] using Inclusion.mirrors_equivalent
  · rename_i r s ha hb
    simpa [OpinionsMirror, opinion, ha, hb, IntRange.compare] using
      Inclusion.mirrors_ofBoth _ _
  · rename_i r s ha hb
    simpa [OpinionsMirror, opinion, ha, hb, RationalRange.compare] using
      Inclusion.mirrors_ofBoth _ _
  · rename_i e f ha hb
    simpa [OpinionsMirror, opinion, ha, hb, Enumeration.compare] using
      Inclusion.mirrors_ofBoth _ _
  · rename_i fs gs ha hb
    simpa [OpinionsMirror, opinion, ha, hb] using Inclusion.mirrors_ofBoth _ _
  · rename_i fs tags _ gs tags' _ ha hb
    rw [ha] at fa
    rw [hb] at fb
    exact opinionsMirror_variant ha hb fa.tags_nodup fb.tags_nodup
  · rename_i e _ f _ ha hb
    simpa [OpinionsMirror, opinion, ha, hb] using law e f (.element ha) (.element hb)
  · rename_i xs _ ys _ ha hb
    simpa [OpinionsMirror, opinion, ha, hb] using Inclusion.mirrors_ofBoth _ _
  · rename_i xs ys ha hb
    exact opinionsMirror_tuple ha hb fun x hx y hy => law x y (.slot ha hx) (.slot hb hy)
  · rename_i s t s' t' ha hb
    rw [OpinionsMirror, answer_opinion_map ha hb, answer_opinion_map hb ha]
    exact .some ((law s s' (.source ha) (.source hb)).guard (law t t' (.target ha) (.target hb)))
  · rename_i ha
    simp [IsPlain, ha] at pa
  · rename_i ha hb
    simp [IsPlain, ha] at pa
  · rename_i ha hb
    simp [IsPlain, ha] at pa
  · -- types of different kinds: the second has no opinion either
    have none' : (opinion b a).answer o = none := by
      rw [IsPlain] at pb
      rw [opinion]
      split <;> first | rfl | grind
    rw [OpinionsMirror, none', whole, ← given]
    exact .none

/-- Opinions that mirror each other are all that counts. -/
theorem OpinionsMirror.judge {P : Prop} (h : OpinionsMirror o P a b) :
    Inclusion.Mirrors P ((Ty.judge a b).answer o) ((Ty.judge b a).answer o) := by
  rw [OpinionsMirror] at h
  generalize ha : (opinion a b).answer o = x at h
  generalize hb : (opinion b a).answer o = y at h
  cases h with
  | none =>
    rw [answer_judge_of_none ha, answer_judge_of_none hb, ha, hb]
    exact Inclusion.mirrors_unrelated
  | some h =>
    rw [answer_judge_of_some ha, answer_judge_of_some hb]
    exact h

end Ty

end TypedTree
