import TypedTree.Proofs.Subtypes

/-!
# Comparing what differs in its parts only

Two pairs of types whose kinds differ in their parts only are judged alike: if the answers for the
parts of the first pair claim no more than those for the second, so does the answer for the first
pair, and if they are the same, it is the same. The two pairs may be asked about in two places, as
long as the same references have a type in both. So the rules never turn less that is known about
parts into more that is known about the whole.

## Main definitions

* `Inclusion.Approximates`: an answer that claims no more than another one.

## Main statements

* `Ty.approximates_judge`: what the rules make of such answers.
-/

namespace TypedTree

namespace Inclusion

/-- Whether one answer claims no inclusion that another one does not claim, and is the same if
`exact`. Neither is `disjoint`, which is for types that could not be built. -/
structure Approximates (exact : Prop) (x y : Inclusion) : Prop where
  proper : x ≠ .disjoint
  proper' : y ≠ .disjoint
  subtype : x.isSubtype = true → y.isSubtype = true
  supertype : x.isSupertype = true → y.isSupertype = true
  same : exact → x = y

variable {exact : Prop} {x y x' y' : Inclusion}

@[simp] theorem isSubtype_reverse (x : Inclusion) : x.reverse.isSubtype = x.isSupertype := by
  cases x <;> rfl

@[simp] theorem isSupertype_reverse (x : Inclusion) : x.reverse.isSupertype = x.isSubtype := by
  cases x <;> rfl

@[simp] theorem isSupertype_ofBoth (down up : Bool) : (ofBoth down up).isSupertype = up := by
  cases down <;> cases up <;> rfl

@[simp] theorem isSupertype_meet : (x.meet y).isSupertype = (x.isSupertype && y.isSupertype) := by
  cases x <;> cases y <;> rfl

theorem approximates_refl (h : x ≠ .disjoint) : Approximates exact x x :=
  ⟨h, h, id, id, fun _ => rfl⟩

theorem approximates_unrelated : Approximates exact .unrelated .unrelated :=
  approximates_refl (by decide)

/-- All answers claim no more than equivalence. -/
theorem approximates_equivalent (h : x ≠ .disjoint) (same : exact → x = .equivalent) :
    Approximates exact x .equivalent :=
  ⟨h, by decide, fun _ => rfl, fun _ => rfl, same⟩

theorem Approximates.imp {exact' : Prop} (h : Approximates exact x y) (less : exact' → exact) :
    Approximates exact' x y :=
  { h with same := fun e => h.same (less e) }

theorem Approximates.reverse (h : Approximates exact x y) :
    Approximates exact x.reverse y.reverse where
  proper := by simpa using h.proper
  proper' := by simpa using h.proper'
  subtype := by simpa using h.supertype
  supertype := by simpa using h.subtype
  same e := by rw [h.same e]

theorem Approximates.meet (h : Approximates exact x y) (h' : Approximates exact x' y') :
    Approximates exact (x.meet x') (y.meet y') where
  proper := meet_ne_disjoint h.proper h'.proper
  proper' := meet_ne_disjoint h.proper' h'.proper'
  subtype := by simpa using fun a b => ⟨h.subtype a, h'.subtype b⟩
  supertype := by simpa using fun a b => ⟨h.supertype a, h'.supertype b⟩
  same e := by rw [h.same e, h'.same e]

theorem Approximates.isRelated (h : Approximates exact x y) (related : x.isRelated = true) :
    y.isRelated = true := by
  rw [Inclusion.isRelated, Bool.or_eq_true] at related ⊢
  exact related.imp h.subtype h.supertype

/-- Answers that count only where others find a relation. -/
theorem Approximates.guard (h : Approximates exact x y) (h' : Approximates exact x' y') :
    Approximates exact (if x.isRelated = true then x' else .unrelated)
      (if y.isRelated = true then y' else .unrelated) := by
  by_cases related : x.isRelated = true
  · rw [if_pos related, if_pos (h.isRelated related)]
    exact h'
  · rw [if_neg related]
    by_cases related' : y.isRelated = true
    · rw [if_pos related']
      refine ⟨by decide, h'.proper', nofun, nofun, ?_⟩
      intro e
      exact absurd (h.same e ▸ related') related
    · rw [if_neg related']
      exact approximates_unrelated

end Inclusion

/-! ## Conditions -/

/-- Whether a condition is met only if another one is, and just then if `exact`. -/
def Approaches (exact : Prop) (p q : Bool) : Prop :=
  (p = true → q = true) ∧ (exact → p = q)

section Approaches

variable {exact : Prop} {p q p' q' : Bool} {α : Type} {l : List α} {u v : α → Bool}

theorem approaches_refl : Approaches exact p p := ⟨id, fun _ => rfl⟩

theorem approaches_all (h : ∀ a ∈ l, Approaches exact (u a) (v a)) :
    Approaches exact (l.all u) (l.all v) := by
  constructor
  · simp only [List.all_eq_true]
    exact fun all a ha => (h a ha).1 (all a ha)
  · intro e
    rw [Bool.eq_iff_iff, List.all_eq_true, List.all_eq_true]
    exact forall₂_congr fun a ha => by rw [(h a ha).2 e]

theorem approaches_any (h : ∀ a ∈ l, Approaches exact (u a) (v a)) :
    Approaches exact (l.any u) (l.any v) := by
  constructor
  · simp only [List.any_eq_true]
    rintro ⟨a, ha, met⟩
    exact ⟨a, ha, (h a ha).1 met⟩
  · intro e
    rw [Bool.eq_iff_iff, List.any_eq_true, List.any_eq_true]
    exact exists_congr fun a => and_congr_right fun ha => by rw [(h a ha).2 e]

theorem Approaches.ofBoth (h : Approaches exact p q) (h' : Approaches exact p' q') :
    Inclusion.Approximates exact (.ofBoth p p') (.ofBoth q q') where
  proper := Inclusion.ofBoth_ne_disjoint p p'
  proper' := Inclusion.ofBoth_ne_disjoint q q'
  subtype := by simpa using h.1
  supertype := by simpa using h'.1
  same e := by rw [h.2 e, h'.2 e]

end Approaches

namespace Ty

open Inquiry

variable {o o' : Oracle} {exact : Prop} {f g : Ty → Ty} {a a' b b' s t x y x' y' : Ty}

/-! ## The sort of a type with other parts -/

section Sorts

variable (ka : a'.kind = a.kind.mapParts f)
include ka

theorem unfolds_mapParts : a'.Unfolds o s ↔ a.Unfolds o s := by
  simp only [Unfolds, ka]
  cases a.kind <;> simp [Kind.mapParts, isBound, Function.comp_def]

theorem isBound_mapParts : a'.IsBound ↔ a.IsBound := by
  simp only [IsBound, ka]
  cases a.kind <;> simp [Kind.mapParts, isBound]

theorem isOpen_mapParts : a'.IsOpen ↔ a.IsOpen := by
  simp only [IsOpen, ka]
  cases a.kind <;> simp [Kind.mapParts, isBound]

theorem isVar_mapParts : a'.IsVar ↔ a.IsVar := by
  simp only [IsVar, ka]
  cases a.kind <;> simp [Kind.mapParts]

theorem isPlain_mapParts : a'.IsPlain ↔ a.IsPlain := by
  simp only [IsPlain, ka]
  cases a.kind <;> rfl

/-- If the same references have a type, the same bound generics have an instance. -/
theorem exists_unfolds_mapParts
    (same : ∀ ref, (∃ s, o'.resolve ref = .ok s) ↔ ∃ s, o.resolve ref = .ok s) :
    (∃ s, a'.Unfolds o' s) ↔ ∃ s, a.Unfolds o s := by
  simp only [unfolds_mapParts ka, unfolds_iff, @exists_comm Ty, exists_and_left, same]

theorem stuck_mapParts
    (same : ∀ ref, (∃ s, o'.resolve ref = .ok s) ↔ ∃ s, o.resolve ref = .ok s) :
    a'.Stuck o' ↔ a.Stuck o := by
  simp only [Stuck, ← not_exists, exists_unfolds_mapParts ka same, isBound_mapParts ka]

end Sorts

/-! ## The pieces of the rules -/

theorem approaches_isBelow (h : (o'.compare x' y').Approximates exact (o.compare x y)) :
    Approaches exact ((isBelow x' y').answer o') ((isBelow x y).answer o) := by
  simp only [isBelow, answer_bind, answer_relate, answer_pure]
  exact ⟨h.subtype, fun e => by rw [h.same e]⟩

theorem approaches_recordFits {fs gs : List (Field Ty)}
    (h : ∀ x ∈ fs, ∀ y ∈ gs,
      (o'.compare (f x.type) (g y.type)).Approximates exact (o.compare x.type y.type)) :
    Approaches exact
      ((recordFits (fs.map fun d => ⟨d.id, f d.type, d.optional⟩)
        (gs.map fun d => ⟨d.id, g d.type, d.optional⟩)).answer o')
      ((recordFits fs gs).answer o) := by
  simp only [recordFits, answer_all, List.all_map, List.find?_map, Function.comp_def]
  refine approaches_all fun y hy => ?_
  cases found : fs.find? (·.id == y.id) with
  | none => exact approaches_refl
  | some x =>
    have below := h x (List.mem_of_find?_eq_some found) y hy
    simp only [Option.map_some, answer_ite]
    split
    · exact approaches_isBelow below
    · exact approaches_refl

theorem approaches_fieldsFit {mine want : List (Ident × Ty)}
    (h : ∀ x ∈ mine, ∀ y ∈ want,
      (o'.compare (f x.2) (g y.2)).Approximates exact (o.compare x.2 y.2)) :
    Approaches exact
      ((fieldsFit (mine.map fun d => (d.1, f d.2)) (want.map fun d => (d.1, g d.2))).answer o')
      ((fieldsFit mine want).answer o) := by
  simp only [fieldsFit, answer_all, List.all_map, List.find?_map, Function.comp_def]
  refine approaches_all fun y hy => ?_
  cases found : mine.find? (·.1 == y.1) with
  | none => exact approaches_refl
  | some x => exact approaches_isBelow (h x (List.mem_of_find?_eq_some found) y hy)

theorem tagFields_map {fields : List (Ident × Ty)} {tag : Tag} :
    tagFields (fields.map fun d => (d.1, f d.2)) tag =
      (tagFields fields tag).map fun d => (d.1, f d.2) := by
  simp [tagFields, List.map_filterMap]

theorem approaches_covered {xs ys : List Ty}
    (h : ∀ x ∈ xs, ∀ y ∈ ys, (o'.compare (f x) (g y)).Approximates exact (o.compare x y)) :
    Approaches exact ((covered (xs.map f) (ys.map g)).answer o') ((covered xs ys).answer o) := by
  simp only [covered, answer_all, answer_any, List.all_map, List.any_map, Function.comp_def]
  exact approaches_all fun x hx => approaches_any fun y hy => approaches_isBelow (h x hx y hy)

theorem approximates_slotsRelate {xs ys : List Ty} {soFar soFar' : Inclusion}
    (start : soFar'.Approximates exact soFar)
    (h : ∀ x ∈ xs, ∀ y ∈ ys, (o'.compare (f x) (g y)).Approximates exact (o.compare x y)) :
    ((slotsRelate soFar' (xs.map f) (ys.map g)).answer o').Approximates exact
      ((slotsRelate soFar xs ys).answer o) := by
  induction xs generalizing ys soFar soFar' with
  | nil => exact start
  | cons x xs ih =>
    cases ys with
    | nil => exact start
    | cons y ys =>
      simp only [List.map_cons, slotsRelate, answer_bind, answer_relate]
      refine ih (start.meet (h x List.mem_cons_self y List.mem_cons_self)) ?_
      intro x hx y hy
      exact h x (List.mem_cons_of_mem _ hx) y (List.mem_cons_of_mem _ hy)

/-! ## Opinions -/

/-- Whether the opinion of one type about another is one that claims no more than that of a third
about a fourth, or there is neither. -/
def OpinionsApproximate (o' o : Oracle) (exact : Prop) (a' b' a b : Ty) : Prop :=
  Option.Rel (Inclusion.Approximates exact) ((opinion a' b').answer o') ((opinion a b).answer o)

theorem opinionsApproximate_variant {fs gs : List (Ident × Ty)} {tags tags' : List Tag}
    {initial initial' : Tag} (ha : a.kind = .variant fs tags initial)
    (hb : b.kind = .variant gs tags' initial') (ka : a'.kind = a.kind.mapParts f)
    (kb : b'.kind = b.kind.mapParts g)
    (parts : ∀ x ∈ fs, ∀ y ∈ gs,
      (o'.compare (f x.2) (g y.2)).Approximates exact (o.compare x.2 y.2) ∧
        (o'.compare (g y.2) (f x.2)).Approximates exact (o.compare y.2 x.2)) :
    OpinionsApproximate o' o exact a' b' a b := by
  rw [ha, Kind.mapParts] at ka
  rw [hb, Kind.mapParts] at kb
  by_cases h : tags.length = tags'.length ∧ tags.all (fun t => (tag? tags' t.id).isSome) = true
  · have counterpart (t : Tag) : (((tag? tags' t.id).map
        (tagFields (gs.map fun d => (d.1, g d.2)))).getD []) =
        (((tag? tags' t.id).map (tagFields gs)).getD []).map fun d => (d.1, g d.2) := by
      cases tag? tags' t.id <;> simp [tagFields_map]
    have listed {t : Tag} : ∀ y ∈ ((tag? tags' t.id).map (tagFields gs)).getD [], y ∈ gs := by
      cases tag? tags' t.id with
      | none => simp
      | some d => exact fun y hy => mem_of_mem_tagFields hy
    simp only [OpinionsApproximate, opinion, ha, hb, ka, kb, if_pos h, answer_bind, answer_pure,
      answer_tagsFit, tagFields_map, counterpart]
    refine .some (Approaches.ofBoth (approaches_all fun t _ => ?_) (approaches_all fun t _ => ?_))
    · refine approaches_fieldsFit fun x hx y hy => ?_
      exact (parts x (mem_of_mem_tagFields hx) y (listed y hy)).1
    · refine approaches_fieldsFit fun y hy x hx => ?_
      exact (parts x (mem_of_mem_tagFields hx) y (listed y hy)).2
  · simp only [OpinionsApproximate, opinion, ha, hb, ka, kb, if_neg h, answer_pure]
    exact .some Inclusion.approximates_unrelated

/-- Plain types look at their parts only. -/
theorem opinionsApproximate_plain (pa : a.IsPlain) (pb : b.IsPlain)
    (ka : a'.kind = a.kind.mapParts f) (kb : b'.kind = b.kind.mapParts g)
    (parts : ∀ x ∈ a.kind.parts, ∀ y ∈ b.kind.parts,
      (o'.compare (f x) (g y)).Approximates exact (o.compare x y) ∧
        (o'.compare (g y) (f x)).Approximates exact (o.compare y x)) :
    OpinionsApproximate o' o exact a' b' a b := by
  obtain ⟨_, _, _, k⟩ := a
  obtain ⟨_, _, _, l⟩ := b
  obtain ⟨_, _, _, _⟩ := a'
  obtain ⟨_, _, _, _⟩ := b'
  obtain rfl := ka
  obtain rfl := kb
  -- types of different kinds have no opinion about each other
  cases k with
  | generic | var => exact pa.elim
  | failure => cases l <;> exact .none
  | bool =>
    cases l with
    | bool => exact .some (Inclusion.approximates_refl (by decide))
    | _ => exact .none
  | text =>
    cases l with
    | text => exact .some (Inclusion.approximates_refl (by decide))
    | _ => exact .none
  | int r =>
    cases l with
    | int s => exact .some (Inclusion.approximates_refl (Inclusion.ofBoth_ne_disjoint _ _))
    | _ => exact .none
  | rational r =>
    cases l with
    | rational s => exact .some (Inclusion.approximates_refl (Inclusion.ofBoth_ne_disjoint _ _))
    | _ => exact .none
  | enumeration e =>
    cases l with
    | enumeration e' =>
      exact .some (Inclusion.approximates_refl (Inclusion.ofBoth_ne_disjoint _ _))
    | _ => exact .none
  | record fs =>
    cases l with
    | record gs =>
      simp only [Kind.parts, List.forall_mem_map] at parts
      simp only [OpinionsApproximate, opinion, Kind.mapParts, answer_bind, answer_pure]
      refine .some (Approaches.ofBoth (approaches_recordFits ?_) (approaches_recordFits ?_))
      · exact fun x hx y hy => (parts x hx y hy).1
      · exact fun y hy x hx => (parts x hx y hy).2
    | _ => exact .none
  | variant fs tags initial =>
    cases l with
    | variant gs tags' initial' =>
      simp only [Kind.parts, List.forall_mem_map] at parts
      exact opinionsApproximate_variant rfl rfl rfl rfl parts
    | _ => exact .none
  | array e size =>
    cases l with
    | array e' size' => exact .some (parts e List.mem_cons_self e' List.mem_cons_self).1
    | _ => exact .none
  | sum xs initial =>
    cases l with
    | sum ys initial' =>
      simp only [OpinionsApproximate, opinion, Kind.mapParts, answer_bind, answer_pure]
      refine .some (Approaches.ofBoth (approaches_covered ?_) (approaches_covered ?_))
      · exact fun x hx y hy => (parts x hx y hy).1
      · exact fun y hy x hx => (parts x hx y hy).2
    | _ => exact .none
  | tuple xs =>
    cases l with
    | tuple ys =>
      simp only [OpinionsApproximate, opinion, Kind.mapParts, List.length_map]
      split
      · rw [answer_map, answer_map]
        refine .some (approximates_slotsRelate (Inclusion.approximates_refl (by decide)) ?_)
        exact fun x hx y hy => (parts x hx y hy).1
      · exact .some Inclusion.approximates_unrelated
    | _ => exact .none
  | map s t =>
    cases l with
    | map s' t' =>
      have sources := (parts s (by simp [Kind.parts]) s' (by simp [Kind.parts])).1
      have targets := (parts t (by simp [Kind.parts]) t' (by simp [Kind.parts])).1
      rw [OpinionsApproximate, answer_opinion_map rfl rfl, answer_opinion_map rfl rfl]
      exact .some (sources.guard targets)
    | _ => exact .none

/-- An opinion claims no more if no more is claimed for what it is asked about: parts on both sides
where both are looked at, and instances. -/
theorem opinionsApproximate (ka : a'.kind = a.kind.mapParts f) (kb : b'.kind = b.kind.mapParts g)
    (parts : ¬ a.IsBound → ¬ b.IsBound → ∀ x ∈ a.kind.parts, ∀ y ∈ b.kind.parts,
      (o'.compare (f x) (g y)).Approximates exact (o.compare x y) ∧
        (o'.compare (g y) (f x)).Approximates exact (o.compare y x))
    (same : ∀ ref, (∃ s, o'.resolve ref = .ok s) ↔ ∃ s, o.resolve ref = .ok s)
    (left : ∀ s s', a.Unfolds o s → a'.Unfolds o' s' →
      (o'.compare s' b').Approximates exact (o.compare s b))
    (right : ∀ t t', b.Unfolds o t → b'.Unfolds o' t' →
      (o'.compare a' t').Approximates exact (o.compare a t)) :
    OpinionsApproximate o' o exact a' b' a b := by
  obtain ⟨s, hs⟩ | stuck | opened | var | plain := a.sorts o
  · obtain ⟨s', hs'⟩ := (exists_unfolds_mapParts ka same).2 ⟨s, hs⟩
    rw [OpinionsApproximate, answer_opinion_unfold hs, answer_opinion_unfold hs']
    exact .some (left s s' hs hs')
  · rw [OpinionsApproximate, answer_opinion_stuck stuck,
      answer_opinion_stuck ((stuck_mapParts ka same).2 stuck)]
    exact .some Inclusion.approximates_unrelated
  · have opened' := (isOpen_mapParts ka).2 opened
    obtain ⟨t, ht⟩ | stuck | other | other := b.sorts o
    · obtain ⟨t', ht'⟩ := (exists_unfolds_mapParts kb same).2 ⟨t, ht⟩
      rw [OpinionsApproximate, answer_opinion_open_unfold opened ht,
        answer_opinion_open_unfold opened' ht']
      exact .some (right t t' ht ht')
    · rw [OpinionsApproximate, answer_opinion_open_stuck opened stuck,
        answer_opinion_open_stuck opened' ((stuck_mapParts kb same).2 stuck)]
      exact .some Inclusion.approximates_unrelated
    · have bodies := parts (fun bound => bound.not_isOpen opened)
        fun bound => bound.not_isOpen other
      obtain ⟨_, inner, vars, _, ha, unbound⟩ := opened
      obtain ⟨_, inner', vars', _, hb, unbound'⟩ := other
      simp only [ha, hb, Kind.parts] at bodies
      rw [ha, Kind.mapParts] at ka
      rw [hb, Kind.mapParts] at kb
      rw [OpinionsApproximate, answer_opinion_open_open ha unbound hb unbound',
        answer_opinion_open_open ka (by simpa [isBound] using unbound) kb
          (by simpa [isBound] using unbound')]
      by_cases count : vars = vars'
      · rw [if_pos count, if_pos count]
        exact .some (bodies inner List.mem_cons_self inner' List.mem_cons_self).1
      · rw [if_neg count, if_neg count]
        exact .some Inclusion.approximates_unrelated
    · have other' := other.imp (isVar_mapParts kb).2 (isPlain_mapParts kb).2
      rw [OpinionsApproximate, answer_opinion_open opened other,
        answer_opinion_open opened' other']
      exact .some Inclusion.approximates_unrelated
  · by_cases other : b.IsVar
    · obtain ⟨v, ha⟩ := var
      obtain ⟨w, hb⟩ := other
      rw [ha, Kind.mapParts] at ka
      rw [hb, Kind.mapParts] at kb
      rw [OpinionsApproximate, answer_opinion_var_var ha hb, answer_opinion_var_var ka kb]
      exact .some (Inclusion.approximates_refl (by split <;> decide))
    · rw [OpinionsApproximate, answer_opinion_var var other,
        answer_opinion_var ((isVar_mapParts ka).2 var) (mt (isVar_mapParts kb).1 other)]
      exact .some Inclusion.approximates_unrelated
  · by_cases other : b.IsPlain
    · exact opinionsApproximate_plain plain other ka kb
        (parts (fun bound => bound.not_isPlain plain) fun bound => bound.not_isPlain other)
    · rw [OpinionsApproximate, answer_opinion_plain plain other,
        answer_opinion_plain ((isPlain_mapParts ka).2 plain) (mt (isPlain_mapParts kb).1 other)]
      exact .none

/-- Opinions in both directions are all that counts. -/
theorem approximates_judge (h : OpinionsApproximate o' o exact a' b' a b)
    (back : OpinionsApproximate o' o exact b' a' b a) :
    ((judge a' b').answer o').Approximates exact ((judge a b).answer o) := by
  rw [OpinionsApproximate] at h back
  generalize ha : (opinion a b).answer o = x at h
  generalize ha' : (opinion a' b').answer o' = x' at h
  cases h with
  | some h =>
    rw [answer_judge_of_some ha, answer_judge_of_some ha']
    exact h
  | none =>
    rw [answer_judge_of_none ha, answer_judge_of_none ha']
    generalize (opinion b a).answer o = y at back
    generalize (opinion b' a').answer o' = y' at back
    cases back with
    | some back => exact back.reverse
    | none => exact Inclusion.approximates_unrelated

end Ty

end TypedTree
