import TypedTree.Proofs.Questions

/-!
# How types of the core registry compare

The rules of subtyping sort types into four sorts: generics with everything bound, which are replaced
by their instance; generics with nothing bound; variables; and all others, which are called plain
here. For each pair of sorts this module says what the comparison of two different types comes down
to.

## Main definitions

* `Ty.IsVar`, `Ty.IsPlain`: the sorts besides `Ty.IsBound` and `Ty.IsOpen`.
* `Ty.Stuck`: a bound generic without an instance.

## Main statements

* `Registry.compare_self`, `Registry.compare_of_apart`: the shortcuts.
* `Registry.compare_unfold`, `Registry.compare_plain_unfold`, …: the comparison by sorts.
-/

namespace TypedTree

namespace Inclusion

@[simp] theorem reverse_reverse (o : Inclusion) : o.reverse.reverse = o := by
  cases o <;> rfl

@[simp] theorem reverse_unrelated : reverse .unrelated = .unrelated := rfl

@[simp] theorem reverse_equivalent : reverse .equivalent = .equivalent := rfl

end Inclusion

namespace Ty

variable {o : Oracle} {a b s t : Ty}

/-! ## Sorts -/

/-- Whether a type is a variable. -/
def IsVar (t : Ty) : Prop :=
  ∃ v, t.kind = .var v

/-- Whether a type is neither a generic nor a variable. -/
def IsPlain (t : Ty) : Prop :=
  match t.kind with
  | .generic .. | .var _ => False
  | _ => True

/-- Whether a type is a bound generic without an instance. -/
def Stuck (o : Oracle) (t : Ty) : Prop :=
  t.IsBound ∧ ∀ s, ¬ t.Unfolds o s

theorem sorts (o : Oracle) (t : Ty) :
    (∃ s, t.Unfolds o s) ∨ t.Stuck o ∨ t.IsOpen ∨ t.IsVar ∨ t.IsPlain := by
  by_cases unfolds : ∃ s, t.Unfolds o s
  · exact .inl unfolds
  · refine .inr ?_
    rw [not_exists] at unfolds
    obtain ⟨home, ref, name, kind⟩ := t
    cases kind with
    | generic body inner vars bindings =>
      cases bound : isBound vars bindings with
      | true => exact .inl ⟨⟨body, inner, vars, bindings, rfl, bound⟩, unfolds⟩
      | false => exact .inr (.inl ⟨body, inner, vars, bindings, rfl, bound⟩)
    | var v => exact .inr (.inr (.inl ⟨v, rfl⟩))
    | _ => exact .inr (.inr (.inr trivial))

theorem Unfolds.unique (hs : t.Unfolds o s) {s' : Ty} (hs' : t.Unfolds o s') : s = s' := by
  obtain ⟨body, inner, vars, bindings, ht, -, own⟩ := hs
  obtain ⟨body', inner', vars', bindings', ht', -, own'⟩ := hs'
  obtain ⟨rfl, rfl, rfl, rfl⟩ := Kind.generic.inj (ht.symm.trans ht')
  exact own.unique own'

theorem Unfolds.isBound (hs : t.Unfolds o s) : t.IsBound := by
  obtain ⟨body, inner, vars, bindings, ht, bound, -⟩ := hs
  exact ⟨body, inner, vars, bindings, ht, bound⟩

theorem IsBound.not_isOpen (h : t.IsBound) : ¬ t.IsOpen := by
  rintro ⟨_, _, _, _, ht', open_⟩
  obtain ⟨_, _, _, _, ht, bound⟩ := h
  obtain ⟨rfl, rfl, rfl, rfl⟩ := Kind.generic.inj (ht.symm.trans ht')
  simp [bound] at open_

theorem IsBound.not_isVar (h : t.IsBound) : ¬ t.IsVar := by
  rintro ⟨v, ht'⟩
  obtain ⟨_, _, _, _, ht, -⟩ := h
  simp [ht] at ht'

theorem IsBound.not_isPlain (h : t.IsBound) : ¬ t.IsPlain := by
  obtain ⟨_, _, _, _, ht, -⟩ := h
  simp [IsPlain, ht]

theorem IsOpen.not_isVar (h : t.IsOpen) : ¬ t.IsVar := by
  rintro ⟨v, ht'⟩
  obtain ⟨_, _, _, _, ht, -⟩ := h
  simp [ht] at ht'

theorem IsOpen.not_isPlain (h : t.IsOpen) : ¬ t.IsPlain := by
  obtain ⟨_, _, _, _, ht, -⟩ := h
  simp [IsPlain, ht]

theorem IsVar.not_isPlain (h : t.IsVar) : ¬ t.IsPlain := by
  obtain ⟨v, ht⟩ := h
  simp [IsPlain, ht]

/-! ## Opinions -/

open Inquiry

theorem answer_withInstance {body : TypeRef} {vars : UInt32} {bindings : List (TypeRef × Ty)}
    {next : Ty → Inquiry Inclusion} (h : body.HasInstance o vars (bindings.map (·.1)) s) :
    (withInstance body vars bindings next).answer o = (next s).answer o := by
  have expanded : Inquiry.answer o (Attempt.expand body vars (bindings.map (·.1))).run = .ok s :=
    Attempt.answer_expand.2 h
  simp [withInstance, expanded]

theorem answer_withInstance_error {body : TypeRef} {vars : UInt32}
    {bindings : List (TypeRef × Ty)} {next : Ty → Inquiry Inclusion}
    (h : ∀ s, ¬ body.HasInstance o vars (bindings.map (·.1)) s) :
    (withInstance body vars bindings next).answer o = .unrelated := by
  have failed : ∀ s, Inquiry.answer o (Attempt.expand body vars (bindings.map (·.1))).run ≠ .ok s :=
    fun s hs => h s (Attempt.answer_expand.1 hs)
  rw [withInstance, answer_bind]
  split
  · exact absurd ‹_› (failed _)
  · rfl

/-- A bound generic thinks what its instance thinks. -/
theorem answer_opinion_unfold (hs : a.Unfolds o s) :
    (opinion a b).answer o = some (o.compare s b) := by
  obtain ⟨body, inner, vars, bindings, ha, bound, own⟩ := hs
  simp [opinion, ha, bound, answer_withInstance own]

theorem answer_opinion_stuck (h : a.Stuck o) : (opinion a b).answer o = some .unrelated := by
  obtain ⟨⟨body, inner, vars, bindings, ha, bound⟩, none⟩ := h
  have failed : ∀ s, ¬ body.HasInstance o vars (bindings.map (·.1)) s := by
    intro s own
    exact none s ⟨body, inner, vars, bindings, ha, bound, own⟩
  simp [opinion, ha, bound, answer_withInstance_error failed]

theorem answer_opinion_open_unfold (ha : a.IsOpen) (hs : b.Unfolds o s) :
    (opinion a b).answer o = some (o.compare a s) := by
  obtain ⟨_, _, _, _, ha, unbound⟩ := ha
  obtain ⟨body, inner, vars, bindings, hb, bound, own⟩ := hs
  simp [opinion, openGeneric, ha, unbound, hb, bound, answer_withInstance own]

theorem answer_opinion_open_stuck (ha : a.IsOpen) (hb : b.Stuck o) :
    (opinion a b).answer o = some .unrelated := by
  obtain ⟨_, _, _, _, ha, unbound⟩ := ha
  obtain ⟨⟨body, inner, vars, bindings, hb, bound⟩, none⟩ := hb
  have failed : ∀ s, ¬ body.HasInstance o vars (bindings.map (·.1)) s := by
    intro s own
    exact none s ⟨body, inner, vars, bindings, hb, bound, own⟩
  simp [opinion, openGeneric, ha, unbound, hb, bound, answer_withInstance_error failed]

theorem answer_opinion_open_open {body body' : TypeRef} {inner inner' : Ty} {vars vars' : UInt32}
    {bindings bindings' : List (TypeRef × Ty)} (ha : a.kind = .generic body inner vars bindings)
    (ha' : isBound vars bindings = false) (hb : b.kind = .generic body' inner' vars' bindings')
    (hb' : isBound vars' bindings' = false) :
    (opinion a b).answer o =
      some (if vars = vars' then o.compare inner inner' else .unrelated) := by
  simp only [opinion, ha, ha', Bool.false_eq_true, if_false, answer_map, openGeneric, hb, hb',
    answer_ite, answer_relate, answer_pure]

theorem answer_opinion_open (ha : a.IsOpen) (hb : b.IsVar ∨ b.IsPlain) :
    (opinion a b).answer o = some .unrelated := by
  obtain ⟨_, _, _, _, ha, unbound⟩ := ha
  cases hk : b.kind with
  | generic =>
    rcases hb with ⟨v, hv⟩ | hb
    · simp [hk] at hv
    · simp [IsPlain, hk] at hb
  | _ => simp [opinion, openGeneric, ha, unbound, hk]

theorem answer_opinion_var_var {v w : TypeVar} (ha : a.kind = .var v) (hb : b.kind = .var w) :
    (opinion a b).answer o = some (if v = w then .equivalent else .unrelated) := by
  simp [opinion, ha, hb]

theorem answer_opinion_var (ha : a.IsVar) (hb : ¬ b.IsVar) :
    (opinion a b).answer o = some .unrelated := by
  obtain ⟨v, ha⟩ := ha
  cases hk : b.kind with
  | var w => exact absurd ⟨w, hk⟩ hb
  | _ => simp [opinion, ha, hk]

/-- Mappings compare as their targets where their sources relate. -/
theorem answer_opinion_map {s' t' : Ty} (ha : a.kind = .map s t) (hb : b.kind = .map s' t') :
    (opinion a b).answer o =
      some (if (o.compare s s').isRelated = true then o.compare t t' else .unrelated) := by
  by_cases related : (o.compare s s').isRelated = true <;> simp [opinion, ha, hb, related]

/-- A plain type has no opinion about generics and variables. -/
theorem answer_opinion_plain (ha : a.IsPlain) (hb : ¬ b.IsPlain) :
    (opinion a b).answer o = none := by
  rw [IsPlain] at ha hb
  rw [opinion]
  split <;> simp_all

/-- The left opinion counts first. -/
theorem answer_judge_of_some {x : Inclusion} (h : (opinion a b).answer o = some x) :
    (judge a b).answer o = x := by
  simp [judge, h]

/-- Without one, the right opinion counts the other way round. -/
theorem answer_judge_of_none (h : (opinion a b).answer o = none) :
    (judge a b).answer o = (((opinion b a).answer o).map Inclusion.reverse).getD .unrelated := by
  rw [judge, answer_bind, h]
  cases h' : (opinion b a).answer o <;> simp [h']

end Ty

namespace Registry

variable {home : Nat} {a b s : Ty}

/-! ## Shortcuts -/

theorem eq_of_ref {r : Registry} (ha : r.Owns a) (hb : r.Owns b) (h : a.ref = b.ref) : a = b :=
  Except.ok.inj (ha.symm.trans (h ▸ hb))

theorem Forms.isFailure {r : Registry} (ha : r.Forms a) : a.isFailure = false := by
  have formed := ha.kind
  obtain ⟨_, ref, name, kind⟩ := a
  cases kind with
  | failure e => exact formed.elim
  | _ => rfl

/-- A type is equivalent to itself. -/
theorem compare_self (ha : (core home).Owns a) : (core home).compare a a = .equivalent := by
  have formed := forms_of_owns ha
  simp [compare_formed formed formed, Ty.shortcut?, formed.isFailure, Ty.sameInstance]

/-- Two types that are not one and the same compare as the rules say, whichever registries they come
from. -/
theorem compare_of_apart {r left right : Registry} (ha : left.Forms a) (hb : right.Forms b)
    (apart : a.sameInstance b = false) : r.compare a b = (a.judge b).answer r.oracle := by
  simp [compare_formed ha hb, Ty.shortcut?, ha.isFailure, hb.isFailure, apart]

/-- Two different types compare as the rules say. -/
theorem compare_of_ne (ha : (core home).Owns a) (hb : (core home).Owns b) (hne : a ≠ b) :
    (core home).compare a b = (a.judge b).answer (core home).oracle := by
  refine compare_of_apart (forms_of_owns ha) (forms_of_owns hb) ?_
  simp only [Ty.sameInstance, Bool.and_eq_false_iff, beq_eq_false_iff_ne]
  exact .inr fun same => hne (eq_of_ref ha hb same)

theorem oracle_compare (x y : Ty) : (core home).oracle.compare x y = (core home).compare x y := by
  rw [oracle_eq]

/-! ## Sort by sort -/

section Sorts

variable (ha : (core home).Owns a) (hb : (core home).Owns b) (hne : a ≠ b)
include ha hb hne

/-- A bound generic compares as its instance. -/
theorem compare_unfold (hs : a.Unfolds (core home).oracle s) :
    (core home).compare a b = (core home).compare s b := by
  rw [compare_of_ne ha hb hne, Ty.answer_judge_of_some (Ty.answer_opinion_unfold hs),
    oracle_compare]

/-- A bound generic without an instance is unrelated to all other types. -/
theorem compare_stuck (h : a.Stuck (core home).oracle) :
    (core home).compare a b = .unrelated := by
  rw [compare_of_ne ha hb hne, Ty.answer_judge_of_some (Ty.answer_opinion_stuck h)]

/-- A generic with nothing bound compares to the instance of a bound one. -/
theorem compare_open_unfold (open_ : a.IsOpen) (hs : b.Unfolds (core home).oracle s) :
    (core home).compare a b = (core home).compare a s := by
  rw [compare_of_ne ha hb hne, Ty.answer_judge_of_some (Ty.answer_opinion_open_unfold open_ hs),
    oracle_compare]

theorem compare_open_stuck (open_ : a.IsOpen) (h : b.Stuck (core home).oracle) :
    (core home).compare a b = .unrelated := by
  rw [compare_of_ne ha hb hne, Ty.answer_judge_of_some (Ty.answer_opinion_open_stuck open_ h)]

/-- Generics with nothing bound and equally many variables compare as their bodies. -/
theorem compare_open_open {body body' : TypeRef} {inner inner' : Ty} {vars vars' : UInt32}
    {bindings bindings' : List (TypeRef × Ty)} (ka : a.kind = .generic body inner vars bindings)
    (open_ : Ty.isBound vars bindings = false)
    (kb : b.kind = .generic body' inner' vars' bindings')
    (open' : Ty.isBound vars' bindings' = false) :
    (core home).compare a b =
      if vars = vars' then (core home).compare inner inner' else .unrelated := by
  rw [compare_of_ne ha hb hne,
    Ty.answer_judge_of_some (Ty.answer_opinion_open_open ka open_ kb open'), oracle_compare]

theorem compare_open (open_ : a.IsOpen) (h : b.IsVar ∨ b.IsPlain) :
    (core home).compare a b = .unrelated := by
  rw [compare_of_ne ha hb hne, Ty.answer_judge_of_some (Ty.answer_opinion_open open_ h)]

/-- Arrays compare as their elements. -/
theorem compare_array {x y : Ty} {size size' : SizeBounds} (ka : a.kind = .array x size)
    (kb : b.kind = .array y size') : (core home).compare a b = (core home).compare x y := by
  have opinion : (Ty.opinion a b).answer (core home).oracle =
      some ((core home).oracle.compare x y) := by simp [Ty.opinion, ka, kb]
  rw [compare_of_ne ha hb hne, Ty.answer_judge_of_some opinion, oracle_compare]

theorem compare_var_var {v w : TypeVar} (ka : a.kind = .var v) (kb : b.kind = .var w) :
    (core home).compare a b = if v = w then .equivalent else .unrelated := by
  rw [compare_of_ne ha hb hne, Ty.answer_judge_of_some (Ty.answer_opinion_var_var ka kb)]

/-- A variable is unrelated to all that is no variable, bound generics among them. -/
theorem compare_var (var : a.IsVar) (h : ¬ b.IsVar) : (core home).compare a b = .unrelated := by
  rw [compare_of_ne ha hb hne, Ty.answer_judge_of_some (Ty.answer_opinion_var var h)]

/-- A plain type compares to a bound generic as to its instance, seen from the instance. -/
theorem compare_plain_unfold (plain : a.IsPlain) (hs : b.Unfolds (core home).oracle s) :
    (core home).compare a b = ((core home).compare s a).reverse := by
  rw [compare_of_ne ha hb hne,
    Ty.answer_judge_of_none (Ty.answer_opinion_plain plain hs.isBound.not_isPlain),
    Ty.answer_opinion_unfold hs, oracle_compare]
  rfl

theorem compare_plain_stuck (plain : a.IsPlain) (h : b.Stuck (core home).oracle) :
    (core home).compare a b = .unrelated := by
  rw [compare_of_ne ha hb hne,
    Ty.answer_judge_of_none (Ty.answer_opinion_plain plain h.1.not_isPlain),
    Ty.answer_opinion_stuck h]
  rfl

theorem compare_plain_open (plain : a.IsPlain) (open_ : b.IsOpen) :
    (core home).compare a b = .unrelated := by
  rw [compare_of_ne ha hb hne,
    Ty.answer_judge_of_none (Ty.answer_opinion_plain plain open_.not_isPlain),
    Ty.answer_opinion_open open_ (.inr plain)]
  rfl

theorem compare_plain_var (plain : a.IsPlain) (var : b.IsVar) :
    (core home).compare a b = .unrelated := by
  rw [compare_of_ne ha hb hne,
    Ty.answer_judge_of_none (Ty.answer_opinion_plain plain var.not_isPlain),
    Ty.answer_opinion_var var fun h => h.not_isPlain plain]
  rfl

end Sorts

end Registry

end TypedTree
