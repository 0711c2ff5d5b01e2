import TypedTree.Proofs.Demands
import TypedTree.Proofs.Failures
import TypedTree.Proofs.Memories
import TypedTree.Proofs.Overflow

/-!
# Going down always ends

From a type one gets to lighter types by taking a part or, from a generic with everything bound, its
instance. Since what is bound may be repeated any number of times, an instance can be longer than
the generic, and nested deeper; but it weighs less, and so does every part. A sequence of such steps
is shorter than the weight of the type that it starts from.

Default values and comparisons recur along these steps and no others. Neither needs the guard that
`Ty.default` and `Registry.compare` have to be recursive functions at all. For default values that
is stated by unrolling the recursion a number of times: what stands at the bottom does not show once
the number is as large as the weight. For comparisons the rules are followed without a guard.

All of this is about depths that stay within 32 bits. What is written for one that does not is up to
a `TypeRef.Writer`, and a machine that adds without looking can go down forever: where a depth wraps
around, a variable that was bound far out is bound again by a generic close by. So the result is for
types that fit, from which no such depth is reached, and then for any exact writer. Types fit whose
weight leaves room for the depth of their free variables.

## Main definitions

* `Ty.Descends`: one step down.
* `Ty.DescendsBy`: one step down with any writer.
* `Ty.Fits`: whether no depth gets too large on the way down.
* `Ty.defaultBy`: one round of the recursion of default values.
* `Ty.unrolled`: several rounds of it.

## Main statements

* `Ty.answer_defaultBy_congr`: a round goes on with the types that the default demands.
* `Registry.weight_add_le`: every step down makes lighter.
* `Registry.answer_unrolled`: enough rounds give the default.
* `Registry.overflows_iff_of_expands`: an instance tells of depths that got too large.
* `Registry.fits_of_weight`: light types fit.
* `Registry.descent_ends`: no sequence of steps is infinite, so defaults and comparisons end.
* `Registry.descent_endless`: a sequence that is, where depths wrap around.
-/

namespace TypedTree

open Relation

namespace Attempt

variable {α β : Type} {o : Oracle}

theorem answer_each_congr {f g : α → Attempt β} {as : List α}
    (same : ∀ a ∈ as, (f a).answer o = (g a).answer o) :
    (each f as).answer o = (each g as).answer o := by
  induction as with
  | nil => rfl
  | cons a as ih =>
    rw [List.forall_mem_cons] at same
    simp only [each, answer_bind, same.1, ih same.2]

end Attempt

namespace Ty

variable {o : Oracle} {f g : Ty → Attempt Value} {s t : Ty}

/-- Whether a type is a part of another, or the instance of it. -/
def Descends (o : Oracle) (t s : Ty) : Prop :=
  s ∈ t.kind.parts ∨ t.Unfolds o s

/-- Whether a type is a part of another, or the instance of it as a writer has it. -/
def DescendsBy (write : TypeRef.Writer) (o : Oracle) (t s : Ty) : Prop :=
  s ∈ t.kind.parts ∨
    ∃ body inner vars bindings ref, t.kind = .generic body inner vars bindings ∧
      isBound vars bindings = true ∧ body.expandBy write vars (bindings.map (·.1)) = .ok ref ∧
        o.resolve ref = .ok s

/-- Whether no depth gets too large in the instance of a type, if it is a bound generic. -/
def StaysWithin (t : Ty) : Prop :=
  ∀ body inner vars bindings, t.kind = .generic body inner vars bindings →
    isBound vars bindings = true → body.InstantiatesWithin (bindings.map (·.1))

/-- Whether no depth gets too large on the way down from a type. -/
def Fits (o : Oracle) (t : Ty) : Prop :=
  ∀ s, ReflTransGen (Descends o) t s → s.StaysWithin

/-- The default value of a type, given how to find the defaults of parts and instances. -/
def defaultBy (default : Ty → Attempt Value) (t : Ty) : Attempt Value :=
  match t.kind with
  | .bool => pure (.bool false)
  | .int r => pure (.int r.default)
  | .rational r => pure (.rational r.default)
  | .text => pure (.text "")
  | .enumeration e => pure e.default
  | .record fields => do
    let slots ← initialSlots default fields
    pure (.record slots)
  | .variant fields _ initial => fill default fields initial []
  | .array element size => do
    let v ← default element
    pure (.array (List.replicate size.initial.toNat v))
  | .sum summands initial =>
    match summands[initial.toNat]? with
    | some s => do
      let v ← default s
      pure (.sum initial v)
    | none => Attempt.invalid t.name ("no summand " ++ toString initial.toNat)
  | .tuple slots => do
    let vs ← Attempt.each default slots
    pure (.tuple vs)
  | .generic body _ vars bindings =>
    if isBound vars bindings then boundValue default body vars (bindings.map (·.1))
    else throw (.unresolvedVariable 0 0)
  | .map source target => do
    let o ← Attempt.relate source target
    if o.isSubtype then pure (.map (.ofFallback .itself))
    else do
      let v ← default target
      pure (.map (.ofFallback (.fixed v)))
  | .var v => throw v.unresolved
  | .failure e => throw (Registry.standInError t.ref e)

/-- So many rounds of the recursion, with `deeper` for the types that are left then. -/
def unrolled (deeper : Ty → Attempt Value) : Nat → Ty → Attempt Value
  | 0 => deeper
  | n + 1 => defaultBy (unrolled deeper n)

/-- The default is one round of the recursion over the defaults of lighter types. -/
theorem default_eq (t : Ty) : t.default = t.defaultBy fun x =>
    if x.ref.weight < t.ref.weight then x.default
    else Attempt.invalid t.name "nested too deeply" := by
  rw [default]
  rfl

theorem answer_fill_congr {declared : List (Ident × Ty)} {tag : Tag} {previous : Fields}
    (same : ∀ d ∈ tagFields declared tag, (f d.2).answer o = (g d.2).answer o) :
    (fill f declared tag previous).answer o = (fill g declared tag previous).answer o := by
  rw [fill, fill, Attempt.answer_bind, Attempt.answer_bind, Attempt.answer_each_congr]
  intro d hd
  cases Fields.get? previous d.1 with
  | some v => rfl
  | none => simp only [Attempt.answer_bind, same d hd]

theorem answer_initialSlots_congr {fields : List (Field Ty)}
    (same : ∀ d ∈ fields, d.optional = false → (f d.type).answer o = (g d.type).answer o) :
    (initialSlots f fields).answer o = (initialSlots g fields).answer o := by
  refine Attempt.answer_each_congr fun d hd => ?_
  cases optional : d.optional with
  | true => rfl
  | false => simp only [Bool.false_eq_true, if_false, Attempt.answer_bind, same d hd optional]

theorem answer_boundValue_congr {body : TypeRef} {vars : UInt32} {bindings : List TypeRef}
    (same : ∀ s, body.HasInstance o vars bindings s → (f s).answer o = (g s).answer o) :
    (boundValue f body vars bindings).answer o = (boundValue g body vars bindings).answer o := by
  simp only [boundValue, Attempt.answer_bind]
  refine congrArg _ (funext fun _ => ?_)
  cases made : (Attempt.expand body vars bindings).answer o with
  | error e => rfl
  | ok s => simp only [Outcome.ok_bind, same s (Attempt.answer_expand.1 made)]

/-- A round of the recursion goes on with the types that the default demands and no others. -/
theorem answer_defaultBy_congr
    (same : ∀ s, t.Demands o s → (f s).answer o = (g s).answer o) :
    (t.defaultBy f).answer o = (t.defaultBy g).answer o := by
  simp only [Demands] at same
  simp only [defaultBy]
  cases hk : t.kind with
  | bool | int | rational | text | enumeration | var | failure => rfl
  | record fields =>
    simp only [hk] at same
    have slots := answer_initialSlots_congr fun d hd needed => same d.type ⟨d, hd, needed, rfl⟩
    simp only [Attempt.answer_bind, slots]
  | variant declared tags initial =>
    simp only [hk] at same
    exact answer_fill_congr fun d hd => same d.2 ⟨d, hd, rfl⟩
  | array element size =>
    simp only [hk, forall_eq'] at same
    simp only [Attempt.answer_bind, same]
  | sum summands initial =>
    simp only [hk] at same
    cases found : summands[initial.toNat]? with
    | none => simp only [found]
    | some s => simp only [found, Attempt.answer_bind, same s found]
  | tuple slots =>
    simp only [hk] at same
    simp only [Attempt.answer_bind, Attempt.answer_each_congr same]
  | generic body inner vars bindings =>
    simp only [hk, unfolds_iff_of_generic hk] at same
    cases bound : isBound vars bindings with
    | true =>
      simp only [bound, if_true]
      exact answer_boundValue_congr fun s own => same s ⟨bound, own⟩
    | false => simp only [bound, Bool.false_eq_true, if_false]
  | map source target =>
    simp only [hk] at same
    simp only [Attempt.answer_bind, Attempt.answer_relate, Outcome.ok_bind]
    cases below : (o.compare source target).isSubtype with
    | true => rfl
    | false => simp only [Bool.false_eq_true, if_false, Attempt.answer_bind, same target ⟨below, rfl⟩]

/-! ## Writers -/

section Writers

variable {write : TypeRef.Writer}

/-- Exact writers lead to the same types as long as no depth gets too large. -/
theorem descendsBy_iff (hw : write.IsExact) (within : t.StaysWithin) :
    t.DescendsBy write o s ↔ t.Descends o s := by
  refine or_congr_right ⟨?_, ?_⟩
  · rintro ⟨body, inner, vars, bindings, ref, generic, bound, expanded, resolved⟩
    rw [TypeRef.expandBy_eq hw (within _ _ _ _ generic bound)] at expanded
    exact ⟨body, inner, vars, bindings, generic, bound, ref, expanded, resolved⟩
  · rintro ⟨body, inner, vars, bindings, generic, bound, ref, expanded, resolved⟩
    rw [← TypeRef.expandBy_eq hw (within _ _ _ _ generic bound)] at expanded
    exact ⟨body, inner, vars, bindings, ref, generic, bound, expanded, resolved⟩

theorem Fits.staysWithin (fits : t.Fits o) : t.StaysWithin := fits t .refl

theorem Fits.descends (fits : t.Fits o) (step : t.Descends o s) : s.Fits o := fun _ path =>
  fits _ (.head step path)

theorem Fits.descendsBy (hw : write.IsExact) (fits : t.Fits o) (step : t.DescendsBy write o s) :
    s.Fits o :=
  fits.descends ((descendsBy_iff hw fits.staysWithin).1 step)

/-- What is reached from a type that fits, with any exact writer, fits. -/
theorem Fits.reaches (hw : write.IsExact) (fits : t.Fits o)
    (path : ReflTransGen (DescendsBy write o) t s) : s.Fits o := by
  induction path with
  | refl => exact fits
  | tail _ step ih => exact ih.descendsBy hw step

end Writers

/-- Nothing is below a stand-in. -/
theorem not_descends_of_failure {e : TypeError} (failure : t.kind = .failure e) :
    ¬ t.Descends o s := by
  rintro (part | ⟨body, inner, vars, bindings, generic, -⟩)
  · simp [failure, Kind.parts] at part
  · simp [failure] at generic

end Ty

namespace Registry

variable {home : Nat} {a b s t : Ty}

theorem owns_of_descends (ht : (core home).Owns t) (h : t.Descends (core home).oracle s) :
    (core home).Owns s :=
  h.elim ((forms_of_owns ht).owns_parts s) owns_of_unfolds

theorem weight_descends_lt (ht : (core home).Owns t) (h : t.Descends (core home).oracle s) :
    s.ref.weight < t.ref.weight :=
  h.elim (forms_of_owns ht).weight_part_lt (forms_of_owns ht).weight_instance_lt

/-- Every step down makes lighter. -/
theorem weight_add_le {f : Nat → Ty} {n : Nat} (start : (core home).Owns (f 0))
    (steps : ∀ m < n, (f m).Descends (core home).oracle (f (m + 1))) :
    (core home).Owns (f n) ∧ (f n).ref.weight + n ≤ (f 0).ref.weight := by
  induction n with
  | zero => exact ⟨start, Nat.le_refl _⟩
  | succ n ih =>
    obtain ⟨own, le⟩ := ih fun m hm => steps m (Nat.lt_succ_of_lt hm)
    have last := steps n (Nat.lt_succ_self n)
    have lighter := weight_descends_lt own last
    exact ⟨owns_of_descends own last, by omega⟩

/-- A sequence of steps down is shorter than the weight of what it starts from. -/
theorem exists_not_descends {f : Nat → Ty} (start : (core home).Owns (f 0)) :
    ∃ n < (f 0).ref.weight, ¬ (f n).Descends (core home).oracle (f (n + 1)) := by
  by_contra endless
  simp only [not_exists, not_and, not_not] at endless
  have le := (weight_add_le start endless).2
  have positive := TypeRef.one_le_weight (f (f 0).ref.weight).ref
  omega

/-- Once there are as many rounds as the type weighs, what stands at the bottom does not show. -/
theorem answer_unrolled (deeper : Ty → Attempt Value) {n : Nat} (h : (core home).Owns t)
    (enough : t.ref.weight ≤ n) :
    (Ty.unrolled deeper n t).answer (core home).oracle = t.default.answer (core home).oracle := by
  induction n generalizing t with
  | zero => exact absurd (TypeRef.one_le_weight t.ref) (by omega)
  | succ n ih =>
    rw [Ty.unrolled, Ty.default_eq]
    refine Ty.answer_defaultBy_congr fun s demanded => ?_
    have lighter := weight_demands_lt h demanded
    rw [if_pos lighter, ih (owns_of_demands h demanded) (by omega)]

/-- Resolved types compare as they do when every question is followed. -/
theorem relates_compare {policy : FailurePolicy} {x y : TypeRef}
    (ha : (core home).resolveBy policy x = .ok a) (hb : (core home).resolveBy policy y = .ok b) :
    (core home).Relates Ty.judge a b ((core home).compare a b) := by
  by_cases failure : a.isFailure = true ∨ b.isFailure = true
  · rw [compare_of_isFailure failure]
    exact .settled (shortcut?_of_isFailure failure) .done
  · rw [not_or] at failure
    have own {ref : TypeRef} {t : Ty} (resolved : (core home).resolveBy policy ref = .ok t)
        (proper : ¬ t.isFailure = true) : (core home).Owns t :=
      (owns_or_isFailure resolved).resolve_right fun ⟨e, stand_in⟩ =>
        proper (by rw [Ty.isFailure, Ty.failure?, stand_in]; rfl)
    exact (relates_core_iff (own ha failure.1) (own hb failure.2)).2 rfl

/-! ## Types that fit -/

/-- The instance of a generic has a mark just if a depth gets too large in it. -/
theorem overflows_iff_of_expands {ref : TypeRef} (ht : (core home).Owns t) (h : t.Expands ref) :
    ref.overflows = false ↔ t.StaysWithin := by
  obtain ⟨body, inner, vars, bindings, generic, bound, expanded⟩ := h
  have resolves : (core home).Resolves t.ref := ⟨t, ht⟩
  rw [ref_of_generic ht generic, TypeRef.genericBound] at resolves
  obtain ⟨inside, args⟩ := List.forall_mem_cons.1 (resolves_types resolves)
  rw [TypeRef.overflows_instantiate_iff (fun b hb => overflows_eq_false (args b hb))
    (overflows_eq_false inside) (TypeRef.expand_eq_ok.1 expanded).2]
  constructor
  · intro within _ _ _ _ generic' _
    obtain ⟨rfl, -, -, rfl⟩ := Kind.generic.inj (generic.symm.trans generic')
    exact within
  · exact fun within => within _ _ _ _ generic bound

/-- A part is at most one scope further in, which it is if it is the body of a generic. -/
theorem freeDepth_part_lt {n : Nat} (reach : ∀ d ∈ t.freeDepth, d < n) (part : s ∈ t.kind.parts) :
    ∀ d ∈ s.freeDepth, d < n + 1 := by
  obtain ⟨v, hk⟩ | ⟨body, inner, vars, bindings, hk⟩ | plain := t.var_or_generic_or_plain
  · simp [hk, Kind.parts] at part
  · rw [Ty.freeDepth_generic hk, Ty.deeper_lt_iff, Ty.lower_lt_iff, Ty.deepest_lt_iff] at reach
    rw [hk, Kind.parts, List.mem_cons] at part
    obtain rfl | bound := part
    · exact reach.1
    · exact fun d hd => Nat.lt_succ_of_lt (reach.2 _ (List.mem_map_of_mem bound) d hd)
  · rw [Ty.freeDepth_plain plain, Ty.deepest_lt_iff] at reach
    exact fun d hd => Nat.lt_succ_of_lt (reach _ (List.mem_map_of_mem part) d hd)

/-- The instance of a generic is in the same scopes. -/
theorem freeDepth_unfolds_lt {n : Nat} (ht : (core home).Owns t)
    (reach : ∀ d ∈ t.freeDepth, d < n) (h : t.Unfolds (core home).oracle s) :
    ∀ d ∈ s.freeDepth, d < n := by
  have own := owns_of_unfolds h
  obtain ⟨body, inner, vars, bindings, generic, -, ref, expanded, resolved⟩ := h
  have reach := (freeDepth_lt_iff ht).1 reach
  rw [ref_of_generic ht generic, TypeRef.genericBound] at reach
  obtain ⟨inside, bound⟩ := TypeRef.eachVar_generic.1 reach
  have inside : body.BoundWithin (0 + n + 1) := (Nat.zero_add n).symm ▸ inside
  have instantiated : TypeRef.substitute _ 0 body = .ok ref := (TypeRef.expand_eq_ok.1 expanded).2
  have reach := TypeRef.boundWithin_substitute bound inside instantiated
  rw [Nat.zero_add, ← ref_of_resolve resolved] at reach
  exact (freeDepth_lt_iff own).2 reach

/-- A step down leads at most one scope further in. -/
theorem freeDepth_descends_lt {n : Nat} (ht : (core home).Owns t)
    (reach : ∀ d ∈ t.freeDepth, d < n) (h : t.Descends (core home).oracle s) :
    ∀ d ∈ s.freeDepth, d < n + 1 := by
  obtain part | unfolds := h
  · exact freeDepth_part_lt reach part
  · exact fun d hd => Nat.lt_succ_of_lt (freeDepth_unfolds_lt ht reach unfolds d hd)

/-- No depth gets too large in the instance of a light type. -/
theorem staysWithin_of_weight {n : Nat} (ht : (core home).Owns t)
    (reach : ∀ d ∈ t.freeDepth, d < n) (light : n + t.ref.weight ≤ UInt32.size) :
    t.StaysWithin := by
  intro body inner vars bindings generic _
  have reach := (freeDepth_lt_iff ht).1 reach
  rw [ref_of_generic ht generic, TypeRef.genericBound] at reach light
  exact TypeRef.instantiatesWithin_of_weight (TypeRef.eachVar_generic.1 reach).2 light

/-- A type fits if its weight leaves room for the depth of its free variables. -/
theorem fits_of_weight {n : Nat} (ht : (core home).Owns t) (reach : ∀ d ∈ t.freeDepth, d < n)
    (light : n + t.ref.weight ≤ UInt32.size) : t.Fits (core home).oracle := by
  intro s path
  have below : (core home).Owns s ∧
      ∃ m, (∀ d ∈ s.freeDepth, d < m) ∧ m + s.ref.weight ≤ UInt32.size := by
    induction path with
    | refl => exact ⟨ht, n, reach, light⟩
    | tail _ step ih =>
      obtain ⟨own, m, reach, light⟩ := ih
      have lighter := weight_descends_lt own step
      exact ⟨owns_of_descends own step, m + 1, freeDepth_descends_lt own reach step, by omega⟩
  obtain ⟨own, m, reach, light⟩ := below
  exact staysWithin_of_weight own reach light

/-! ## The end of the way -/

/-- With any exact writer, a sequence of steps down from a type that fits is shorter than the weight
of the type. -/
theorem exists_not_descendsBy {write : TypeRef.Writer} {f : Nat → Ty} (hw : write.IsExact)
    (start : (core home).Owns (f 0)) (fits : (f 0).Fits (core home).oracle) :
    ∃ n < (f 0).ref.weight, ¬ (f n).DescendsBy write (core home).oracle (f (n + 1)) := by
  by_contra endless
  simp only [not_exists, not_and, not_not] at endless
  have fitting : ∀ n ≤ (f 0).ref.weight, (f n).Fits (core home).oracle := by
    intro n le
    induction n with
    | zero => exact fits
    | succ n ih => exact (ih (Nat.le_of_succ_le le)).descendsBy hw (endless n le)
  obtain ⟨n, lt, stop⟩ := exists_not_descends start
  have within := (fitting n (Nat.le_of_lt lt)).staysWithin
  exact stop ((Ty.descendsBy_iff hw within).1 (endless n lt))

/-- Steps down come to an end, for all resolved types from which no depth gets too large and for any
exact writer. On the way the writer does not show. So the recursion of default values stops by
itself, however many rounds of it are allowed beyond, and so do comparisons that follow all
questions. -/
theorem descent_ends {write : TypeRef.Writer} {policy : FailurePolicy} {x y : TypeRef}
    (hw : write.IsExact)
    (ha : (core home).resolveBy policy x = .ok a) (hb : (core home).resolveBy policy y = .ok b)
    (fits : a.Fits (core home).oracle) (fits' : b.Fits (core home).oracle) :
    (∀ t, ReflTransGen (Ty.DescendsBy write (core home).oracle) a t ∨
        ReflTransGen (Ty.DescendsBy write (core home).oracle) b t →
      ∀ s, t.DescendsBy write (core home).oracle s ↔ t.Descends (core home).oracle s) ∧
    (∀ f : Nat → Ty, f 0 = a →
      ∃ n < a.ref.weight, ¬ (f n).DescendsBy write (core home).oracle (f (n + 1))) ∧
    (∀ deeper n, a.ref.weight ≤ n → (Ty.unrolled deeper n a).answer (core home).oracle =
      a.default.answer (core home).oracle) ∧
    (core home).Relates Ty.judge a b ((core home).compare a b) := by
  refine ⟨?_, ?_, ?_, relates_compare ha hb⟩
  · rintro t (path | path) s
    · exact Ty.descendsBy_iff hw (fits.reaches hw path).staysWithin
    · exact Ty.descendsBy_iff hw (fits'.reaches hw path).staysWithin
  · rintro f rfl
    obtain own | ⟨e, failure⟩ := owns_or_isFailure ha
    · exact exists_not_descendsBy hw own fits
    · refine ⟨0, TypeRef.one_le_weight _, fun step => ?_⟩
      exact Ty.not_descends_of_failure failure ((Ty.descendsBy_iff hw fits.staysWithin).1 step)
  · intro deeper n enough
    obtain own | ⟨e, failure⟩ := owns_or_isFailure ha
    · exact answer_unrolled deeper own enough
    · cases n with
      | zero => exact absurd (TypeRef.one_le_weight a.ref) (by omega)
      | succ n =>
        rw [Ty.unrolled, Ty.default_eq, Ty.defaultBy, Ty.defaultBy, failure]

/-- A body that repeats its variable, bound to a generic of the same kind, on a machine whose depths
wrap around: the instance is longer than the generic, and has three generics in it. -/
theorem descent_ends_tripled :
    let thrice (binding : TypeRef) : TypeRef :=
      .genericBound (.tuple [.var 0 0, .var 0 0, .var 0 0]) 1 [binding]
    ∃ a b, (core 0).resolveBy .substitute (thrice (thrice .int)) = .ok a ∧
      (core 0).resolveBy .substitute (.tuple [thrice .int, thrice .int, thrice .int]) = .ok b ∧
      a.Fits (core 0).oracle ∧ b.Fits (core 0).oracle ∧
      a.DescendsBy TypeRef.wrappedVar (core 0).oracle b ∧
      (∀ f : Nat → Ty, f 0 = a → ∃ n < a.ref.weight,
        ¬ (f n).DescendsBy TypeRef.wrappedVar (core 0).oracle (f (n + 1))) ∧
      (∀ deeper n, a.ref.weight ≤ n → (Ty.unrolled deeper n a).answer (core 0).oracle =
        a.default.answer (core 0).oracle) ∧
      (core 0).Relates Ty.judge a b ((core 0).compare a b) := by
  intro thrice
  let inst : TypeRef := .tuple [thrice .int, thrice .int, thrice .int]
  have light : 0 + (thrice (thrice .int)).weight ≤ UInt32.size := by decide
  have light' : 0 + inst.weight ≤ UInt32.size := by decide
  obtain ⟨a, b, ha, hb, closed, closed', step⟩ : ∃ a b,
      (core 0).resolve (thrice (thrice .int)) = .ok a ∧ (core 0).resolve inst = .ok b ∧
        a.freeDepth = none ∧ b.freeDepth = none ∧
          a.DescendsBy TypeRef.wrappedVar (core 0).oracle b :=
    ⟨_, _, rfl, rfl, rfl, rfl, .inr ⟨_, _, _, _, inst, rfl, rfl, rfl, rfl⟩⟩
  have fits : a.Fits (core 0).oracle :=
    fits_of_weight (owns_of_resolve ha) (by simp [closed]) (ref_of_resolve ha ▸ light)
  have fits' : b.Fits (core 0).oracle :=
    fits_of_weight (owns_of_resolve hb) (by simp [closed']) (ref_of_resolve hb ▸ light')
  have resolved : (core 0).resolveBy .substitute (thrice (thrice .int)) = .ok a := by
    rw [resolveBy, ha, settle]
  have resolved' : (core 0).resolveBy .substitute inst = .ok b := by
    rw [resolveBy, hb, settle]
  obtain ⟨-, ends⟩ := descent_ends TypeRef.isExact_wrappedVar resolved resolved' fits fits'
  exact ⟨a, b, resolved, resolved', fits, fits', step, ends⟩

/-- Where depths wrap around, steps down need not end. A generic to which a variable at the last
depth is bound has an instance in which this variable has come around to depth zero, and the
instance of that is the first generic again. -/
theorem descent_endless : ∃ f : Nat → Ty,
    (∀ n, ∃ x, (core 0).resolve x = .ok (f n)) ∧
      ∀ n, (f n).DescendsBy TypeRef.wrappedVar (core 0).oracle (f (n + 1)) := by
  let around (binding : TypeRef) : TypeRef :=
    .genericBound (.genericBound (.var 0 1) 1 [.var 0 0]) 1 [binding]
  let last : TypeRef := around (.var 0 4294967295)
  obtain ⟨a, b, ha, hb, there, back⟩ : ∃ a b,
      (core 0).resolve (around last) = .ok a ∧
        (core 0).resolve (.genericBound (around (.var 0 0)) 1 [last]) = .ok b ∧
          a.DescendsBy TypeRef.wrappedVar (core 0).oracle b ∧
            b.DescendsBy TypeRef.wrappedVar (core 0).oracle a :=
    ⟨_, _, rfl, rfl, .inr ⟨_, _, _, _, .genericBound (around (.var 0 0)) 1 [last], rfl, rfl, rfl, rfl⟩,
      .inr ⟨_, _, _, _, around last, rfl, rfl, rfl, rfl⟩⟩
  refine ⟨fun n => if n % 2 = 0 then a else b, fun n => ?_, fun n => ?_⟩
  · obtain even | odd := Nat.mod_two_eq_zero_or_one n
    · exact ⟨_, by simpa [even] using ha⟩
    · exact ⟨_, by simpa [odd] using hb⟩
  · obtain even | odd := Nat.mod_two_eq_zero_or_one n
    · have next : (n + 1) % 2 = 1 := by omega
      simpa [even, next] using there
    · have next : (n + 1) % 2 = 0 := by omega
      simpa [odd, next] using back

end Registry

end TypedTree
