import Mathlib.Order.Bounds.Basic
import TypedTree.Proofs.Builders
import TypedTree.Ty.Flags

/-!
# How deep free variables reach

Depths of variables are counted in three places: from the parts up when a type is built, from the
outside in when bindings are put in place, and from a cutoff when a reference is moved. A generic
takes one level off what its body shows, and nothing off its bindings.

All of it is measured here against one notion that does not compute anything, that of a free
occurrence. The free depth of a type is the largest depth of a free occurrence in its reference, and
the free occurrences in an instance are those of the body that were bound further out, one level
lower.

## Main definitions

* `TypeRef.Free`: whether a variable is free in a reference, at some depth seen from outside.

## Main statements

* `TypeRef.exists_substitute_iff`: bindings can be put in place exactly if there are enough.
* `TypeRef.free_substitute_iff`: what is free once closed bindings are in place.
* `Registry.freeDepth_eq_some_iff`: free depths are exact.
* `Registry.freeDepth_spec`: free depths are exact and an instance has one level less.
-/

namespace TypedTree

namespace TypeRef

/-- Whether the variable with an index is free in a reference, at some depth as it is seen from
outside the reference. -/
inductive Free : TypeRef → UInt32 → Nat → Prop
  | var {c types values v} (written : var? c values = some v) :
      Free (.constructed c types values) v.index v.depth.toNat
  /-- A generic binds the innermost level of its body. -/
  | body {body bindings values i d} (inner : Free body i (d + 1)) :
      Free (.constructed Core.generic (body :: bindings) values) i d
  | binding {body bindings values b i d} (mem : b ∈ bindings) (outer : Free b i d) :
      Free (.constructed Core.generic (body :: bindings) values) i d
  | argument {c types values t i d} (other : var? c values = none) (plain : c ≠ Core.generic)
      (mem : t ∈ types) (inner : Free t i d) : Free (.constructed c types values) i d

section Free

variable {c : GlobalId} {types bindings bs : List TypeRef} {values : List Value} {body r r' : TypeRef}
  {v : TypeVar} {i : UInt32} {d n level : Nat}

theorem not_free_primitive (id : GlobalId) : ¬ Free (.primitive id) i d := nofun

theorem free_var_iff (hv : var? c values = some v) :
    Free (.constructed c types values) i d ↔ i = v.index ∧ d = v.depth.toNat := by
  constructor
  · intro free
    cases free with
    | var written =>
      obtain rfl := Option.some.inj (hv.symm.trans written)
      exact ⟨rfl, rfl⟩
    | body | binding => simp [var?_generic] at hv
    | argument other => simp [hv] at other
  · rintro ⟨rfl, rfl⟩
    exact .var hv

theorem free_generic_iff :
    Free (.constructed Core.generic (body :: bindings) values) i d ↔
      body.Free i (d + 1) ∨ ∃ b ∈ bindings, b.Free i d := by
  constructor
  · intro free
    cases free with
    | var written => simp [var?_generic] at written
    | body inner => exact .inl inner
    | binding mem outer => exact .inr ⟨_, mem, outer⟩
    | argument _ plain => exact absurd rfl plain
  · rintro (inner | ⟨b, mem, outer⟩)
    · exact .body inner
    · exact .binding mem outer

theorem free_plain_iff (hv : var? c values = none) (hc : c = Core.generic → types = []) :
    Free (.constructed c types values) i d ↔ ∃ t ∈ types, t.Free i d := by
  constructor
  · intro free
    cases free with
    | var written => simp [hv] at written
    | body | binding => simp at hc
    | argument _ _ mem inner => exact ⟨_, mem, inner⟩
  · rintro ⟨t, mem, inner⟩
    refine .argument hv (fun generic => ?_) mem inner
    rw [hc generic] at mem
    exact absurd mem List.not_mem_nil

/-- How far variables reach is how far they reach where they are free. -/
theorem boundWithin_iff : r.BoundWithin n ↔ ∀ i d, r.Free i d → d < n := by
  induction r using induct_forms generalizing n with
  | primitive id => exact iff_of_true trivial fun i d free => absurd free (not_free_primitive id)
  | var c types values v hv =>
    simp only [BoundWithin, eachVar_var hv, free_var_iff hv]
    exact ⟨fun below i d h => h.2 ▸ below, fun h => h _ _ ⟨rfl, rfl⟩⟩
  | generic body bindings values ihb ihs =>
    simp only [BoundWithin] at ihb ihs ⊢
    simp only [eachVar_generic, free_generic_iff]
    constructor
    · rintro ⟨inner, outer⟩ i d (free | ⟨b, hb, free⟩)
      · exact Nat.lt_of_succ_lt_succ (ihb.1 inner i _ free)
      · exact (ihs b hb).1 (outer b hb) i d free
    · intro each
      refine ⟨ihb.2 fun i d free => ?_, fun b hb => (ihs b hb).2 fun i d free =>
        each i d (.inr ⟨b, hb, free⟩)⟩
      cases d with
      | zero => exact Nat.succ_pos n
      | succ d => exact Nat.succ_lt_succ (each i d (.inl free))
  | plain c types values hv hc ih =>
    simp only [BoundWithin] at ih ⊢
    simp only [eachVar_plain hv hc, free_plain_iff hv hc]
    constructor
    · rintro each i d ⟨t, ht, free⟩
      exact (ih t ht).1 (each t ht) i d free
    · exact fun each t ht => (ih t ht).2 fun i d free => each i d ⟨t, ht, free⟩

theorem boundWithin_zero_iff : r.BoundWithin 0 ↔ ∀ i d, ¬ r.Free i d := by
  simp [boundWithin_iff]

/-! ## Enough bindings -/

/-- A list leads on exactly if each of its members does. -/
theorem exists_forall₂_iff {R : TypeRef → TypeRef → Prop} :
    (∃ types', List.Forall₂ R types types') ↔ ∀ t ∈ types, ∃ t', R t t' := by
  constructor
  · rintro ⟨types', related⟩ t ht
    obtain ⟨t', -, here⟩ := exists_mem_of_forall₂ related ht
    exact ⟨t', here⟩
  · intro each
    obtain ⟨types', related, -⟩ := Registry.exists_forall₂ (P := fun _ => True) fun t ht =>
      (each t ht).imp fun _ here => ⟨here, trivial⟩
    exact ⟨types', related⟩

theorem exists_substitute_var_iff (hv : var? c values = some v) :
    (∃ r', substitute bs level (.constructed c types values) = .ok r') ↔
      (v.depth.toNat = level → v.index.toNat < bs.length) := by
  rcases Nat.lt_trichotomy v.depth.toNat level with inside | here | beyond
  · exact iff_of_true ⟨_, substitute_inside hv inside⟩ fun here => absurd here (Nat.ne_of_lt inside)
  · simp only [substitute_here hv here]
    constructor
    · rintro ⟨r', b, hb, -⟩ -
      exact (List.getElem?_eq_some_iff.1 hb).1
    · exact fun enough => ⟨_, _, List.getElem?_eq_getElem (enough here), rfl⟩
  · exact iff_of_true ⟨_, substitute_beyond hv beyond⟩ fun here => absurd here (Nat.ne_of_gt beyond)

/-- Bindings can be put in place exactly if there is one for every variable that is bound at the
level. -/
theorem exists_substitute_iff :
    (∃ r', substitute bs level r = .ok r') ↔ ∀ i, r.Free i level → i.toNat < bs.length := by
  induction r using induct_forms generalizing level with
  | primitive id => exact iff_of_true ⟨_, rfl⟩ fun i free => absurd free (not_free_primitive id)
  | var c types values v hv =>
    rw [exists_substitute_var_iff hv]
    simp only [free_var_iff hv]
    exact ⟨fun enough i h => h.1 ▸ enough h.2.symm, fun enough here => enough _ ⟨rfl, here.symm⟩⟩
  | generic body bindings values ihb ihs =>
    have split : (∃ r', substitute bs level (.constructed Core.generic (body :: bindings) values) =
        .ok r') ↔ (∃ body', substitute bs (level + 1) body = .ok body') ∧
          ∀ b ∈ bindings, ∃ b', substitute bs level b = .ok b' := by
      rw [← exists_forall₂_iff]
      simp only [substitute_generic_eq_ok]
      constructor
      · rintro ⟨_, body', bindings', hb, hbs, -⟩
        exact ⟨⟨body', hb⟩, bindings', hbs⟩
      · rintro ⟨⟨body', hb⟩, bindings', hbs⟩
        exact ⟨_, body', bindings', hb, hbs, rfl⟩
    simp only [split, ihb, free_generic_iff, or_imp, forall_and]
    refine and_congr_right fun _ => ⟨?_, ?_⟩
    · rintro each i ⟨b, hb, free⟩
      exact (ihs b hb).1 (each b hb) i free
    · exact fun enough b hb => (ihs b hb).2 fun i free => enough i ⟨b, hb, free⟩
  | plain c types values hv hc ih =>
    have split : (∃ r', substitute bs level (.constructed c types values) = .ok r') ↔
        ∀ t ∈ types, ∃ t', substitute bs level t = .ok t' := by
      rw [← exists_forall₂_iff]
      simp only [substitute_plain_eq_ok hv hc]
      exact ⟨fun ⟨_, types', hs, _⟩ => ⟨types', hs⟩, fun ⟨types', hs⟩ => ⟨_, types', hs, rfl⟩⟩
    simp only [split, free_plain_iff hv hc]
    constructor
    · rintro each i ⟨t, ht, free⟩
      exact (ih t ht).1 (each t ht) i free
    · exact fun enough t ht => (ih t ht).2 fun i free => enough i ⟨t, ht, free⟩

/-! ## Closed bindings in place -/

theorem exists_mem_iff_of_forall₂ {R : TypeRef → TypeRef → Prop} {P Q : TypeRef → Prop}
    {types' : List TypeRef} (related : List.Forall₂ R types types')
    (agree : ∀ t ∈ types, ∀ t', R t t' → (Q t' ↔ P t)) :
    (∃ t' ∈ types', Q t') ↔ ∃ t ∈ types, P t := by
  induction related with
  | nil => simp
  | cons first _ ih =>
    rw [List.forall_mem_cons] at agree
    rw [List.exists_mem_cons_iff, List.exists_mem_cons_iff, agree.1 _ first, ih agree.2]

/-- With closed bindings in place, what was bound further in is where it was, and what was bound
further out is one level lower. -/
theorem free_substitute_iff (closed : ∀ b ∈ bs, ∀ i d, ¬ b.Free i d)
    (h : substitute bs level r = .ok r') :
    r'.Free i d ↔ d < level ∧ r.Free i d ∨ level ≤ d ∧ r.Free i (d + 1) := by
  induction r using induct_forms generalizing level d r' with
  | primitive id =>
    obtain rfl := Except.ok.inj h
    simp [not_free_primitive]
  | var c types values v hv =>
    rw [free_var_iff hv, free_var_iff hv]
    rcases Nat.lt_trichotomy v.depth.toNat level with inside | here | beyond
    · obtain rfl := Except.ok.inj ((substitute_inside hv inside).symm.trans h)
      rw [free_var_iff hv]
      by_cases same : i = v.index
      · simp only [same, true_and]
        omega
      · simp [same]
    · obtain ⟨b, hb, rfl⟩ := (substitute_here hv here).1 h
      have own := closed b (List.mem_of_getElem? hb)
      rw [shift_of_boundWithin (boundWithin_zero_iff.2 own)]
      refine iff_of_false (own i d) ?_
      omega
    · obtain rfl := Except.ok.inj ((substitute_beyond hv beyond).symm.trans h)
      have small : v.depth.toNat - 1 < UInt32.size :=
        Nat.lt_of_le_of_lt (Nat.sub_le _ _) v.depth.toNat_lt
      rw [varAt, free_var_iff (var?_of_lt small), UInt32.toNat_ofNat_of_lt' small]
      by_cases same : i = v.index
      · simp only [same, true_and]
        omega
      · simp [same]
  | generic body bindings values ihb ihs =>
    obtain ⟨body', bindings', hb, hbs, rfl⟩ := substitute_generic_eq_ok.1 h
    rw [free_generic_iff, free_generic_iff, free_generic_iff, ihb hb,
      exists_mem_iff_of_forall₂ hbs fun b mem b' hb' => ihs b mem hb']
    by_cases below : d < level
    · simp [below, Nat.not_le.2 below]
    · simp [below, Nat.not_lt.1 below]
  | plain c types values hv hc ih =>
    obtain ⟨types', hs, rfl⟩ := (substitute_plain_eq_ok hv hc).1 h
    rw [free_plain_iff hv hc, free_plain_iff hv hc, free_plain_iff hv (nil_of_forall₂ hc hs),
      exists_mem_iff_of_forall₂ hs fun t mem t' ht' => ih t mem ht']
    by_cases below : d < level
    · simp [below, Nat.not_le.2 below]
    · simp [below, Nat.not_lt.1 below]

end Free

end TypeRef

namespace Registry

variable {home : Nat} {t : Ty} {ref : TypeRef}

theorem resolves_var (index depth : UInt32) : (core home).Resolves (.var index depth) := by
  have made : (core home).Makes (.var index depth) (.var ⟨index, depth⟩) := makes_var.2 rfl
  exact made.imp fun _ resolved => resolved.1

/-- A reference resolves with bindings in place if it and the closed bindings do. -/
theorem resolves_substitute {bs : List TypeRef} {level : Nat} {r r' : TypeRef}
    (closed : ∀ b ∈ bs, ∀ i d, ¬ b.Free i d) (bound : ∀ b ∈ bs, (core home).Resolves b)
    (resolves : (core home).Resolves r) (h : TypeRef.substitute bs level r = .ok r') :
    (core home).Resolves r' := by
  induction r using TypeRef.induct_forms generalizing level r' with
  | primitive id =>
    obtain rfl := Except.ok.inj h
    exact resolves
  | var c types values v hv =>
    rcases Nat.lt_trichotomy v.depth.toNat level with inside | here | beyond
    · obtain rfl := Except.ok.inj ((TypeRef.substitute_inside hv inside).symm.trans h)
      exact resolves
    · obtain ⟨b, hb, rfl⟩ := (TypeRef.substitute_here hv here).1 h
      have mem := List.mem_of_getElem? hb
      rw [TypeRef.shift_of_boundWithin (TypeRef.boundWithin_zero_iff.2 (closed b mem))]
      exact bound b mem
    · obtain rfl := Except.ok.inj ((TypeRef.substitute_beyond hv beyond).symm.trans h)
      have small : v.depth.toNat - 1 < UInt32.size :=
        Nat.lt_of_le_of_lt (Nat.sub_le _ _) v.depth.toNat_lt
      rw [← UInt32.toNat_ofNat_of_lt' small, TypeRef.varAt_toNat]
      exact resolves_var _ _
  | generic body bindings values ihb ihs =>
    obtain ⟨body', bindings', hb, hbs, rfl⟩ := TypeRef.substitute_generic_eq_ok.1 h
    have parts := resolves_types resolves
    rw [List.forall_mem_cons] at parts
    refine resolves_withTypes resolves (congrArg (· + 1) hbs.length_eq.symm) ?_
    refine List.forall_mem_cons.2 ⟨ihb parts.1 hb, fun b' mem' => ?_⟩
    obtain ⟨b, mem, hb'⟩ := exists_mem_of_forall₂ hbs.flip mem'
    exact ihs b mem (parts.2 b mem) hb'
  | plain c types values hv hc ih =>
    obtain ⟨types', hs, rfl⟩ := (TypeRef.substitute_plain_eq_ok hv hc).1 h
    refine resolves_withTypes resolves hs.length_eq.symm fun t' mem' => ?_
    obtain ⟨t, mem, ht'⟩ := exists_mem_of_forall₂ hs.flip mem'
    exact ih t mem (resolves_types resolves t mem) ht'

theorem freeDepth_eq_none_iff_free (h : (core home).Owns t) :
    t.freeDepth = none ↔ ∀ i d, ¬ t.ref.Free i d := by
  rw [freeDepth_eq_none_iff h, TypeRef.boundWithin_zero_iff]

/-- The free depth of a type is the largest depth of a variable that is free in its reference. -/
theorem freeDepth_eq_some_iff (h : (core home).Owns t) {d : Nat} :
    t.freeDepth = some d ↔ IsGreatest {d | ∃ i, t.ref.Free i d} d := by
  have greatest {m : Nat} (known : t.freeDepth = some m) :
      IsGreatest {d | ∃ i, t.ref.Free i d} m := by
    have reach (n : Nat) : m < n ↔ ∀ i d, t.ref.Free i d → d < n := by
      rw [← TypeRef.boundWithin_iff, ← freeDepth_lt_iff h, known]
      simp
    have upper (i : UInt32) (d : Nat) (free : t.ref.Free i d) : d ≤ m :=
      Nat.le_of_lt_succ ((reach (m + 1)).1 (Nat.lt_succ_self m) i d free)
    have reached : ¬ ∀ i d, t.ref.Free i d → d < m := fun below =>
      Nat.lt_irrefl m ((reach m).2 below)
    simp only [not_forall, exists_prop] at reached
    obtain ⟨i, d, free, far⟩ := reached
    obtain rfl := Nat.le_antisymm (Nat.not_lt.1 far) (upper i d free)
    exact ⟨⟨i, free⟩, fun e ⟨j, free'⟩ => upper j e free'⟩
  refine ⟨greatest, fun largest => ?_⟩
  obtain ⟨i, free⟩ := largest.1
  cases known : t.freeDepth with
  | none => exact absurd free ((freeDepth_eq_none_iff_free h).1 known i d)
  | some m => rw [(greatest known).unique largest]

/-- Two depths are the same if the same bounds hold of both. -/
theorem eq_of_forall_lt_iff {x y : Option Nat}
    (same : ∀ n, (∀ d ∈ x, d < n) ↔ ∀ d ∈ y, d < n) : x = y := by
  rcases x with _ | m <;> rcases y with _ | n
  · rfl
  · simpa using same 0
  · simpa using same 0
  · simp only [Option.mem_some_iff, forall_eq'] at same
    have le := (same (n + 1)).2 (Nat.lt_succ_self n)
    have ge := (same (m + 1)).1 (Nat.lt_succ_self m)
    rw [Nat.le_antisymm (Nat.le_of_lt_succ le) (Nat.le_of_lt_succ ge)]

/-- The instance of a body has free variables one level lower. -/
theorem freeDepth_instance {bs : List TypeRef} {s : Ty} (h : (core home).Owns t)
    (hs : (core home).Owns s) (closed : ∀ b ∈ bs, ∀ i d, ¬ b.Free i d)
    (instantiated : t.ref.instantiate bs = .ok s.ref) : s.freeDepth = Ty.lower t.freeDepth := by
  refine eq_of_forall_lt_iff fun n => ?_
  rw [Ty.lower_lt_iff, freeDepth_lt_iff hs, freeDepth_lt_iff h, TypeRef.boundWithin_iff,
    TypeRef.boundWithin_iff]
  simp only [TypeRef.free_substitute_iff closed instantiated, Nat.not_lt_zero, Nat.zero_le,
    false_and, true_and, false_or]
  constructor
  · intro below i d free
    cases d with
    | zero => exact Nat.succ_pos n
    | succ d => exact Nat.succ_lt_succ (below i d free)
  · exact fun below i d free => Nat.lt_of_succ_lt_succ (below i _ free)

/-- Free depth and instances. The free depth of a resolved type is the largest depth at which a
variable is free in its reference, there is none if no variable is, and the flag tells which.
Closed bindings can be put in place exactly if there is one for every variable that is bound at
depth zero; then the instance resolves, and its free depth is one less if there is any left. -/
theorem freeDepth_spec (h : (core home).resolve ref = .ok t) :
    (∀ d, t.freeDepth = some d ↔ IsGreatest {d | ∃ i, ref.Free i d} d) ∧
      (t.freeDepth = none ↔ ∀ i d, ¬ ref.Free i d) ∧
      (t.flags.hasVar = true ↔ ∃ d, t.freeDepth = some d) ∧
      ∀ bs : List TypeRef,
        (∀ b ∈ bs, ∃ s, (core home).resolve b = .ok s ∧ s.freeDepth = none) →
          ((∃ r, ref.instantiate bs = .ok r) ↔ ∀ i, ref.Free i 0 → i.toNat < bs.length) ∧
          ∀ r, ref.instantiate bs = .ok r →
            ∃ s, (core home).resolve r = .ok s ∧ s.freeDepth = Ty.lower t.freeDepth := by
  have own := owns_of_resolve h
  obtain rfl := ref_of_resolve h
  refine ⟨fun d => freeDepth_eq_some_iff own, freeDepth_eq_none_iff_free own,
    Option.isSome_iff_exists, fun bs bound => ⟨TypeRef.exists_substitute_iff, fun r hr => ?_⟩⟩
  have closed : ∀ b ∈ bs, ∀ i d, ¬ b.Free i d := fun b hb => by
    obtain ⟨s, hs, none⟩ := bound b hb
    rw [← ref_of_resolve hs]
    exact (freeDepth_eq_none_iff_free (owns_of_resolve hs)).1 none
  have resolves : ∀ b ∈ bs, (core home).Resolves b := fun b hb =>
    (bound b hb).imp fun _ hs => hs.1
  obtain ⟨s, hs⟩ := resolves_substitute closed resolves ⟨t, h⟩ hr
  rw [← ref_of_resolve hs] at hr
  exact ⟨s, hs, freeDepth_instance own (owns_of_resolve hs) closed hr⟩

/-- A tuple of a variable and a generic, in whose body a variable is bound two generics further out,
and to which a variable of the next generic is bound. -/
theorem freeDepth_spec_nested :
    let ref : TypeRef :=
      .tuple [.var 0 0, .genericBound (.tuple [.var 0 0, .var 3 2]) 1 [.list (.var 1 1)]]
    ∃ t, (core 0).resolve ref = .ok t ∧ t.freeDepth = some 1 ∧ t.flags.hasVar = true ∧
      IsGreatest {d | ∃ i, ref.Free i d} 1 ∧
      ∃ r s, ref.instantiate [.int] = .ok r ∧ (core 0).resolve r = .ok s ∧ s.freeDepth = some 0 := by
  intro ref
  obtain ⟨t, b, ht, depth, hb, none⟩ : ∃ t b, (core 0).resolve ref = .ok t ∧ t.freeDepth = some 1 ∧
      (core 0).resolve .int = .ok b ∧ b.freeDepth = none := ⟨_, _, rfl, rfl, rfl, rfl⟩
  obtain ⟨exact_depth, -, flag, instances⟩ := freeDepth_spec ht
  obtain ⟨-, lowered⟩ := instances [.int] (List.forall_mem_singleton.2 ⟨b, hb, none⟩)
  obtain ⟨s, hs, one_less⟩ := lowered _ rfl
  rw [depth] at one_less
  exact ⟨t, ht, depth, flag.2 ⟨1, depth⟩, (exact_depth 1).1 depth, _, s, rfl, hs, one_less⟩

end Registry

end TypedTree
