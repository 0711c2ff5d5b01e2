import TypedTree.Proofs.Weights

/-!
# Substitution and shifting

How the instance of a generic within a generic depends on the order of instantiation: it does not.
The bindings of the inner generic may be put in place first, and those of the outer one into the
result, or those of the outer one into body and bindings of the inner one first.

Variables are written anew when they move. A variable that carries type arguments, which none does
that resolves, loses them on the way, and one whose depth leaves 32 bits is no variable any more. So
both are excluded where they would show.

## Main definitions

* `TypeRef.EachVar`: whether all variables of a reference have a property.
* `TypeRef.RaisesWithin`, `TypeRef.SubstitutesWithin`: whether depths stay within 32 bits.
* `TypeRef.IsBare`: whether free variables carry no type arguments.

## Main statements

* `TypeRef.raise_raise`, `TypeRef.substitute_raise`, `TypeRef.substitute_raise_succ`: how shifts
  pass each other and substitutions.
* `TypeRef.instantiate_comp`: the two orders of instantiation agree.
-/

namespace TypedTree

namespace TypeRef

/-! ## The forms of references -/

theorem eq_count_of_uint32? {v : Value} {n : UInt32} (h : v.uint32? = some n) :
    v = .count n.toNat := by
  cases v with
  | int i =>
    simp only [Value.uint32?, Value.int?, Option.bind_eq_bind, Option.bind_some,
      Option.ite_none_right_eq_some, Option.some.injEq] at h
    obtain ⟨⟨nonneg, small⟩, rfl⟩ := h
    have back : (UInt32.ofNat i.toInt.toNat).toNat = i.toInt.toNat :=
      UInt32.toNat_ofNat_of_lt' (by simp only [UInt32.size]; omega)
    rw [Value.count, back, ← Int64.ofInt_eq_ofNat, Int.toNat_of_nonneg nonneg, Int64.ofInt_toInt]
  | _ => simp [Value.uint32?, Value.int?] at h

/-- A variable is written in one way, but for type arguments. -/
theorem eq_of_var? {c : GlobalId} {values : List Value} {v : TypeVar}
    (h : var? c values = some v) :
    c = Core.var ∧ values = [.count v.index.toNat, .count v.depth.toNat] := by
  simp only [var?] at h
  split at h
  · rename_i hc
    split at h
    · simp only [Option.bind_eq_bind, Option.bind_eq_some_iff, Option.some.injEq] at h
      obtain ⟨i, hi, d, hd, rfl⟩ := h
      rw [eq_count_of_uint32? hi, eq_count_of_uint32? hd]
      exact ⟨hc, rfl⟩
    · simp at h
  · simp at h

/-- Induction on references by the forms that shifting and substitution tell apart. -/
@[elab_as_elim]
theorem induct_forms {P : TypeRef → Prop} (primitive : ∀ id, P (.primitive id))
    (var : ∀ c types values v, var? c values = some v → P (.constructed c types values))
    (generic : ∀ body bindings values, P body → (∀ b ∈ bindings, P b) →
      P (.constructed Core.generic (body :: bindings) values))
    (plain : ∀ c types values, var? c values = none → (c = Core.generic → types = []) →
      (∀ t ∈ types, P t) → P (.constructed c types values))
    (r : TypeRef) : P r := by
  induction r using induct_types with
  | primitive id => exact primitive id
  | constructed c types values ih =>
    cases hv : var? c values with
    | some v => exact var c types values v hv
    | none =>
      by_cases hc : c = Core.generic
      · subst hc
        cases types with
        | nil => exact plain _ _ _ hv (fun _ => rfl) ih
        | cons body bindings =>
          rw [List.forall_mem_cons] at ih
          exact generic body bindings values ih.1 ih.2
      · exact plain c types values hv (fun h => absurd h hc) ih

/-! ## Properties of variables -/

section EachVar

variable (P : Nat → TypeVar → List TypeRef → Prop)

mutual

/-- Whether every variable of a reference has a property, which is asked of the number of generics
around it, `level` more than there are in the reference, the variable, and its type arguments. -/
def EachVar (level : Nat) : TypeRef → Prop
  | .primitive _ => True
  | .constructed c types values =>
    match var? c values with
    | some v => P level v types
    | none => if c = Core.generic then EachVarBody level types else EachVarAll level types
termination_by structural x => x

/-- Whether the variables of every reference in a list have a property. -/
def EachVarAll (level : Nat) : List TypeRef → Prop
  | [] => True
  | r :: rest => EachVar level r ∧ EachVarAll level rest
termination_by structural x => x

/-- Whether the variables of a body and its bindings have a property. -/
def EachVarBody (level : Nat) : List TypeRef → Prop
  | [] => True
  | body :: bindings => EachVar (level + 1) body ∧ EachVarAll level bindings
termination_by structural x => x

end

variable {P} {level : Nat} {c : GlobalId} {types bindings : List TypeRef} {values : List Value}
  {body : TypeRef}

theorem eachVarAll_iff : EachVarAll P level types ↔ ∀ t ∈ types, EachVar P level t := by
  induction types with
  | nil => simp [EachVarAll]
  | cons t types ih => simp [EachVarAll, ih]

theorem eachVar_var {v : TypeVar} (h : var? c values = some v) :
    EachVar P level (.constructed c types values) ↔ P level v types := by
  rw [EachVar, h]

theorem eachVar_generic :
    EachVar P level (.constructed Core.generic (body :: bindings) values) ↔
      EachVar P (level + 1) body ∧ ∀ b ∈ bindings, EachVar P level b := by
  rw [EachVar, var?_generic]
  simp only [if_true, EachVarBody, eachVarAll_iff]

theorem eachVar_plain (h : var? c values = none) (hc : c = Core.generic → types = []) :
    EachVar P level (.constructed c types values) ↔ ∀ t ∈ types, EachVar P level t := by
  rw [EachVar, h]
  by_cases generic : c = Core.generic
  · simp [generic, hc generic, EachVarBody]
  · simp only [if_neg generic, eachVarAll_iff]

section Decide

variable [∀ level v types, Decidable (P level v types)]

mutual

/-- Decide a property of all variables. -/
def decideEachVar (level : Nat) : (r : TypeRef) → Decidable (EachVar P level r)
  | .primitive _ => .isTrue trivial
  | .constructed c types values =>
    match hv : var? c values with
    | some v => decidable_of_iff (P level v types) (eachVar_var hv).symm
    | none =>
      if hc : c = Core.generic then
        have := decideEachVarBody level types
        decidable_of_iff (EachVarBody P level types) (by rw [EachVar, hv]; exact (if_pos hc).symm ▸ Iff.rfl)
      else
        have := decideEachVarAll level types
        decidable_of_iff (EachVarAll P level types) (by rw [EachVar, hv]; exact (if_neg hc).symm ▸ Iff.rfl)
termination_by structural x => x

/-- Decide a property of the variables in a list of references. -/
def decideEachVarAll (level : Nat) : (types : List TypeRef) → Decidable (EachVarAll P level types)
  | [] => .isTrue trivial
  | r :: rest =>
    have := decideEachVar level r
    have := decideEachVarAll level rest
    inferInstanceAs (Decidable (EachVar P level r ∧ EachVarAll P level rest))
termination_by structural x => x

/-- Decide a property of the variables in a body and its bindings. -/
def decideEachVarBody (level : Nat) : (types : List TypeRef) → Decidable (EachVarBody P level types)
  | [] => .isTrue trivial
  | body :: bindings =>
    have := decideEachVar (level + 1) body
    have := decideEachVarAll level bindings
    inferInstanceAs (Decidable (EachVar P (level + 1) body ∧ EachVarAll P level bindings))
termination_by structural x => x

end

instance (level : Nat) (r : TypeRef) : Decidable (EachVar P level r) := decideEachVar level r

end Decide

end EachVar

/-- Whether raising keeps the depths of variables within 32 bits. -/
def RaisesWithin (levels : Nat) : Nat → TypeRef → Prop :=
  EachVar fun cutoff v _ => cutoff ≤ v.depth.toNat → v.depth.toNat + levels < UInt32.size

/-- Whether the bindings that a substitution puts in place keep the depths of their variables
within 32 bits. -/
def SubstitutesWithin (bindings : List TypeRef) : Nat → TypeRef → Prop :=
  EachVar fun level v _ => v.depth.toNat = level →
    ∀ b ∈ bindings[v.index.toNat]?, b.RaisesWithin level 0

/-- Whether free variables carry no type arguments, those that are bound at or beyond `cutoff`
generics. -/
def IsBare : Nat → TypeRef → Prop :=
  EachVar fun cutoff v types => cutoff ≤ v.depth.toNat → types = []

instance (levels cutoff : Nat) (r : TypeRef) : Decidable (RaisesWithin levels cutoff r) :=
  inferInstanceAs (Decidable (EachVar _ cutoff r))

instance (bindings : List TypeRef) (level : Nat) (r : TypeRef) :
    Decidable (SubstitutesWithin bindings level r) :=
  inferInstanceAs (Decidable (EachVar _ level r))

instance (cutoff : Nat) (r : TypeRef) : Decidable (IsBare cutoff r) :=
  inferInstanceAs (Decidable (EachVar _ cutoff r))

/-! ## Shifting and substituting by forms -/

section Equations

variable {levels cutoff level : Nat} {c : GlobalId} {types bindings bound : List TypeRef}
  {values : List Value} {body r : TypeRef} {v : TypeVar}

theorem varAt_toNat (index depth : UInt32) : varAt index depth.toNat = var index depth := by
  have small : depth.toNat ≤ UInt32.size := Nat.le_of_lt depth.toNat_lt
  rw [varAt, var, Nat.min_eq_left small]

/-- A variable without type arguments. -/
theorem eq_varAt (h : var? c values = some v) :
    .constructed c [] values = varAt v.index v.depth.toNat := by
  obtain ⟨rfl, rfl⟩ := eq_of_var? h
  exact (varAt_toNat ..).symm

theorem var?_of_lt {index : UInt32} {depth : Nat} (h : depth < UInt32.size) :
    var? Core.var [.count index.toNat, .count (min depth UInt32.size)] =
      some ⟨index, .ofNat depth⟩ :=
  (var?_varAt index depth).trans (if_pos h)

section Raise

variable {write : Writer}

theorem raiseBy_far (h : var? c values = some v) (far : cutoff ≤ v.depth.toNat) :
    raiseBy write levels cutoff (.constructed c types values) =
      write v.index (v.depth.toNat + levels) := by
  rw [raiseBy, h]
  exact if_pos far

theorem raiseBy_near (h : var? c values = some v) (near : v.depth.toNat < cutoff) :
    raiseBy write levels cutoff (.constructed c types values) = .constructed c types values := by
  rw [raiseBy, h]
  exact if_neg (Nat.not_le.2 near)

theorem raiseBy_generic :
    raiseBy write levels cutoff (.constructed Core.generic (body :: bindings) values) =
      .constructed Core.generic
        (raiseBy write levels (cutoff + 1) body :: bindings.map (raiseBy write levels cutoff))
        values := by
  rw [raiseBy, var?_generic]
  simp only [if_true, raiseBodyBy, raiseAllBy_eq]

theorem raiseBy_plain (h : var? c values = none) (hc : c = Core.generic → types = []) :
    raiseBy write levels cutoff (.constructed c types values) =
      .constructed c (types.map (raiseBy write levels cutoff)) values := by
  rw [raiseBy, h]
  by_cases generic : c = Core.generic
  · simp [generic, hc generic, raiseBodyBy]
  · simp only [if_neg generic, raiseAllBy_eq]

end Raise

theorem raise_far (h : var? c values = some v) (far : cutoff ≤ v.depth.toNat) :
    raise levels cutoff (.constructed c types values) = varAt v.index (v.depth.toNat + levels) :=
  raiseBy_far h far

theorem raise_near (h : var? c values = some v) (near : v.depth.toNat < cutoff) :
    raise levels cutoff (.constructed c types values) = .constructed c types values :=
  raiseBy_near h near

theorem raise_generic :
    raise levels cutoff (.constructed Core.generic (body :: bindings) values) =
      .constructed Core.generic
        (raise levels (cutoff + 1) body :: bindings.map (raise levels cutoff)) values :=
  raiseBy_generic

theorem raise_plain (h : var? c values = none) (hc : c = Core.generic → types = []) :
    raise levels cutoff (.constructed c types values) =
      .constructed c (types.map (raise levels cutoff)) values :=
  raiseBy_plain h hc

theorem raise_varAt {index : UInt32} {depth : Nat} (small : depth < UInt32.size)
    (far : cutoff ≤ depth) :
    raise levels cutoff (varAt index depth) = varAt index (depth + levels) := by
  have same : (UInt32.ofNat depth).toNat = depth := UInt32.toNat_ofNat_of_lt' small
  rw [varAt, raise_far (var?_of_lt small) (by rwa [same]), same]

/-- A variable written anew is what it was if its depth is and there are no type arguments to
lose. -/
theorem varAt_add_eq_iff (h : var? c values = some v) :
    varAt v.index (v.depth.toNat + levels) = .constructed c types values ↔
      levels = 0 ∧ types = [] := by
  constructor
  · intro same
    obtain ⟨rfl, none, written⟩ := TypeRef.constructed.inj same
    have found := (var?_varAt v.index (v.depth.toNat + levels)).symm.trans (written ▸ h)
    split at found
    · rename_i small
      have depth := congrArg (·.depth.toNat) (Option.some.inj found)
      simp only [UInt32.toNat_ofNat_of_lt' small] at depth
      exact ⟨by omega, none.symm⟩
    · -- a depth that leaves 32 bits is no variable
      cases found
  · rintro ⟨rfl, rfl⟩
    exact (eq_varAt h).symm

section Substitute

variable {write : Writer}

/-- A variable that is bound by the substituted generic. -/
theorem substituteBy_here (h : var? c values = some v) (here : v.depth.toNat = level) :
    substituteBy write bound level (.constructed c types values) = .ok r ↔
      ∃ b, bound[v.index.toNat]? = some b ∧ b.shiftBy write level 0 = r := by
  rw [substituteBy, h]
  simp only [if_pos here]
  cases bound[v.index.toNat]? <;> simp

/-- A variable that is bound further out. -/
theorem substituteBy_beyond (h : var? c values = some v) (beyond : level < v.depth.toNat) :
    substituteBy write bound level (.constructed c types values) =
      .ok (varAt v.index (v.depth.toNat - 1)) := by
  have positive : (1 : UInt32) ≤ v.depth := UInt32.le_iff_toNat_le.2 (by simp; omega)
  have lowered : (v.depth - 1).toNat = v.depth.toNat - 1 := by
    rw [UInt32.toNat_sub_of_le _ _ positive, UInt32.toNat_one]
  rw [substituteBy, h, ← lowered, varAt_toNat]
  simp only [if_neg (Nat.ne_of_gt beyond), if_pos beyond]

/-- A variable that is bound further in. -/
theorem substituteBy_inside (h : var? c values = some v) (inside : v.depth.toNat < level) :
    substituteBy write bound level (.constructed c types values) =
      .ok (.constructed c types values) := by
  rw [substituteBy, h]
  simp only [if_neg (Nat.ne_of_lt inside), if_neg (Nat.lt_asymm inside)]

theorem substituteBy_generic_eq_ok :
    substituteBy write bound level (.constructed Core.generic (body :: bindings) values) = .ok r ↔
      ∃ body' bindings', substituteBy write bound (level + 1) body = .ok body' ∧
        List.Forall₂ (fun b b' => substituteBy write bound level b = .ok b') bindings bindings' ∧
          .constructed Core.generic (body' :: bindings') values = r := by
  rw [substituteBy, var?_generic]
  simp only [if_true, substituteBodyBy, Outcome.bind_eq_ok, substituteAllBy_eq_ok,
    Except.ok.injEq]
  constructor
  · rintro ⟨_, ⟨body', hb, bindings', hbs, rfl⟩, rfl⟩
    exact ⟨body', bindings', hb, hbs, rfl⟩
  · rintro ⟨body', bindings', hb, hbs, rfl⟩
    exact ⟨_, ⟨body', hb, bindings', hbs, rfl⟩, rfl⟩

theorem substituteBy_plain_eq_ok (h : var? c values = none) (hc : c = Core.generic → types = []) :
    substituteBy write bound level (.constructed c types values) = .ok r ↔
      ∃ types', List.Forall₂ (fun t t' => substituteBy write bound level t = .ok t') types types' ∧
        .constructed c types' values = r := by
  rw [substituteBy, h]
  by_cases generic : c = Core.generic
  · simp [generic, hc generic, substituteBodyBy]
  · simp only [if_neg generic, Outcome.bind_eq_ok, substituteAllBy_eq_ok, Except.ok.injEq]

end Substitute

theorem substitute_here (h : var? c values = some v) (here : v.depth.toNat = level) :
    substitute bound level (.constructed c types values) = .ok r ↔
      ∃ b, bound[v.index.toNat]? = some b ∧ b.shift level 0 = r :=
  substituteBy_here h here

theorem substitute_beyond (h : var? c values = some v) (beyond : level < v.depth.toNat) :
    substitute bound level (.constructed c types values) =
      .ok (varAt v.index (v.depth.toNat - 1)) :=
  substituteBy_beyond h beyond

theorem substitute_inside (h : var? c values = some v) (inside : v.depth.toNat < level) :
    substitute bound level (.constructed c types values) = .ok (.constructed c types values) :=
  substituteBy_inside h inside

theorem substitute_generic_eq_ok :
    substitute bound level (.constructed Core.generic (body :: bindings) values) = .ok r ↔
      ∃ body' bindings', substitute bound (level + 1) body = .ok body' ∧
        List.Forall₂ (fun b b' => substitute bound level b = .ok b') bindings bindings' ∧
          .constructed Core.generic (body' :: bindings') values = r :=
  substituteBy_generic_eq_ok

theorem substitute_plain_eq_ok (h : var? c values = none) (hc : c = Core.generic → types = []) :
    substitute bound level (.constructed c types values) = .ok r ↔
      ∃ types', List.Forall₂ (fun t t' => substitute bound level t = .ok t') types types' ∧
        .constructed c types' values = r :=
  substituteBy_plain_eq_ok h hc

theorem substitute_varAt {index : UInt32} {depth : Nat} (small : depth < UInt32.size)
    (beyond : level < depth) :
    substitute bound level (varAt index depth) = .ok (varAt index (depth - 1)) := by
  have same : (UInt32.ofNat depth).toNat = depth := UInt32.toNat_ofNat_of_lt' small
  rw [varAt, substitute_beyond (var?_of_lt small) (by rwa [same]), same]

theorem substitute_varAt_here {index : UInt32} {depth : Nat} (small : depth < UInt32.size) :
    substitute bound depth (varAt index depth) = .ok r ↔
      ∃ b, bound[index.toNat]? = some b ∧ b.shift depth 0 = r := by
  have same : (UInt32.ofNat depth).toNat = depth := UInt32.toNat_ofNat_of_lt' small
  rw [varAt, substitute_here (var?_of_lt small) same]

end Equations

/-! ## Shifts past shifts and substitutions -/

section Passing

variable {levels more cutoff level : Nat} {cs : List TypeRef} {r r' c : TypeRef}

/-- A form that is no generic with arguments stays one when its arguments are replaced. -/
theorem nil_of_forall₂ {R : TypeRef → TypeRef → Prop} {c : GlobalId} {types types' : List TypeRef}
    (hc : c = Core.generic → types = []) (h : List.Forall₂ R types types') :
    c = Core.generic → types' = [] := by
  intro generic
  rw [hc generic] at h
  exact List.forall₂_nil_left_iff.1 h

theorem nil_of_map {c : GlobalId} {types : List TypeRef} (hc : c = Core.generic → types = [])
    (f : TypeRef → TypeRef) : c = Core.generic → types.map f = [] := by
  intro generic
  rw [hc generic, List.map_nil]

theorem map_eq_self_iff {f : TypeRef → TypeRef} {types : List TypeRef} :
    types.map f = types ↔ ∀ t ∈ types, f t = t := by
  have same : types.map f = types.map (fun t => t) ↔ ∀ t ∈ types, f t = t := List.map_inj_left
  rwa [List.map_id'] at same

/-- A relation between the members of two lists, after both are mapped. -/
theorem forall₂_map_map {f g : TypeRef → TypeRef} {R S : TypeRef → TypeRef → Prop}
    {types types' : List TypeRef} (h : List.Forall₂ S types types')
    (hR : ∀ t ∈ types, ∀ t' ∈ types', S t t' → R (f t) (g t')) :
    List.Forall₂ R (types.map f) (types'.map g) := by
  induction h with
  | nil => exact .nil
  | cons head _ ih =>
    refine .cons (hR _ List.mem_cons_self _ List.mem_cons_self head) (ih ?_)
    intro t ht t' ht'
    exact hR t (List.mem_cons_of_mem _ ht) t' (List.mem_cons_of_mem _ ht')

/-- What is raised twice is raised by both, if the second cutoff is among the levels that the first
raise opens: then both reach the same variables. -/
theorem raise_raise {cutoff' : Nat} (low : cutoff ≤ cutoff') (high : cutoff' ≤ cutoff + levels)
    (within : RaisesWithin (levels + more) cutoff r) :
    raise more cutoff' (raise levels cutoff r) = raise (levels + more) cutoff r := by
  induction r using induct_forms generalizing cutoff cutoff' with
  | primitive id => rfl
  | var c types values v hv =>
    have small := (eachVar_var hv).1 within
    by_cases far : cutoff ≤ v.depth.toNat
    · have fits := small far
      rw [raise_far hv far, raise_far hv far, raise_varAt (by omega) (by omega), Nat.add_assoc]
    · have near : v.depth.toNat < cutoff := Nat.lt_of_not_le far
      rw [raise_near hv near, raise_near hv near, raise_near hv (by omega)]
  | generic body bindings values ihb ihs =>
    obtain ⟨inner, outer⟩ := eachVar_generic.1 within
    have bodies : raise more (cutoff' + 1) (raise levels (cutoff + 1) body) =
        raise (levels + more) (cutoff + 1) body := ihb (by omega) (by omega) inner
    have lists : ∀ b ∈ bindings, raise more cutoff' (raise levels cutoff b) =
        raise (levels + more) cutoff b := fun b hb => ihs b hb low high (outer b hb)
    rw [raise_generic, raise_generic, raise_generic, List.map_map, bodies]
    congr 2
    exact List.map_congr_left lists
  | plain c types values hv hc ih =>
    have each := (eachVar_plain hv hc).1 within
    have lists : ∀ t ∈ types, raise more cutoff' (raise levels cutoff t) =
        raise (levels + more) cutoff t := fun t ht => ih t ht low high (each t ht)
    have hc' : c = Core.generic → types.map (raise levels cutoff) = [] := nil_of_map hc _
    rw [raise_plain hv hc, raise_plain hv hc, raise_plain hv hc', List.map_map]
    congr 1
    exact List.map_congr_left lists

/-- Raising twice within 32 bits is raising by both within 32 bits. -/
theorem RaisesWithin.trans (within : RaisesWithin levels cutoff r)
    (within' : RaisesWithin more (cutoff + levels) (raise levels cutoff r)) :
    RaisesWithin (levels + more) cutoff r := by
  induction r using induct_forms generalizing cutoff with
  | primitive id => trivial
  | var c types values v hv =>
    have fits := (eachVar_var hv).1 within
    refine (eachVar_var hv).2 ?_
    intro far
    have small := fits far
    have same : (UInt32.ofNat (v.depth.toNat + levels)).toNat = v.depth.toNat + levels :=
      UInt32.toNat_ofNat_of_lt' small
    rw [raise_far hv far] at within'
    have fits' := (eachVar_var (var?_of_lt small)).1 within'
    simp only [same] at fits'
    have small' := fits' (by omega)
    omega
  | generic body bindings values ihb ihs =>
    obtain ⟨inner, outer⟩ := eachVar_generic.1 within
    rw [raise_generic] at within'
    obtain ⟨inner', outer'⟩ := eachVar_generic.1 within'
    rw [show cutoff + levels + 1 = cutoff + 1 + levels by omega] at inner'
    refine eachVar_generic.2 ⟨ihb inner inner', ?_⟩
    intro b hb
    exact ihs b hb (outer b hb) (outer' _ (List.mem_map_of_mem hb))
  | plain c types values hv hc ih =>
    have each := (eachVar_plain hv hc).1 within
    have hc' : c = Core.generic → types.map (raise levels cutoff) = [] := nil_of_map hc _
    rw [raise_plain hv hc] at within'
    have each' := (eachVar_plain hv hc').1 within'
    refine (eachVar_plain hv hc).2 ?_
    intro t ht
    exact ih t ht (each t ht) (each' _ (List.mem_map_of_mem ht))

/-- A shifted reference that is raised is shifted by both. -/
theorem raise_shift (positive : 0 < more) (within : RaisesWithin levels 0 c)
    (within' : RaisesWithin more levels (c.shift levels 0)) :
    raise more levels (c.shift levels 0) = c.shift (levels + more) 0 := by
  rw [shift_eq, shift_eq, if_neg (by omega : ¬ levels + more = 0)]
  by_cases still : levels = 0
  · rw [if_pos still, still, Nat.zero_add]
  · rw [shift_eq, if_neg still] at within'
    rw [if_neg still]
    have both : RaisesWithin (levels + more) 0 c :=
      within.trans (by rwa [Nat.zero_add])
    exact raise_raise (Nat.zero_le _) (Nat.le_of_eq (Nat.zero_add _).symm) both

/-- Raising changes nothing just if it reaches no variable, or adds nothing to those it reaches and
these have no type arguments to lose. -/
theorem raise_eq_self_iff :
    raise levels cutoff r = r ↔
      EachVar (fun cutoff v types => cutoff ≤ v.depth.toNat → levels = 0 ∧ types = []) cutoff r := by
  induction r using induct_forms generalizing cutoff with
  | primitive id => exact iff_of_true rfl trivial
  | var c types values v hv =>
    rw [eachVar_var hv]
    by_cases far : cutoff ≤ v.depth.toNat
    · rw [raise_far hv far, varAt_add_eq_iff hv]
      exact ⟨fun same _ => same, fun same => same far⟩
    · exact iff_of_true (raise_near hv (Nat.lt_of_not_le far)) fun h => absurd h far
  | generic body bindings values ihb ihs =>
    rw [raise_generic, eachVar_generic, TypeRef.constructed.injEq, List.cons.injEq, map_eq_self_iff,
      ihb, forall₂_congr fun b hb => ihs b hb]
    simp only [true_and, and_true]
  | plain c types values hv hc ih =>
    rw [raise_plain hv hc, eachVar_plain hv hc, TypeRef.constructed.injEq, map_eq_self_iff,
      forall₂_congr fun t ht => ih t ht]
    simp only [true_and, and_true]

/-- Raising by nothing writes variables anew. -/
theorem raise_zero_iff : raise 0 cutoff r = r ↔ IsBare cutoff r := by
  rw [raise_eq_self_iff]
  simp only [true_and]
  rfl

/-- What is raised over a substituted generic and one level more loses this level. -/
theorem substitute_raise_succ (bindings : List TypeRef)
    (within : RaisesWithin (levels + 1) cutoff r) :
    substitute bindings (cutoff + levels) (raise (levels + 1) cutoff r) =
      .ok (raise levels cutoff r) := by
  induction r using induct_forms generalizing cutoff with
  | primitive id => rfl
  | var c types values v hv =>
    have fits := (eachVar_var hv).1 within
    by_cases far : cutoff ≤ v.depth.toNat
    · have small := fits far
      rw [raise_far hv far, raise_far hv far, substitute_varAt small (by omega)]
      rfl
    · have near : v.depth.toNat < cutoff := Nat.lt_of_not_le far
      rw [raise_near hv near, raise_near hv near, substitute_inside hv (by omega)]
  | generic body bound values ihb ihs =>
    obtain ⟨inner, outer⟩ := eachVar_generic.1 within
    rw [raise_generic, raise_generic]
    refine substitute_generic_eq_ok.2 ⟨_, _, ?_, ?_, rfl⟩
    · rw [show cutoff + levels + 1 = cutoff + 1 + levels by omega]
      exact ihb inner
    · refine forall₂_map_map (List.forall₂_same.2 fun _ _ => rfl) ?_
      rintro b hb _ - rfl
      exact ihs b hb (outer b hb)
  | plain c types values hv hc ih =>
    have each := (eachVar_plain hv hc).1 within
    have hc' : c = Core.generic → types.map (raise (levels + 1) cutoff) = [] := nil_of_map hc _
    rw [raise_plain hv hc, raise_plain hv hc]
    refine (substitute_plain_eq_ok hv hc').2 ⟨_, ?_, rfl⟩
    refine forall₂_map_map (List.forall₂_same.2 fun _ _ => rfl) ?_
    rintro t ht _ - rfl
    exact ih t ht (each t ht)

/-- Raising passes a substitution, which then takes place further out. -/
theorem substitute_raise (positive : 0 < more) (hr : substitute cs level r = .ok r')
    (moved : SubstitutesWithin cs level r) (within : RaisesWithin more level r)
    (within' : RaisesWithin more level r') :
    substitute cs (level + more) (raise more level r) = .ok (raise more level r') := by
  induction r using induct_forms generalizing level r' with
  | primitive id =>
    obtain rfl := Except.ok.inj hr
    rfl
  | var c types values v hv =>
    have fits := (eachVar_var hv).1 within
    rcases Nat.lt_trichotomy v.depth.toNat level with inside | here | beyond
    · rw [substitute_inside hv inside] at hr
      obtain rfl := Except.ok.inj hr
      rw [raise_near hv inside, substitute_inside hv (by omega)]
    · obtain ⟨b, hb, rfl⟩ := (substitute_here hv here).1 hr
      have small := fits (Nat.le_of_eq here.symm)
      have binding := (eachVar_var hv).1 moved here b hb
      rw [raise_far hv (Nat.le_of_eq here.symm), here]
      rw [here] at small
      exact (substitute_varAt_here small).2 ⟨b, hb, (raise_shift positive binding within').symm⟩
    · rw [substitute_beyond hv beyond] at hr
      obtain rfl := Except.ok.inj hr
      have small := fits (Nat.le_of_lt beyond)
      rw [raise_far hv (Nat.le_of_lt beyond), substitute_varAt small (by omega),
        raise_varAt (by omega) (by omega), show v.depth.toNat + more - 1 = v.depth.toNat - 1 + more
          by omega]
  | generic body bound values ihb ihs =>
    obtain ⟨body', bound', hb, hbs, rfl⟩ := substitute_generic_eq_ok.1 hr
    obtain ⟨inner, outer⟩ := eachVar_generic.1 within
    obtain ⟨inner', outer'⟩ := eachVar_generic.1 within'
    obtain ⟨moved, moves⟩ := eachVar_generic.1 moved
    rw [raise_generic, raise_generic]
    refine substitute_generic_eq_ok.2 ⟨_, _, ?_, ?_, rfl⟩
    · rw [show level + more + 1 = level + 1 + more by omega]
      exact ihb hb moved inner inner'
    · refine forall₂_map_map hbs ?_
      intro b hb b' hb' hs
      exact ihs b hb hs (moves b hb) (outer b hb) (outer' b' hb')
  | plain c types values hv hc ih =>
    obtain ⟨types', hs, rfl⟩ := (substitute_plain_eq_ok hv hc).1 hr
    have hc' : c = Core.generic → types.map (raise more level) = [] := nil_of_map hc _
    have hc'' : c = Core.generic → types' = [] := nil_of_forall₂ hc hs
    have each := (eachVar_plain hv hc).1 within
    have each' := (eachVar_plain hv hc'').1 within'
    have moves := (eachVar_plain hv hc).1 moved
    rw [raise_plain hv hc, raise_plain hv hc'']
    refine (substitute_plain_eq_ok hv hc').2 ⟨_, ?_, rfl⟩
    refine forall₂_map_map hs ?_
    intro t ht t' ht' hs
    exact ih t ht hs (moves t ht) (each t ht) (each' t' ht')

/-- Shifting is raising. -/
theorem raise_eq_shift (levels : Nat) (bare : IsBare 0 c) :
    raise levels 0 c = c.shift levels 0 := by
  rw [shift_eq]
  split
  · rename_i still
    rw [still, raise_zero_iff.2 bare]
  · rfl

/-! ## Substitutions past substitutions -/

/-- A substitution in a shifted reference takes place further out. -/
theorem substitute_shift (hr : substitute cs 0 r = .ok r') (moved : SubstitutesWithin cs 0 r)
    (within : RaisesWithin level 0 r) (within' : RaisesWithin level 0 r') :
    substitute cs level (r.shift level 0) = .ok (r'.shift level 0) := by
  rw [shift_eq, shift_eq]
  by_cases top : level = 0
  · rw [if_pos top, if_pos top, top, hr]
  · have raised := substitute_raise (Nat.pos_of_ne_zero top) hr moved within within'
    rw [if_neg top, if_neg top]
    rwa [Nat.zero_add] at raised

/-- A list of references whose members can be worked off one after the other. -/
theorem exists_forall₂_of_forall₂ {R S R' S' : TypeRef → TypeRef → Prop} {ts ts' rs : List TypeRef}
    (hR : List.Forall₂ R ts ts') (hS : List.Forall₂ S ts' rs)
    (h : ∀ t ∈ ts, ∀ t' ∈ ts', ∀ r, R t t' → S t' r → ∃ s, R' t s ∧ S' s r) :
    ∃ ss, List.Forall₂ R' ts ss ∧ List.Forall₂ S' ss rs := by
  induction hR generalizing rs with
  | nil =>
    obtain rfl := List.forall₂_nil_left_iff.1 hS
    exact ⟨[], .nil, .nil⟩
  | cons first _ ih =>
    obtain ⟨r, rs, second, rest, rfl⟩ := List.forall₂_cons_left_iff.1 hS
    obtain ⟨s, hs, hs'⟩ := h _ List.mem_cons_self _ List.mem_cons_self r first second
    obtain ⟨ss, hss, hss'⟩ := ih rest fun t ht t' ht' =>
      h t (List.mem_cons_of_mem _ ht) t' (List.mem_cons_of_mem _ ht')
    exact ⟨s :: ss, .cons hs hss, .cons hs' hss'⟩

/-- The bindings of a generic and those of the generic around it can be put in place in either
order. -/
theorem substitute_substitute {bs bs' : List TypeRef} {t t' : TypeRef}
    (bare : ∀ c ∈ cs, IsBare 0 c)
    (hbs : List.Forall₂ (fun b b' => substitute cs 0 b = .ok b') bs bs')
    (moved : ∀ b ∈ bs, SubstitutesWithin cs 0 b)
    (ht : substitute cs (level + 1) t = .ok t') (within : SubstitutesWithin cs (level + 1) t)
    (hr : substitute bs' level t' = .ok r) (within' : SubstitutesWithin bs' level t')
    (first : SubstitutesWithin bs level t) :
    ∃ s, substitute bs level t = .ok s ∧ substitute cs level s = .ok r := by
  induction t using induct_forms generalizing level t' r with
  | primitive id =>
    obtain rfl := Except.ok.inj ht
    obtain rfl := Except.ok.inj hr
    exact ⟨_, rfl, rfl⟩
  | var c types values v hv =>
    rcases Nat.lt_trichotomy v.depth.toNat level with inside | here | beyond
    · -- a variable of the body itself stays
      rw [substitute_inside hv (by omega)] at ht
      obtain rfl := Except.ok.inj ht
      rw [substitute_inside hv inside] at hr ⊢
      exact ⟨_, rfl, hr.symm ▸ substitute_inside hv inside⟩
    · -- a variable of the inner generic
      rw [substitute_inside hv (by omega)] at ht
      obtain rfl := Except.ok.inj ht
      obtain ⟨b', hb', rfl⟩ := (substitute_here hv here).1 hr
      obtain ⟨hi', rfl⟩ := List.getElem?_eq_some_iff.1 hb'
      have hi : v.index.toNat < bs.length := hbs.length_eq ▸ hi'
      have hb : bs[v.index.toNat]? = some bs[v.index.toNat] := List.getElem?_eq_getElem hi
      refine ⟨_, (substitute_here hv here).2 ⟨_, hb, rfl⟩, ?_⟩
      exact substitute_shift (hbs.get hi hi') (moved _ (List.getElem_mem hi))
        ((eachVar_var hv).1 first here _ hb) ((eachVar_var hv).1 within' here _ hb')
    · rcases Nat.lt_or_eq_of_le (Nat.succ_le_of_lt beyond) with further | here
      · -- a variable that is bound outside of both
        have small : v.depth.toNat < UInt32.size := v.depth.toNat_lt
        rw [substitute_beyond hv further] at ht
        obtain rfl := Except.ok.inj ht
        rw [substitute_varAt (by omega) (by omega)] at hr
        refine ⟨_, substitute_beyond hv beyond, ?_⟩
        rw [← hr, substitute_varAt (by omega) (by omega)]
      · -- a variable of the outer generic
        obtain ⟨b, hb, rfl⟩ := (substitute_here hv here.symm).1 ht
        have raised : RaisesWithin (level + 1) 0 b :=
          (eachVar_var hv).1 within here.symm b hb
        have free := bare b (List.mem_of_getElem? hb)
        have back := substitute_raise_succ bs' raised
        rw [Nat.zero_add, raise_eq_shift (level + 1) free, raise_eq_shift level free] at back
        rw [back] at hr
        refine ⟨_, substitute_beyond hv beyond, ?_⟩
        rw [← here, Nat.succ_sub_one, substitute_varAt_here (Nat.lt_trans beyond v.depth.toNat_lt)]
        exact ⟨b, hb, Except.ok.inj hr⟩
  | generic body bindings values ihb ihs =>
    obtain ⟨body', bindings', hb, hbs', rfl⟩ := substitute_generic_eq_ok.1 ht
    obtain ⟨body'', bindings'', hb', hbs'', rfl⟩ := substitute_generic_eq_ok.1 hr
    obtain ⟨inner, outer⟩ := eachVar_generic.1 within
    obtain ⟨inner', outer'⟩ := eachVar_generic.1 within'
    obtain ⟨first, firsts⟩ := eachVar_generic.1 first
    obtain ⟨s, hs, hs'⟩ := ihb hb inner hb' inner' first
    obtain ⟨ss, hss, hss'⟩ := exists_forall₂_of_forall₂ hbs' hbs'' fun b hm b' hm' r h h' =>
      ihs b hm h (outer b hm) h' (outer' b' hm') (firsts b hm)
    exact ⟨_, substitute_generic_eq_ok.2 ⟨s, ss, hs, hss, rfl⟩,
      substitute_generic_eq_ok.2 ⟨_, _, hs', hss', rfl⟩⟩
  | plain c types values hv hc ih =>
    obtain ⟨types', hs, rfl⟩ := (substitute_plain_eq_ok hv hc).1 ht
    have hc' : c = Core.generic → types' = [] := nil_of_forall₂ hc hs
    obtain ⟨types'', hs', rfl⟩ := (substitute_plain_eq_ok hv hc').1 hr
    have each := (eachVar_plain hv hc).1 within
    have each' := (eachVar_plain hv hc').1 within'
    have firsts := (eachVar_plain hv hc).1 first
    obtain ⟨ss, hss, hss'⟩ := exists_forall₂_of_forall₂ hs hs' fun t hm t' hm' r h h' =>
      ih t hm h (each t hm) h' (each' t' hm') (firsts t hm)
    have hc'' : c = Core.generic → ss = [] := nil_of_forall₂ hc hss
    exact ⟨_, (substitute_plain_eq_ok hv hc).2 ⟨ss, hss, rfl⟩,
      (substitute_plain_eq_ok hv hc'').2 ⟨_, hss', rfl⟩⟩

end Passing

/-! ## Instances of generics in generics -/

/-- Whether an instance has no variable whose depth leaves 32 bits on the way. -/
def InstantiatesWithin (body : TypeRef) (bindings : List TypeRef) : Prop :=
  SubstitutesWithin bindings 0 body

instance (body : TypeRef) (bindings : List TypeRef) : Decidable (body.InstantiatesWithin bindings) :=
  inferInstanceAs (Decidable (SubstitutesWithin bindings 0 body))

/-- The instance of a bound generic within a generic does not depend on which of the two is
instantiated first, whatever generics are nested and whatever variables are free in the bindings, as
long as depths stay within 32 bits and free variables in the bindings of the outer generic carry no
type arguments. -/
theorem instantiate_comp {t t' r : TypeRef} {vars : UInt32} {bs bs' cs : List TypeRef}
    (bare : ∀ c ∈ cs, IsBare 0 c)
    (within : (genericBound t vars bs).InstantiatesWithin cs) (within' : t'.InstantiatesWithin bs')
    (first : t.InstantiatesWithin bs)
    (outer : (genericBound t vars bs).instantiate cs = .ok (genericBound t' vars bs'))
    (inner : t'.instantiate bs' = .ok r) :
    ∃ s, t.instantiate bs = .ok s ∧ s.instantiate cs = .ok r := by
  obtain ⟨body, bindings, hb, hbs, whole⟩ := substitute_generic_eq_ok.1 outer
  simp only [genericBound, TypeRef.constructed.injEq, List.cons.injEq, true_and, and_true] at whole
  obtain ⟨rfl, rfl⟩ := whole
  have whole : SubstitutesWithin cs 0 (.constructed Core.generic (t :: bs) [.count vars.toNat]) :=
    within
  obtain ⟨inside, moved⟩ := eachVar_generic.1 whole
  exact substitute_substitute bare hbs moved hb inside inner within' first

/-- A generic with an open binding below a generic with two variables, of which one is bound to a
generic with a free variable. -/
theorem instantiate_comp_nested :
    let t : TypeRef := .tuple [.var 0 0, .var 1 1, .generic (.map (.var 0 0) (.var 1 2)) 1]
    let bs : List TypeRef := [.list (.var 0 0)]
    let cs : List TypeRef := [.generic (.map (.var 0 0) (.var 4 1)) 1, .var 7 5]
    (∀ c ∈ cs, IsBare 0 c) ∧ (genericBound t 1 bs).InstantiatesWithin cs ∧
      t.InstantiatesWithin bs ∧
        ∃ t' bs' r s, (genericBound t 1 bs).instantiate cs = .ok (genericBound t' 1 bs') ∧
          t'.InstantiatesWithin bs' ∧ t'.instantiate bs' = .ok r ∧ t.instantiate bs = .ok s ∧
            s.instantiate cs = .ok r := by
  intro t bs cs
  have bare : ∀ c ∈ cs, IsBare 0 c := by decide
  have within : (genericBound t 1 bs).InstantiatesWithin cs := by decide
  have first : t.InstantiatesWithin bs := by decide
  obtain ⟨t', bs', r, outer, within', inner⟩ : ∃ t' bs' r,
      (genericBound t 1 bs).instantiate cs = .ok (genericBound t' 1 bs') ∧
        t'.InstantiatesWithin bs' ∧ t'.instantiate bs' = .ok r :=
    ⟨_, _, _, rfl, by decide, rfl⟩
  obtain ⟨s, hs, hr⟩ := instantiate_comp bare within within' first outer inner
  exact ⟨bare, within, first, t', bs', r, s, outer, within', inner, hs, hr⟩

/-- The order matters where a variable that is bound to one of the outer generic carries a type
argument. -/
theorem instantiate_comp_argument :
    let t : TypeRef := .var 0 1
    let bs : List TypeRef := [.bool]
    let cs : List TypeRef := [.constructed Core.var [.bool] [.count 0, .count 0]]
    (genericBound t 1 bs).InstantiatesWithin cs ∧ t.InstantiatesWithin bs ∧
      ∃ t' bs' r s, (genericBound t 1 bs).instantiate cs = .ok (genericBound t' 1 bs') ∧
        t'.InstantiatesWithin bs' ∧ t'.instantiate bs' = .ok r ∧ t.instantiate bs = .ok s ∧
          s.InstantiatesWithin cs ∧ s.instantiate cs ≠ .ok r := by
  intro t bs cs
  exact ⟨by decide, by decide, _, _, .var 0 0, .var 0 0, rfl, by decide, rfl, rfl, by decide,
    by decide⟩

end TypeRef

end TypedTree
