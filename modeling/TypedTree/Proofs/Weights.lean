import TypedTree.Proofs.Resolution
import TypedTree.Subtyping

/-!
# What references weigh

Comparisons and defaults go from a type to its parts and, below a generic, to its instance, and they
stop at types that do not weigh less. Here it is shown that they never have to: the type arguments
of a reference weigh less than the reference, and so does the instance of a generic. A variable
counts as much as what is bound to it, so the instance weighs no more than the body does among its
bindings, however often the variables occur. The mark of a depth that got too large counts as one, as
does a variable to which nothing is bound; it hides what a variable at that depth would reach.

## Main definitions

* `TypeRef.boundWeight`: what a variable counts for.

## Main statements

* `TypeRef.weightIn_raise`, `TypeRef.weightIn_substitute`: shifting and substitution add no weight.
* `TypeRef.weight_argument_lt`, `TypeRef.weight_expand_lt`: what weighs less than a reference.
-/

namespace TypedTree

namespace TypeRef

/-! ## Variables -/

theorem uint32?_count {n : Nat} (h : n < UInt32.size) :
    (Value.count n).uint32? = some (.ofNat n) := by
  have small : n < 2 ^ 63 := Nat.lt_trans h (by decide)
  have back : (Int64.ofNat n).toInt = n := Int64.toInt_ofNat_of_lt small
  simp only [Value.uint32?, Value.int?, Value.count, Option.bind_eq_bind, Option.bind_some, back]
  simp only [UInt32.size] at h
  rw [if_pos (by omega), Int.toNat_natCast]

theorem uint32?_size : (Value.count UInt32.size).uint32? = none := by decide

theorem var?_var (index depth : UInt32) :
    var? Core.var [.count index.toNat, .count depth.toNat] = some ⟨index, depth⟩ := by
  simp [var?, uint32?_count index.toNat_lt, uint32?_count depth.toNat_lt]

/-- A variable at any depth is that variable or none. -/
theorem var?_varAt (index : UInt32) (depth : Nat) :
    var? Core.var [.count index.toNat, .count (min depth UInt32.size)] =
      if depth < UInt32.size then some ⟨index, .ofNat depth⟩ else none := by
  split
  · rename_i small
    rw [Nat.min_eq_left (Nat.le_of_lt small)]
    simp [var?, uint32?_count index.toNat_lt, uint32?_count small]
  · rename_i large
    rw [Nat.min_eq_right (Nat.le_of_not_lt large)]
    simp [var?, uint32?_count index.toNat_lt, uint32?_size]

theorem core_var_ne_generic : Core.var ≠ Core.generic := by decide

/-! ## Weights of lists -/

theorem weightAll_eq (scopes : List (List Nat)) (refs : List TypeRef) :
    weightAll scopes refs = refs.map (weightIn scopes) := by
  induction refs with
  | nil => rfl
  | cons r refs ih => simp [weightAll, ih]

theorem shift_eq (r : TypeRef) (levels cutoff : Nat) :
    r.shift levels cutoff = if levels = 0 then r else raise levels cutoff r := rfl

theorem raiseAllBy_eq (write : Writer) (levels cutoff : Nat) (refs : List TypeRef) :
    raiseAllBy write levels cutoff refs = refs.map (raiseBy write levels cutoff) := by
  induction refs with
  | nil => rfl
  | cons r refs ih => simp [raiseAllBy, ih]

theorem substituteAllBy_eq_ok {write : Writer} {bindings refs refs' : List TypeRef} {level : Nat} :
    substituteAllBy write bindings level refs = .ok refs' ↔
      List.Forall₂ (fun r r' => substituteBy write bindings level r = .ok r') refs refs' := by
  induction refs generalizing refs' with
  | nil => simp [substituteAllBy, eq_comm]
  | cons r refs ih =>
    simp only [substituteAllBy, Outcome.bind_eq_ok, ih, List.forall₂_cons_left_iff, Except.ok.injEq]
    constructor
    · rintro ⟨b, hb, bs', hbs, rfl⟩
      exact ⟨b, bs', hb, hbs, rfl⟩
    · rintro ⟨b, bs', hb, hbs, rfl⟩
      exact ⟨b, hb, bs', hbs, rfl⟩

/-- What a variable counts for. -/
def boundWeight (scopes : List (List Nat)) (depth index : Nat) : Nat :=
  (scopes[depth]?.bind (·[index]?)).getD 1

@[simp] theorem boundWeight_zero (scope : List Nat) (scopes : List (List Nat)) (index : Nat) :
    boundWeight (scope :: scopes) 0 index = scope[index]?.getD 1 := rfl

theorem total_le_total {ws' ws : List Nat} (h : List.Forall₂ (· ≤ ·) ws' ws) :
    total ws' ≤ total ws := by
  induction h with
  | nil => exact Nat.le_refl _
  | cons head _ ih => exact Nat.add_le_add head ih

theorem le_total_of_mem {w : Nat} {ws : List Nat} (h : w ∈ ws) : w ≤ total ws := by
  induction ws with
  | nil => simp at h
  | cons v ws ih =>
    obtain rfl | h := List.mem_cons.1 h
    · exact Nat.le_add_right _ _
    · exact Nat.le_trans (ih h) (Nat.le_add_left _ _)

section Equations

variable (scopes : List (List Nat)) (c : GlobalId) (types : List TypeRef) (values : List Value)

theorem weightIn_var {v : TypeVar} (h : var? c values = some v) :
    weightIn scopes (.constructed c types values) =
      boundWeight scopes v.depth.toNat v.index.toNat + total (types.map weight) := by
  rw [weightIn, h]
  simp only [weightAll_eq]
  rfl

theorem weightIn_plain (h : var? c values = none) (hc : c ≠ Core.generic) :
    weightIn scopes (.constructed c types values) = 1 + total (types.map (weightIn scopes)) := by
  rw [weightIn, h]
  simp only [if_neg hc, weightAll_eq]

theorem var?_generic : var? Core.generic values = none := by
  simp [var?, core_var_ne_generic.symm]

theorem weightIn_generic (body : TypeRef) :
    weightIn scopes (.constructed Core.generic (body :: types) values) =
      1 + (total (types.map (weightIn scopes)) +
        weightIn (types.map (weightIn scopes) :: scopes) body) := by
  rw [weightIn, var?_generic]
  simp only [if_true, weightBody, weightAll_eq]

end Equations

/-! ## Raising and substituting -/

theorem getD_le {ws' ws : List Nat} (h : List.Forall₂ (· ≤ ·) ws' ws) (i : Nat) :
    ws'[i]?.getD 1 ≤ ws[i]?.getD 1 := by
  induction h generalizing i with
  | nil => exact Nat.le_refl 1
  | cons head _ ih =>
    cases i with
    | zero => exact head
    | succ i => exact ih i

theorem forall₂_map_le {f g : TypeRef → Nat} {types : List TypeRef}
    (h : ∀ t ∈ types, f t ≤ g t) : List.Forall₂ (· ≤ ·) (types.map f) (types.map g) := by
  simpa [List.forall₂_map_left_iff, List.forall₂_map_right_iff, List.forall₂_same] using h

/-- Where variables count for less, references weigh less. -/
theorem weightIn_mono {scopes' scopes : List (List Nat)}
    (h : ∀ d i, boundWeight scopes' d i ≤ boundWeight scopes d i) (r : TypeRef) :
    weightIn scopes' r ≤ weightIn scopes r := by
  induction r using induct_types generalizing scopes' scopes with
  | primitive id => exact Nat.le_refl 1
  | constructed c types values ih =>
    cases hv : var? c values with
    | some v =>
      rw [weightIn_var _ c types values hv, weightIn_var _ c types values hv]
      have here := h v.depth.toNat v.index.toNat
      omega
    | none =>
      by_cases hc : c = Core.generic
      · subst hc
        cases types with
        | nil => exact Nat.le_refl _
        | cons body bindings =>
          rw [List.forall_mem_cons] at ih
          obtain ⟨inner, outer⟩ := ih
          have each : List.Forall₂ (· ≤ ·) (bindings.map (weightIn scopes'))
              (bindings.map (weightIn scopes)) := forall₂_map_le fun t ht => outer t ht h
          have under : ∀ d i, boundWeight (bindings.map (weightIn scopes') :: scopes') d i ≤
              boundWeight (bindings.map (weightIn scopes) :: scopes) d i := by
            intro d i
            cases d with
            | zero => exact getD_le each i
            | succ d => exact h d i
          have bound := total_le_total each
          have generic := inner under
          rw [weightIn_generic, weightIn_generic]
          omega
      · have each := forall₂_map_le fun t ht => ih t ht h
        have arguments : total (types.map (weightIn scopes')) ≤
            total (types.map (weightIn scopes)) := total_le_total each
        rw [weightIn_plain _ _ _ _ hv hc, weightIn_plain _ _ _ _ hv hc]
        omega

/-- Whether scopes weigh a reference no more than others do, once its variables at or beyond
`cutoff` are raised by `levels`. -/
structure Moved (levels cutoff : Nat) (scopes' scopes : List (List Nat)) : Prop where
  near : ∀ d < cutoff, ∀ i, boundWeight scopes' d i ≤ boundWeight scopes d i
  far : ∀ d, cutoff ≤ d → ∀ i, boundWeight scopes' (d + levels) i ≤ boundWeight scopes d i
  one_le : ∀ d, cutoff ≤ d → ∀ i, 1 ≤ boundWeight scopes d i

variable {levels cutoff : Nat} {scopes' scopes : List (List Nat)}

/-- Under a generic, the bindings of the generic come first. -/
theorem Moved.under (h : Moved levels cutoff scopes' scopes) {scope' scope : List Nat}
    (hs : List.Forall₂ (· ≤ ·) scope' scope) :
    Moved levels (cutoff + 1) (scope' :: scopes') (scope :: scopes) where
  near d hd i := by
    cases d with
    | zero => exact getD_le hs i
    | succ d => exact h.near d (Nat.lt_of_succ_lt_succ hd) i
  far d hd i := by
    obtain ⟨d, rfl⟩ := Nat.exists_eq_add_of_le' hd
    rw [show d + (cutoff + 1) + levels = d + cutoff + levels + 1 by omega, ← Nat.add_assoc]
    exact h.far (d + cutoff) (Nat.le_add_left ..) i
  one_le d hd i := by
    obtain ⟨d, rfl⟩ := Nat.exists_eq_add_of_le' hd
    exact h.one_le (d + cutoff) (Nat.le_add_left ..) i

/-- Raising variables adds no weight. -/
theorem weightIn_raise (h : Moved levels cutoff scopes' scopes) (r : TypeRef) :
    weightIn scopes' (raise levels cutoff r) ≤ weightIn scopes r := by
  unfold raise
  induction r using induct_types generalizing cutoff scopes' scopes with
  | primitive id => exact Nat.le_refl 1
  | constructed c types values ih =>
    rw [raiseBy]
    cases hv : var? c values with
    | some v =>
      rw [weightIn_var scopes c types values hv]
      simp only
      split
      · rename_i out
        refine Nat.le_trans ?_ (Nat.le_add_right ..)
        by_cases small : v.depth.toNat + levels < UInt32.size
        · have raised := (var?_varAt v.index (v.depth.toNat + levels)).trans (if_pos small)
          rw [varAt, weightIn_var _ _ _ _ raised]
          have depth : (UInt32.ofNat (v.depth.toNat + levels)).toNat = v.depth.toNat + levels :=
            UInt32.toNat_ofNat_of_lt' small
          rw [depth]
          exact h.far _ out v.index.toNat
        · have none := (var?_varAt v.index (v.depth.toNat + levels)).trans (if_neg small)
          rw [varAt, weightIn_plain _ _ _ _ none core_var_ne_generic]
          exact h.one_le _ out _
      · rename_i inside
        rw [weightIn_var _ c types values hv]
        have near := h.near v.depth.toNat (by omega) v.index.toNat
        omega
    | none =>
      simp only
      split
      · rename_i hc
        subst hc
        cases types with
        | nil => exact Nat.le_refl _
        | cons body bindings =>
          rw [List.forall_mem_cons] at ih
          obtain ⟨inner, outer⟩ := ih
          have each : List.Forall₂ (· ≤ ·) (bindings.map (weightIn scopes' ∘ raiseBy varAt levels cutoff))
              (bindings.map (weightIn scopes)) := forall₂_map_le fun t ht => outer t ht h
          have bound := total_le_total each
          have generic := inner (h.under each)
          rw [raiseBodyBy, raiseAllBy_eq, weightIn_generic, weightIn_generic, List.map_map]
          omega
      · rename_i hc
        have each := forall₂_map_le fun t ht => ih t ht h
        have arguments : total (types.map (weightIn scopes' ∘ raiseBy varAt levels cutoff)) ≤
            total (types.map (weightIn scopes)) := total_le_total each
        rw [weightIn_plain _ _ _ _ hv hc, weightIn_plain _ _ _ _ hv hc, raiseAllBy_eq, List.map_map]
        omega

/-- Whether scopes weigh a reference no more than others do, once `bindings` are in the place of
the variables at `level`. -/
structure Filled (bindings : List TypeRef) (level : Nat) (scopes' scopes : List (List Nat)) :
    Prop where
  near : ∀ d < level, ∀ i, boundWeight scopes' d i ≤ boundWeight scopes d i
  bound : ∀ i b, bindings[i]? = some b → weight b ≤ boundWeight scopes level i
  le_one : ∀ d, level ≤ d → ∀ i, boundWeight scopes' d i ≤ 1
  one_le : ∀ d, level < d → ∀ i, 1 ≤ boundWeight scopes d i

variable {bindings : List TypeRef} {level : Nat}

/-- Under a generic, the bindings of the generic come first. -/
theorem Filled.under (h : Filled bindings level scopes' scopes) {scope' scope : List Nat}
    (hs : List.Forall₂ (· ≤ ·) scope' scope) :
    Filled bindings (level + 1) (scope' :: scopes') (scope :: scopes) where
  near d hd i := by
    cases d with
    | zero => exact getD_le hs i
    | succ d => exact h.near d (Nat.lt_of_succ_lt_succ hd) i
  bound i b hb := h.bound i b hb
  le_one d hd i := by
    obtain ⟨d, rfl⟩ := Nat.exists_eq_add_of_le' hd
    exact h.le_one (d + level) (Nat.le_add_left ..) i
  one_le d hd i := by
    obtain ⟨d, rfl⟩ := Nat.exists_eq_add_of_lt hd
    rw [show level + 1 + d + 1 = level + d + 1 + 1 by omega]
    exact h.one_le (level + d + 1) (by omega) i

/-- What is bound to a variable weighs no more among raised scopes. -/
theorem Filled.weightIn_shift (h : Filled bindings level scopes' scopes) (b : TypeRef) :
    weightIn scopes' (b.shift level 0) ≤ weight b := by
  rw [shift_eq]
  split
  · rename_i top
    exact weightIn_mono (fun d i => h.le_one d (top ▸ Nat.zero_le d) i) b
  · refine weightIn_raise ⟨?_, ?_, ?_⟩ b
    · intro d hd
      exact absurd hd (Nat.not_lt_zero d)
    · intro d _ i
      exact h.le_one (d + level) (Nat.le_add_left ..) i
    · intro d _ i
      exact Nat.le_refl 1

/-- Substitution adds no weight to that of the bindings. -/
theorem weightIn_substitute (h : Filled bindings level scopes' scopes) {r r' : TypeRef}
    (hr : substitute bindings level r = .ok r') : weightIn scopes' r' ≤ weightIn scopes r := by
  unfold substitute at hr
  induction r using induct_types generalizing level scopes' scopes r' with
  | primitive id =>
    obtain rfl := Except.ok.inj hr
    exact Nat.le_refl 1
  | constructed c types values ih =>
    rw [substituteBy] at hr
    cases hv : var? c values with
    | some v =>
      rw [weightIn_var scopes c types values hv]
      simp only [hv] at hr
      split at hr
      · rename_i here
        split at hr
        · rename_i b hb
          obtain rfl := Except.ok.inj hr
          have bound := h.bound _ b hb
          have shifted := h.weightIn_shift b
          rw [shift] at shifted
          rw [← here] at bound shifted ⊢
          omega
        · simp at hr
      · split at hr
        · rename_i beyond
          obtain rfl := Except.ok.inj hr
          have written : weightIn scopes' (var v.index (v.depth - 1)) =
              boundWeight scopes' (v.depth - 1).toNat v.index.toNat :=
            weightIn_var _ _ _ _ (var?_var ..)
          rw [written]
          have lowered : level ≤ (v.depth - 1).toNat := by
            have positive : (1 : UInt32) ≤ v.depth := UInt32.le_iff_toNat_le.2 (by simp; omega)
            rw [UInt32.toNat_sub_of_le _ _ positive, UInt32.toNat_one]
            omega
          have before := h.one_le v.depth.toNat beyond v.index.toNat
          have after := h.le_one (v.depth - 1).toNat lowered v.index.toNat
          omega
        · rename_i elsewhere inside
          obtain rfl := Except.ok.inj hr
          rw [weightIn_var _ c types values hv]
          have near := h.near v.depth.toNat (by omega) v.index.toNat
          omega
    | none =>
      have list : ∀ {ts ts' : List TypeRef}, (∀ t ∈ ts, t ∈ types) →
          substituteAllBy varAt bindings level ts = .ok ts' →
          List.Forall₂ (· ≤ ·) (ts'.map (weightIn scopes')) (ts.map (weightIn scopes)) := by
        intro ts ts' sub hts
        have each := (List.forall₂_and_left ts ts').2 ⟨sub, substituteAllBy_eq_ok.1 hts⟩
        rw [List.forall₂_map_left_iff, List.forall₂_map_right_iff]
        exact (each.imp fun t t' ⟨ht, hs⟩ => ih t ht h hs).flip
      simp only [hv] at hr
      split at hr
      · rename_i hc
        subst hc
        obtain ⟨types', hs, hr⟩ := Outcome.bind_eq_ok.1 hr
        obtain rfl := Except.ok.inj hr
        cases types with
        | nil =>
          obtain rfl := Except.ok.inj hs
          exact Nat.le_refl _
        | cons body bound =>
          obtain ⟨body', hb, hs⟩ := Outcome.bind_eq_ok.1 hs
          obtain ⟨bound', hbs, hs⟩ := Outcome.bind_eq_ok.1 hs
          obtain rfl := Except.ok.inj hs
          have each := list (fun t ht => List.mem_cons_of_mem _ ht) hbs
          have bindings := total_le_total each
          have generic := ih body List.mem_cons_self (h.under each) hb
          rw [weightIn_generic, weightIn_generic]
          omega
      · rename_i hc
        obtain ⟨types', hs, hr⟩ := Outcome.bind_eq_ok.1 hr
        obtain rfl := Except.ok.inj hr
        have arguments := total_le_total (list (fun t ht => ht) hs)
        rw [weightIn_plain _ _ _ _ hv hc, weightIn_plain _ _ _ _ hv hc]
        omega

/-! ## What weighs less -/

theorem one_le_weight (r : TypeRef) : 1 ≤ weight r := by
  cases r with
  | primitive id => exact Nat.le_refl 1
  | constructed c types values =>
    rw [weight]
    cases hv : var? c values with
    | some v =>
      rw [weightIn_var _ _ _ _ hv]
      exact Nat.le_add_right ..
    | none =>
      by_cases hc : c = Core.generic
      · subst hc
        cases types with
        | nil => exact Nat.le_refl 1
        | cons body bindings =>
          rw [weightIn_generic]
          exact Nat.le_add_right ..
      · rw [weightIn_plain _ _ _ _ hv hc]
        exact Nat.le_add_right ..

/-- What is bound to variables makes a reference no lighter. -/
theorem weight_le_weightIn (bindings : List TypeRef) (r : TypeRef) :
    weight r ≤ weightIn [bindings.map weight] r := by
  refine weightIn_mono ?_ r
  intro d i
  cases d with
  | zero =>
    rw [boundWeight_zero, List.getElem?_map]
    cases bindings[i]? with
    | none => exact Nat.le_refl 1
    | some b => exact one_le_weight b
  | succ d => exact Nat.le_refl 1

/-- A type argument weighs less than the reference. -/
theorem weight_argument_lt {c : GlobalId} {types : List TypeRef} {values : List Value}
    {t : TypeRef} (ht : t ∈ types) : weight t < weight (.constructed c types values) := by
  have listed {ts : List TypeRef} (ht : t ∈ ts) : weight t ≤ total (ts.map weight) :=
    le_total_of_mem (List.mem_map_of_mem ht)
  cases hv : var? c values with
  | some v =>
    have whole : weight (.constructed c types values) = 1 + total (types.map weight) :=
      weightIn_var _ _ _ _ hv
    have part := listed ht
    omega
  | none =>
    by_cases hc : c = Core.generic
    · subst hc
      cases types with
      | nil => simp at ht
      | cons body bindings =>
        have whole : weight (.constructed Core.generic (body :: bindings) values) =
            1 + (total (bindings.map weight) + weightIn [bindings.map weight] body) :=
          weightIn_generic ..
        rcases List.mem_cons.1 ht with rfl | ht
        · have inner := weight_le_weightIn bindings t
          omega
        · have part := listed ht
          omega
    · have whole : weight (.constructed c types values) = 1 + total (types.map weight) :=
        weightIn_plain _ _ _ _ hv hc
      have part := listed ht
      omega

theorem expandBy_eq_ok {write : Writer} {body ref : TypeRef} {vars : UInt32}
    {bindings : List TypeRef} : body.expandBy write vars bindings = .ok ref ↔
      vars.toNat ≤ bindings.length ∧ body.instantiateBy write bindings = .ok ref := by
  rw [expandBy]
  split
  · exact iff_of_false nofun fun both => Nat.not_le_of_lt ‹_› both.1
  · exact (and_iff_right (Nat.le_of_not_lt ‹_›)).symm

theorem expand_eq_ok {body ref : TypeRef} {vars : UInt32} {bindings : List TypeRef} :
    body.expand vars bindings = .ok ref ↔
      vars.toNat ≤ bindings.length ∧ body.instantiate bindings = .ok ref :=
  expandBy_eq_ok

/-- The instance of a generic weighs less than the generic. -/
theorem weight_expand_lt {body ref : TypeRef} {vars : UInt32} {bindings : List TypeRef}
    (h : body.expand vars bindings = .ok ref) (values : List Value) :
    weight ref < weight (.constructed Core.generic (body :: bindings) values) := by
  obtain ⟨-, instantiated⟩ := expand_eq_ok.1 h
  have filled : Filled bindings 0 [] [bindings.map weight] := by
    refine ⟨?_, ?_, ?_, ?_⟩
    · intro d hd
      exact absurd hd (Nat.not_lt_zero d)
    · intro i b hb
      simp [hb]
    · intro _ _ _
      exact Nat.le_refl 1
    · intro d hd i
      obtain ⟨d, rfl⟩ := Nat.exists_eq_add_of_lt hd
      exact Nat.le_refl 1
  have inner := weightIn_substitute filled instantiated
  rw [weight, weight, weightIn_generic]
  change _ < 1 + (_ + weightIn [bindings.map weight] body)
  omega

end TypeRef

end TypedTree
