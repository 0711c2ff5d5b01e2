import TypedTree.Proofs.Instances

/-!
# Depths that get too large

What is written for a variable whose depth leaves 32 bits is up to a `Writer`. This shows only where
that happens: writers that write all other variables as they are instantiate alike as long as no
depth gets too large. And `varAt`, the writer in use, tells when one does. An instance that is put
together from references without marks has no mark just if all depths stayed within 32 bits, and
what has a mark does not resolve.

In a light reference no depth gets too large. A variable is no deeper than there are generics around
it and scopes that it is free in, and the weight of a reference bounds the first, in its instances
too.

## Main definitions

* `TypeRef.Writer.IsExact`: whether a writer writes variables as they are.

## Main statements

* `TypeRef.instantiateBy_eq`: exact writers instantiate alike within 32 bits.
* `TypeRef.overflows_instantiate_iff`: marks tell of depths that got too large.
* `TypeRef.instantiatesWithin_of_weight`: when none does.
* `Registry.overflows_eq_false`: what resolves has no marks.
-/

namespace TypedTree

namespace TypeRef

/-- Whether a writer writes variables as they are. What it does about depths that are too large for
a variable is left open. -/
def Writer.IsExact (write : Writer) : Prop :=
  ∀ index depth : UInt32, write index depth.toNat = var index depth

theorem isExact_varAt : Writer.IsExact varAt := varAt_toNat

theorem isExact_wrappedVar : Writer.IsExact wrappedVar := fun index depth => by
  rw [wrappedVar, UInt32.ofNat_toNat]

section Writers

variable {write : Writer} {levels cutoff level : Nat} {bindings : List TypeRef} {r : TypeRef}

theorem Writer.IsExact.eq_varAt (hw : write.IsExact) (index : UInt32) {depth : Nat}
    (small : depth < UInt32.size) : write index depth = varAt index depth := by
  have same : (UInt32.ofNat depth).toNat = depth := UInt32.toNat_ofNat_of_lt' small
  have written := (hw index (.ofNat depth)).trans (isExact_varAt index (.ofNat depth)).symm
  rwa [same] at written

/-- Exact writers raise alike within 32 bits. -/
theorem raiseBy_eq (hw : write.IsExact) (within : RaisesWithin levels cutoff r) :
    raiseBy write levels cutoff r = raise levels cutoff r := by
  induction r using induct_forms generalizing cutoff with
  | primitive id => rfl
  | var c types values v hv =>
    by_cases far : cutoff ≤ v.depth.toNat
    · rw [raiseBy_far hv far, raise_far hv far, hw.eq_varAt _ ((eachVar_var hv).1 within far)]
    · have near := Nat.lt_of_not_le far
      rw [raiseBy_near hv near, raise_near hv near]
  | generic body bindings values ihb ihs =>
    obtain ⟨inner, outer⟩ := eachVar_generic.1 within
    rw [raiseBy_generic, raise_generic, ihb inner]
    congr 2
    exact List.map_congr_left fun b hb => ihs b hb (outer b hb)
  | plain c types values hv hc ih =>
    have each := (eachVar_plain hv hc).1 within
    rw [raiseBy_plain hv hc, raise_plain hv hc]
    congr 1
    exact List.map_congr_left fun t ht => ih t ht (each t ht)

theorem shiftBy_eq (hw : write.IsExact) (within : RaisesWithin levels cutoff r) :
    r.shiftBy write levels cutoff = r.shift levels cutoff := by
  rw [shiftBy, shift_eq, raiseBy_eq hw within]

theorem substituteAllBy_congr {write' : Writer} {types : List TypeRef}
    (same : ∀ t ∈ types, substituteBy write bindings level t = substituteBy write' bindings level t) :
    substituteAllBy write bindings level types = substituteAllBy write' bindings level types := by
  induction types with
  | nil => rfl
  | cons t types ih =>
    rw [List.forall_mem_cons] at same
    rw [substituteAllBy, substituteAllBy, same.1, ih same.2]

/-- Exact writers substitute alike within 32 bits, and fail alike. -/
theorem substituteBy_eq (hw : write.IsExact) (within : SubstitutesWithin bindings level r) :
    substituteBy write bindings level r = substitute bindings level r := by
  unfold substitute
  induction r using induct_forms generalizing level with
  | primitive id => rfl
  | var c types values v hv =>
    have moved := (eachVar_var hv).1 within
    rw [substituteBy, substituteBy, hv]
    simp only
    by_cases here : v.depth.toNat = level
    · rw [if_pos here, if_pos here]
      cases hb : bindings[v.index.toNat]? with
      | none => rfl
      | some b => exact congrArg Except.ok (shiftBy_eq hw (moved here b hb))
    · rw [if_neg here, if_neg here]
  | generic body args values ihb ihs =>
    obtain ⟨inner, outer⟩ := eachVar_generic.1 within
    rw [substituteBy, substituteBy, var?_generic]
    simp only [if_true, substituteBodyBy, ihb inner]
    rw [substituteAllBy_congr fun b hb => ihs b hb (outer b hb)]
  | plain c types values hv hc ih =>
    have each := (eachVar_plain hv hc).1 within
    rw [substituteBy, substituteBy, hv]
    by_cases generic : c = Core.generic
    · rw [hc generic]
      rfl
    · simp only [if_neg generic]
      rw [substituteAllBy_congr fun t ht => ih t ht (each t ht)]

/-- Exact writers instantiate alike as long as all depths stay within 32 bits. -/
theorem instantiateBy_eq (hw : write.IsExact) (within : r.InstantiatesWithin bindings) :
    r.instantiateBy write bindings = r.instantiate bindings :=
  substituteBy_eq hw within

theorem expandBy_eq (hw : write.IsExact) (within : r.InstantiatesWithin bindings) (vars : UInt32) :
    r.expandBy write vars bindings = r.expand vars bindings := by
  rw [expand, expandBy, expandBy, instantiateBy_eq hw within, instantiate]

end Writers

/-! ## Marks -/

section Marks

variable {levels cutoff level : Nat} {c : GlobalId} {types bindings : List TypeRef}
  {values : List Value} {r r' : TypeRef} {v : TypeVar}

/-- The mark is no number of 32 bits. -/
theorem count_ne_mark {n : Nat} (small : n < UInt32.size) :
    Value.count n ≠ .count UInt32.size := by
  intro same
  have read := uint32?_count small
  rw [same, uint32?_size] at read
  cases read

theorem isMark_iff :
    isMark c values = true ↔ c = Core.var ∧ ∃ index, values = [index, .count UInt32.size] := by
  unfold isMark
  split
  · simp [Value.count]
  · rename_i other
    refine iff_of_false Bool.false_ne_true ?_
    rintro ⟨-, index, rfl⟩
    exact other index _ rfl

theorem isMark_generic : isMark Core.generic values = false := by
  rw [← Bool.not_eq_true, isMark_iff]
  exact fun mark => core_var_ne_generic mark.1.symm

theorem overflowsAny_eq_false :
    overflowsAny types = false ↔ ∀ t ∈ types, t.overflows = false := by
  induction types with
  | nil => simp [overflowsAny]
  | cons t types ih => simp [overflowsAny, ih]

theorem overflows_constructed : (constructed c types values).overflows = false ↔
    isMark c values = false ∧ ∀ t ∈ types, t.overflows = false := by
  rw [overflows, Bool.or_eq_false_iff, overflowsAny_eq_false]

theorem overflows_varAt (index : UInt32) (depth : Nat) :
    (varAt index depth).overflows = false ↔ depth < UInt32.size := by
  have none : ∀ t ∈ ([] : List TypeRef), t.overflows = false := nofun
  rw [varAt, overflows_constructed, and_iff_left none, ← Bool.not_eq_true, isMark_iff]
  constructor
  · intro unmarked
    by_contra large
    exact unmarked ⟨rfl, _, by rw [Nat.min_eq_right (Nat.le_of_not_lt large)]⟩
  · rintro small ⟨-, _, written⟩
    rw [Nat.min_eq_left (Nat.le_of_lt small)] at written
    exact count_ne_mark small (List.cons.inj (List.cons.inj written).2).1

/-- Raising leaves a mark just if a depth gets too large. -/
theorem overflows_raise_iff (unmarked : r.overflows = false) :
    (raise levels cutoff r).overflows = false ↔ RaisesWithin levels cutoff r := by
  induction r using induct_forms generalizing cutoff with
  | primitive id => exact iff_of_true rfl trivial
  | var c types values v hv =>
    rw [RaisesWithin, eachVar_var hv]
    by_cases far : cutoff ≤ v.depth.toNat
    · rw [raise_far hv far, overflows_varAt, forall_prop_of_true far]
    · rw [raise_near hv (Nat.lt_of_not_le far)]
      exact iff_of_true unmarked fun h => absurd h far
  | generic body bindings values ihb ihs =>
    obtain ⟨inner, outer⟩ := List.forall_mem_cons.1 (overflows_constructed.1 unmarked).2
    rw [raise_generic, overflows_constructed, isMark_generic, List.forall_mem_cons,
      List.forall_mem_map, RaisesWithin, eachVar_generic]
    refine (and_iff_right rfl).trans (and_congr (ihb inner) ?_)
    exact forall₂_congr fun b hb => ihs b hb (outer b hb)
  | plain c types values hv hc ih =>
    obtain ⟨mark, args⟩ := overflows_constructed.1 unmarked
    rw [raise_plain hv hc, overflows_constructed, List.forall_mem_map, RaisesWithin,
      eachVar_plain hv hc]
    refine (and_iff_right mark).trans (forall₂_congr fun t ht => ih t ht (args t ht))

theorem raisesWithin_zero (cutoff : Nat) (r : TypeRef) : RaisesWithin 0 cutoff r := by
  induction r using induct_forms generalizing cutoff with
  | primitive id => trivial
  | var c types values v hv => exact (eachVar_var hv).2 fun _ => v.depth.toNat_lt
  | generic body bindings values ihb ihs =>
    exact eachVar_generic.2 ⟨ihb _, fun b hb => ihs b hb _⟩
  | plain c types values hv hc ih => exact (eachVar_plain hv hc).2 fun t ht => ih t ht _

theorem overflows_shift_iff (unmarked : r.overflows = false) :
    (r.shift levels 0).overflows = false ↔ RaisesWithin levels 0 r := by
  rw [shift_eq]
  split
  · rename_i still
    exact iff_of_true unmarked (still ▸ raisesWithin_zero 0 r)
  · exact overflows_raise_iff unmarked

/-- Members of two lists that correspond have a property together. -/
theorem forall_mem_iff_of_forall₂ {R : TypeRef → TypeRef → Prop} {P Q : TypeRef → Prop}
    {types' : List TypeRef} (h : List.Forall₂ R types types')
    (agree : ∀ t ∈ types, ∀ t', R t t' → (P t' ↔ Q t)) :
    (∀ t' ∈ types', P t') ↔ ∀ t ∈ types, Q t := by
  induction h with
  | nil => simp
  | cons first _ ih =>
    rw [List.forall_mem_cons] at agree
    rw [List.forall_mem_cons, List.forall_mem_cons, agree.1 _ first, ih agree.2]

/-- Substitution leaves a mark just if a depth gets too large. -/
theorem overflows_substitute_iff (bound : ∀ b ∈ bindings, b.overflows = false)
    (unmarked : r.overflows = false) (h : substitute bindings level r = .ok r') :
    r'.overflows = false ↔ SubstitutesWithin bindings level r := by
  induction r using induct_forms generalizing level r' with
  | primitive id =>
    obtain rfl := Except.ok.inj h
    exact iff_of_true rfl trivial
  | var c types values v hv =>
    rw [SubstitutesWithin, eachVar_var hv]
    rcases Nat.lt_trichotomy v.depth.toNat level with inside | here | beyond
    · obtain rfl := Except.ok.inj ((substitute_inside hv inside).symm.trans h)
      exact iff_of_true unmarked fun here => absurd here (Nat.ne_of_lt inside)
    · obtain ⟨b, hb, rfl⟩ := (substitute_here hv here).1 h
      rw [overflows_shift_iff (bound b (List.mem_of_getElem? hb)), hb, forall_prop_of_true here]
      simp
    · obtain rfl := Except.ok.inj ((substitute_beyond hv beyond).symm.trans h)
      refine iff_of_true ((overflows_varAt ..).2 ?_) fun here => absurd here (Nat.ne_of_gt beyond)
      exact Nat.lt_of_le_of_lt (Nat.sub_le ..) v.depth.toNat_lt
  | generic body args values ihb ihs =>
    obtain ⟨inner, outer⟩ := List.forall_mem_cons.1 (overflows_constructed.1 unmarked).2
    obtain ⟨body', args', hb, hs, rfl⟩ := substitute_generic_eq_ok.1 h
    rw [overflows_constructed, isMark_generic, List.forall_mem_cons, ihb inner hb,
      forall_mem_iff_of_forall₂ hs fun b mem b' hb' => ihs b mem (outer b mem) hb',
      SubstitutesWithin, eachVar_generic]
    exact and_iff_right rfl
  | plain c types values hv hc ih =>
    obtain ⟨mark, args⟩ := overflows_constructed.1 unmarked
    obtain ⟨types', hs, rfl⟩ := (substitute_plain_eq_ok hv hc).1 h
    rw [overflows_constructed, and_iff_right mark,
      forall_mem_iff_of_forall₂ hs fun t mem t' ht' => ih t mem (args t mem) ht',
      SubstitutesWithin, eachVar_plain hv hc]

/-- An instance that is put together from references without marks has none just if all depths
stayed within 32 bits. -/
theorem overflows_instantiate_iff (bound : ∀ b ∈ bindings, b.overflows = false)
    (unmarked : r.overflows = false) (h : r.instantiate bindings = .ok r') :
    r'.overflows = false ↔ r.InstantiatesWithin bindings :=
  overflows_substitute_iff bound unmarked h

end Marks

/-! ## Light references -/

section Weights

variable (scopes : List (List Nat)) (body : TypeRef) {bindings types : List TypeRef}
  (values : List Value) {c : GlobalId} {t : TypeRef}

theorem weightIn_plain_lt (hv : var? c values = none) (hc : c = Core.generic → types = [])
    (ht : t ∈ types) : weightIn scopes t < weightIn scopes (.constructed c types values) := by
  have plain : c ≠ Core.generic := fun generic => by simp [hc generic] at ht
  have part := le_total_of_mem (List.mem_map_of_mem (f := weightIn scopes) ht)
  rw [weightIn_plain _ _ _ _ hv plain]
  omega

theorem weightIn_binding_lt (ht : t ∈ bindings) :
    weightIn scopes t < weightIn scopes (.constructed Core.generic (body :: bindings) values) := by
  have part := le_total_of_mem (List.mem_map_of_mem (f := weightIn scopes) ht)
  rw [weightIn_generic]
  omega

theorem weightIn_body_lt (bindings : List TypeRef) : weightIn (bindings.map (weightIn scopes) :: scopes) body <
    weightIn scopes (.constructed Core.generic (body :: bindings) values) := by
  rw [weightIn_generic]
  omega

end Weights

section Light

variable {levels cutoff level n : Nat} {scopes : List (List Nat)} {values : List Value}
  {bindings : List TypeRef} {body r r' : TypeRef}

/-- A variable is no deeper than there are generics around it and scopes that it is free in, so
there is room to raise it in a light reference. -/
theorem BoundWithin.raisesWithin (h : r.BoundWithin (cutoff + n))
    (light : cutoff + n + levels + weightIn scopes r ≤ UInt32.size) :
    RaisesWithin levels cutoff r := by
  induction r using induct_forms generalizing cutoff scopes with
  | primitive id => trivial
  | var c types values v hv =>
    have near : v.depth.toNat < cutoff + n := (eachVar_var hv).1 h
    exact (eachVar_var hv).2 fun _ => by omega
  | generic body args values ihb ihs =>
    obtain ⟨inner, outer⟩ := eachVar_generic.1 h
    refine eachVar_generic.2 ⟨?_, fun b hb => ?_⟩
    · have reach : body.BoundWithin (cutoff + 1 + n) := Nat.add_right_comm cutoff n 1 ▸ inner
      have lighter := weightIn_body_lt scopes body values args
      have room : cutoff + 1 + n + levels + weightIn (args.map (weightIn scopes) :: scopes) body ≤
          UInt32.size := by omega
      exact ihb reach room
    · have lighter := weightIn_binding_lt scopes body values hb
      have room : cutoff + n + levels + weightIn scopes b ≤ UInt32.size := by omega
      exact ihs b hb (outer b hb) room
  | plain c types values hv hc ih =>
    refine (eachVar_plain hv hc).2 fun t ht => ?_
    have lighter := weightIn_plain_lt scopes values hv hc ht
    have room : cutoff + n + levels + weightIn scopes t ≤ UInt32.size := by omega
    exact ih t ht ((eachVar_plain hv hc).1 h t ht) room

/-- There is room to substitute in a light reference, whose variables count as much as what is put
in their place. -/
theorem substitutesWithin_of_weight (bound : ∀ b ∈ bindings, b.BoundWithin n)
    (counted : ∀ i b, bindings[i]? = some b → weight b ≤ boundWeight scopes level i)
    (light : level + n + weightIn scopes r ≤ UInt32.size) : SubstitutesWithin bindings level r := by
  induction r using induct_forms generalizing level scopes with
  | primitive id => trivial
  | var c types values v hv =>
    refine (eachVar_var hv).2 fun here b hb => ?_
    have reach : b.BoundWithin (0 + n) :=
      (Nat.zero_add n).symm ▸ bound b (List.mem_of_getElem? hb)
    have known := counted _ b hb
    rw [weightIn_var _ c types values hv, here] at light
    have room : 0 + n + level + weightIn [] b ≤ UInt32.size := by
      rw [← weight]
      omega
    exact reach.raisesWithin room
  | generic body args values ihb ihs =>
    refine eachVar_generic.2 ⟨?_, fun b hb => ?_⟩
    · have lighter := weightIn_body_lt scopes body values args
      have room : level + 1 + n + weightIn (args.map (weightIn scopes) :: scopes) body ≤
          UInt32.size := by omega
      exact ihb counted room
    · have lighter := weightIn_binding_lt scopes body values hb
      have room : level + n + weightIn scopes b ≤ UInt32.size := by omega
      exact ihs b hb counted room
  | plain c types values hv hc ih =>
    refine (eachVar_plain hv hc).2 fun t ht => ?_
    have lighter := weightIn_plain_lt scopes values hv hc ht
    have room : level + n + weightIn scopes t ≤ UInt32.size := by omega
    exact ih t ht counted room

/-- No depth gets too large in the instance of a generic whose bindings reach no further than its
weight allows. -/
theorem instantiatesWithin_of_weight (bound : ∀ b ∈ bindings, b.BoundWithin n)
    (light : n + weight (.constructed Core.generic (body :: bindings) values) ≤ UInt32.size) :
    body.InstantiatesWithin bindings := by
  have counted : ∀ i b, bindings[i]? = some b → weight b ≤ boundWeight [bindings.map weight] 0 i := by
    intro i b hb
    simp [hb]
  have lighter : weightIn [bindings.map weight] body < _ := weightIn_body_lt [] body values bindings
  have room : 0 + n + weightIn [bindings.map weight] body ≤ UInt32.size := by
    rw [weight] at light
    omega
  exact substitutesWithin_of_weight bound counted room

/-! ## How far variables reach -/

theorem boundWithin_varAt (index : UInt32) {depth : Nat} (below : depth < n) :
    (varAt index depth).BoundWithin n := by
  by_cases small : depth < UInt32.size
  · refine (eachVar_var (var?_of_lt small)).2 ?_
    rwa [UInt32.toNat_ofNat_of_lt' small]
  · -- a mark is no variable
    have none := (var?_varAt index depth).trans (if_neg small)
    exact (eachVar_plain none fun _ => rfl).2 nofun

theorem boundWithin_raise (levels : Nat) (h : r.BoundWithin (cutoff + n)) :
    (raise levels cutoff r).BoundWithin (cutoff + n + levels) := by
  induction r using induct_forms generalizing cutoff with
  | primitive id => trivial
  | var c types values v hv =>
    have near : v.depth.toNat < cutoff + n := (eachVar_var hv).1 h
    by_cases far : cutoff ≤ v.depth.toNat
    · rw [raise_far hv far]
      exact boundWithin_varAt _ (by omega)
    · rw [raise_near hv (Nat.lt_of_not_le far)]
      exact (eachVar_var hv).2 (by omega)
  | generic body args values ihb ihs =>
    obtain ⟨inner, outer⟩ := eachVar_generic.1 h
    have reach : body.BoundWithin (cutoff + 1 + n) := Nat.add_right_comm cutoff n 1 ▸ inner
    have raised := ihb reach
    rw [raise_generic]
    refine eachVar_generic.2 ⟨?_, List.forall_mem_map.2 fun b hb => ihs b hb (outer b hb)⟩
    rwa [Nat.add_right_comm cutoff 1 n, Nat.add_right_comm _ 1 levels] at raised
  | plain c types values hv hc ih =>
    have each := (eachVar_plain hv hc).1 h
    rw [raise_plain hv hc]
    exact (eachVar_plain hv (nil_of_map hc _)).2
      (List.forall_mem_map.2 fun t ht => ih t ht (each t ht))

/-- Variables reach no further in an instance than in the generic. -/
theorem boundWithin_substitute (bound : ∀ b ∈ bindings, b.BoundWithin n)
    (h : r.BoundWithin (level + n + 1)) (hr : substitute bindings level r = .ok r') :
    r'.BoundWithin (level + n) := by
  induction r using induct_forms generalizing level r' with
  | primitive id =>
    obtain rfl := Except.ok.inj hr
    trivial
  | var c types values v hv =>
    have near : v.depth.toNat < level + n + 1 := (eachVar_var hv).1 h
    rcases Nat.lt_trichotomy v.depth.toNat level with inside | here | beyond
    · obtain rfl := Except.ok.inj ((substitute_inside hv inside).symm.trans hr)
      exact (eachVar_var hv).2 (by omega)
    · obtain ⟨b, hb, rfl⟩ := (substitute_here hv here).1 hr
      have reach := bound b (List.mem_of_getElem? hb)
      rw [shift_eq]
      split
      · rename_i top
        rwa [top, Nat.zero_add]
      · rw [← Nat.zero_add n] at reach
        have raised := boundWithin_raise level reach
        rwa [Nat.zero_add, Nat.add_comm] at raised
    · obtain rfl := Except.ok.inj ((substitute_beyond hv beyond).symm.trans hr)
      exact boundWithin_varAt _ (by omega)
  | generic body args values ihb ihs =>
    obtain ⟨inner, outer⟩ := eachVar_generic.1 h
    obtain ⟨body', args', hb, hs, rfl⟩ := substitute_generic_eq_ok.1 hr
    have reach : body.BoundWithin (level + 1 + n + 1) := Nat.add_right_comm level n 1 ▸ inner
    refine eachVar_generic.2 ⟨Nat.add_right_comm level 1 n ▸ ihb reach hb, fun b' mem' => ?_⟩
    obtain ⟨b, mem, hb'⟩ := exists_mem_of_forall₂ hs.flip mem'
    exact ihs b mem (outer b mem) hb'
  | plain c types values hv hc ih =>
    have each := (eachVar_plain hv hc).1 h
    obtain ⟨types', hs, rfl⟩ := (substitute_plain_eq_ok hv hc).1 hr
    refine (eachVar_plain hv (nil_of_forall₂ hc hs)).2 fun t' mem' => ?_
    obtain ⟨t, mem, ht'⟩ := exists_mem_of_forall₂ hs.flip mem'
    exact ih t mem (each t mem) ht'

end Light

end TypeRef

namespace Registry

variable {home : Nat}

/-- What resolves has no marks. -/
theorem overflows_eq_false {ref : TypeRef} (h : (core home).Resolves ref) :
    ref.overflows = false := by
  induction ref using TypeRef.induct_types with
  | primitive id => rfl
  | constructed c types values ih =>
    refine TypeRef.overflows_constructed.2
      ⟨Bool.eq_false_iff.2 fun mark => ?_, fun t ht => ih t ht (resolves_types h t ht)⟩
    obtain ⟨rfl, index, rfl⟩ := TypeRef.isMark_iff.1 mark
    obtain ⟨t, ht⟩ := h
    obtain ⟨k, ts, hk, -, built⟩ := resolve_constructed_eq_ok.1 ht
    obtain ⟨-, -, kind, build, -⟩ := Constructor.construct_eq_ok.1 built
    have known : ((core home).constructor? Core.var).map (·.build) = some Core.buildVar := rfl
    obtain ⟨k', hk', same⟩ := Option.map_eq_some_iff.1 known
    obtain rfl := Option.some.inj (hk.symm.trans hk')
    rw [same] at build
    simp only [Core.buildVar, Outcome.bind_eq_ok] at build
    obtain ⟨-, -, -, -, depth, read, -⟩ := build
    have written := Option.some.inj (Core.value_of_count read)
    exact TypeRef.count_ne_mark depth.toNat_lt written.symm

end Registry

end TypedTree
