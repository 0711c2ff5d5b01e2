import TypedTree.Proofs.Antisymmetry

/-!
# Types that break the reverse law

Whether a type is steady decides whether it takes part in the reverse law. From a type that is not, a
partner is made that compares to it in one direction only: what crumbles is replaced by what it
unfolds to, and all around it stays as it is. The core constructors build the partner whatever the
replaced part is.

## Main statements

* `Registry.exists_splits`: a type that is not steady has a partner.
-/

namespace TypedTree

open Relation

namespace Inclusion

@[simp] theorem meet_equivalent (x : Inclusion) : x.meet .equivalent = x := by
  cases x <;> rfl

@[simp] theorem equivalent_meet (x : Inclusion) : equivalent.meet x = x := by
  cases x <;> rfl

end Inclusion

namespace Ty

variable {o : Oracle} {z z' : Ty} {soFar : Inclusion}

theorem answer_slotsRelate_self {slots : List Ty}
    (h : ∀ s ∈ slots, o.compare s s = .equivalent) :
    (slotsRelate soFar slots slots).answer o = soFar := by
  induction slots with
  | nil => rfl
  | cons s slots ih =>
    rw [slotsRelate, Inquiry.answer_bind, Inquiry.answer_relate, h s List.mem_cons_self,
      Inclusion.meet_equivalent]
    exact ih fun t ht => h t (List.mem_cons_of_mem _ ht)

/-- Tuples that differ in one slot compare as this slot does. -/
theorem answer_slotsRelate_one {before after : List Ty} (hb : ∀ s ∈ before, o.compare s s = .equivalent)
    (ha : ∀ s ∈ after, o.compare s s = .equivalent) :
    (slotsRelate soFar (before ++ z :: after) (before ++ z' :: after)).answer o =
      soFar.meet (o.compare z z') := by
  induction before with
  | nil => exact answer_slotsRelate_self ha
  | cons s before ih =>
    rw [List.cons_append, List.cons_append, slotsRelate, Inquiry.answer_bind,
      Inquiry.answer_relate, hb s List.mem_cons_self, Inclusion.meet_equivalent]
    exact ih fun t ht => hb t (List.mem_cons_of_mem _ ht)

end Ty

namespace Registry

variable {home : Nat} {a b e f s t z : Ty}

/-! ## Building around a part -/

theorem exists_array (hz : (core home).Owns z) :
    ∃ t size, (core home).Owns t ∧ t.kind = .array z size := by
  have built : (core home).resolve (.constructed Core.array [z.ref]
      [.count 0, .count 0, .count 0]) = .ok _ :=
    resolve_constructed_eq_ok.2 ⟨_, [z], rfl, .cons hz .nil, rfl⟩
  exact ⟨_, _, owns_of_resolve built, rfl⟩

theorem exists_map (hs : (core home).Owns s) (ht : (core home).Owns t) :
    ∃ m, (core home).Owns m ∧ m.kind = .map s t := by
  have built : (core home).resolve (.constructed Core.map [s.ref, t.ref] []) = .ok _ :=
    resolve_constructed_eq_ok.2 ⟨_, [s, t], rfl, .cons hs (.cons ht .nil), rfl⟩
  exact ⟨_, owns_of_resolve built, rfl⟩

theorem exists_tuple {slots : List Ty} (h : ∀ s ∈ slots, (core home).Owns s) :
    ∃ t, (core home).Owns t ∧ t.kind = .tuple slots := by
  have resolved : List.Forall₂ (fun ref t => (core home).resolve ref = .ok t)
      (slots.map (·.ref)) slots := by
    rw [List.forall₂_map_left_iff, List.forall₂_same]
    exact h
  have built : (core home).resolve (.constructed Core.tuple (slots.map (·.ref)) []) = .ok _ :=
    resolve_constructed_eq_ok.2 ⟨_, slots, rfl, resolved, rfl⟩
  exact ⟨_, owns_of_resolve built, rfl⟩

theorem count_of_value {args : Constructor.Args} {i : Nat} {n : UInt32}
    (h : args.values[i]? = some (.count n.toNat)) : args.count i = .ok n := by
  have back : (Value.count n.toNat).uint32? = some n := by
    rw [TypeRef.uint32?_count n.toNat_lt, UInt32.ofNat_toNat]
  simp only [Value.uint32?, Value.count, Value.int?, Option.bind_eq_bind, Option.bind_some,
    Option.ite_none_right_eq_some, Option.some.injEq] at back
  simp only [Constructor.Args.count, Constructor.Args.int, Constructor.Args.form,
    Constructor.Args.value, h, Value.count, Value.int?, Outcome.ok_bind, if_pos back.1, back.2]

/-- A generic around a body, with nothing bound or something bound to every variable. -/
theorem exists_generic {vars : UInt32} {bound : List Ty} (hz : (core home).Owns z)
    (hb : ∀ s ∈ bound, (core home).Owns s) (few : vars ≤ Core.maxVars)
    (all : bound = [] ∨ bound.length = vars.toNat) :
    ∃ t, (core home).resolve (.genericBound z.ref vars (bound.map (·.ref))) = .ok t ∧
      t.kind = .generic z.ref z vars (bound.map fun s => (s.ref, s)) := by
  have count (args : Constructor.Args) (h : args.values = [.count vars.toNat]) :
      args.count 0 = .ok vars := count_of_value (by rw [h]; rfl)
  have kind : Core.buildGeneric ⟨Core.generic, z.ref :: bound.map (·.ref), z :: bound,
      [.count vars.toNat]⟩ = .ok (.generic z.ref z vars (bound.map fun s => (s.ref, s))) := by
    have zipped : (bound.map (·.ref)).zip bound = bound.map fun s => (s.ref, s) :=
      List.map_prod_right_eq_zip.symm
    rcases all with rfl | all
    · simp [Core.buildGeneric, Constructor.Args.expectValues, count, UInt32.not_lt.2 few]
    · simp [Core.buildGeneric, Constructor.Args.expectValues, count, UInt32.not_lt.2 few, all,
        zipped]
  have resolved : List.Forall₂ (fun ref t => (core home).resolve ref = .ok t)
      (bound.map (·.ref)) bound := by
    rw [List.forall₂_map_left_iff, List.forall₂_same]
    exact hb
  have arity : (Arity.atLeast 1).accepts (z :: bound).length = true := by simp [Arity.accepts]
  have built : (core home).resolve (.genericBound z.ref vars (bound.map (·.ref))) = .ok _ :=
    resolve_constructed_eq_ok.2 ⟨_, z :: bound, rfl, .cons hz resolved,
      Constructor.construct_eq_ok.2 ⟨arity, rfl, _, kind, rfl⟩⟩
  exact ⟨_, built, rfl⟩

/-- A generic with nothing bound around a body. -/
theorem exists_open {vars : UInt32} (hz : (core home).Owns z) (few : vars ≤ Core.maxVars) :
    ∃ t ref, (core home).Owns t ∧ t.kind = .generic ref z vars [] := by
  obtain ⟨t, built, kind⟩ := exists_generic hz (List.forall_mem_nil _) few (.inl rfl)
  exact ⟨t, z.ref, owns_of_resolve built, kind⟩

/-- A generic whose only variable is its body has what is bound to the variable as its instance. -/
theorem exists_wrapper (hz : (core home).Owns z) :
    ∃ t, (core home).Owns t ∧ t.Unfolds (core home).oracle z := by
  have built : (core home).resolve (.constructed Core.generic [.var 0 0, z.ref] [.count 1]) =
      .ok _ :=
    resolve_constructed_eq_ok.2 ⟨_, [_, z], rfl, .cons rfl (.cons hz .nil), rfl⟩
  exact ⟨_, owns_of_resolve built, _, _, _, _, rfl, rfl, z.ref, rfl, hz⟩

/-! ## Partners -/

/-- Whether two types compare in one direction only, the second being open or plain if the first
is. -/
structure Partner (home : Nat) (a b : Ty) : Prop where
  owns : (core home).Owns b
  splits : ((core home).compare a b).Splits ((core home).compare b a)
  isOpen : a.IsOpen → b.IsOpen
  isPlain : a.IsPlain → b.IsPlain

theorem Partner.ne (h : Partner home a b) : a ≠ b := by
  rintro rfl
  have split := h.splits
  rw [compare_self h.owns] at split
  simp [Inclusion.Splits] at split

/-- Types of one kind whose opinions are those of a partner about a part. -/
theorem Partner.around {z' : Ty} (h : Partner home z z') (ha : (core home).Owns a)
    (hb : (core home).Owns b) (hne : a ≠ b) (pa : a.IsPlain) (pb : b.IsPlain)
    {f : Inclusion → Inclusion} (keep : ∀ x y, x.Splits y → (f x).Splits (f y))
    (down : (Ty.opinion a b).answer (core home).oracle = some (f ((core home).compare z z')))
    (up : (Ty.opinion b a).answer (core home).oracle = some (f ((core home).compare z' z))) :
    Partner home a b where
  owns := hb
  splits := by
    rw [compare_of_ne ha hb hne, compare_of_ne hb ha hne.symm, Ty.answer_judge_of_some down,
      Ty.answer_judge_of_some up]
    exact keep _ _ h.splits
  isOpen opened := absurd pa opened.not_isPlain
  isPlain _ := pb

theorem partner_array {size : SizeBounds} (ha : (core home).Owns a)
    (ka : a.kind = .array z size) {z' : Ty} (h : Partner home z z') : ∃ b, Partner home a b := by
  obtain ⟨b, size', hb, kb⟩ := exists_array h.owns
  have hne : a ≠ b := by
    rintro rfl
    exact h.ne (Kind.array.inj (ka.symm.trans kb)).1
  refine ⟨b, h.around ha hb hne (by simp [Ty.IsPlain, ka]) (by simp [Ty.IsPlain, kb])
    (f := id) (fun _ _ => id) ?_ ?_⟩
  · simp [Ty.opinion, ka, kb, oracle_compare]
  · simp [Ty.opinion, ka, kb, oracle_compare]

theorem partner_tuple {before after : List Ty} (ha : (core home).Owns a)
    (ka : a.kind = .tuple (before ++ z :: after)) {z' : Ty} (h : Partner home z z') :
    ∃ b, Partner home a b := by
  have own : ∀ s ∈ before ++ z :: after, (core home).Owns s := by
    intro s hs
    exact (forms_of_owns ha).owns_parts s (by rwa [ka])
  have equivalent : ∀ s ∈ before ++ z :: after, (core home).oracle.compare s s = .equivalent :=
    fun s hs => (oracle_compare s s).trans (compare_self (own s hs))
  simp only [List.forall_mem_append, List.forall_mem_cons] at own equivalent
  have own' : ∀ s ∈ before ++ z' :: after, (core home).Owns s := by
    simp only [List.forall_mem_append, List.forall_mem_cons]
    exact ⟨own.1, h.owns, own.2.2⟩
  obtain ⟨b, hb, kb⟩ := exists_tuple own'
  have hne : a ≠ b := by
    rintro rfl
    have slots := Kind.tuple.inj (ka.symm.trans kb)
    exact h.ne (List.cons.inj (List.append_cancel_left slots)).1
  have count : (before ++ z :: after).length = (before ++ z' :: after).length := by simp
  refine ⟨b, h.around ha hb hne (by simp [Ty.IsPlain, ka]) (by simp [Ty.IsPlain, kb])
    (f := id) (fun _ _ => id) ?_ ?_⟩
  · simp only [Ty.opinion, ka, kb, if_pos count, Inquiry.answer_map,
      Ty.answer_slotsRelate_one equivalent.1 equivalent.2.2, Inclusion.equivalent_meet,
      oracle_compare, id]
  · simp only [Ty.opinion, ka, kb, if_pos count.symm, Inquiry.answer_map,
      Ty.answer_slotsRelate_one equivalent.1 equivalent.2.2, Inclusion.equivalent_meet,
      oracle_compare, id]

theorem partner_source (ha : (core home).Owns a) (ka : a.kind = .map z t) {z' : Ty}
    (h : Partner home z z') : ∃ b, Partner home a b := by
  have ht : (core home).Owns t := (forms_of_owns ha).owns_parts t (by simp [ka, Kind.parts])
  obtain ⟨b, hb, kb⟩ := exists_map h.owns ht
  have hne : a ≠ b := by
    rintro rfl
    exact h.ne (Kind.map.inj (ka.symm.trans kb)).1
  refine ⟨b, h.around ha hb hne (by simp [Ty.IsPlain, ka]) (by simp [Ty.IsPlain, kb])
    (f := fun x => if x.isRelated = true then .equivalent else .unrelated) ?_ ?_ ?_⟩
  · rintro x y (⟨rfl, related⟩ | ⟨rfl, related⟩)
    · exact .inl ⟨rfl, by rw [if_pos related]; rfl⟩
    · exact .inr ⟨rfl, by rw [if_pos related]; rfl⟩
  · by_cases related : ((core home).compare z z').isRelated = true <;>
      simp [Ty.opinion, ka, kb, oracle_compare, compare_self ht, related]
  · by_cases related : ((core home).compare z' z).isRelated = true <;>
      simp [Ty.opinion, ka, kb, oracle_compare, compare_self ht, related]

theorem partner_target (ha : (core home).Owns a) (ka : a.kind = .map s z) {z' : Ty}
    (h : Partner home z z') : ∃ b, Partner home a b := by
  have hs : (core home).Owns s := (forms_of_owns ha).owns_parts s (by simp [ka, Kind.parts])
  obtain ⟨b, hb, kb⟩ := exists_map hs h.owns
  have hne : a ≠ b := by
    rintro rfl
    exact h.ne (Kind.map.inj (ka.symm.trans kb)).2
  have related : Inclusion.equivalent.isRelated = true := rfl
  refine ⟨b, h.around ha hb hne (by simp [Ty.IsPlain, ka]) (by simp [Ty.IsPlain, kb])
    (f := id) (fun _ _ => id) ?_ ?_⟩
  · simp [Ty.opinion, ka, kb, oracle_compare, compare_self hs, related]
  · simp [Ty.opinion, ka, kb, oracle_compare, compare_self hs, related]

theorem partner_body {ref : TypeRef} {vars : UInt32} {bindings : List (TypeRef × Ty)}
    (ha : (core home).Owns a) (ka : a.kind = .generic ref z vars bindings)
    (unbound : Ty.isBound vars bindings = false) {z' : Ty} (h : Partner home z z') :
    ∃ b, Partner home a b := by
  have formed : Kind.Formed (.generic ref z vars bindings) := ka ▸ (forms_of_owns ha).kind
  obtain ⟨b, ref', hb, kb⟩ := exists_open h.owns formed.vars_le
  have unbound' : Ty.isBound vars [] = false := by
    simp only [Ty.isBound, Bool.or_eq_false_iff] at unbound ⊢
    exact ⟨unbound.1, rfl⟩
  have hne : a ≠ b := by
    rintro rfl
    exact h.ne (Kind.generic.inj (ka.symm.trans kb)).2.1
  have opened : a.IsOpen := ⟨ref, z, vars, bindings, ka, unbound⟩
  refine ⟨b, hb, ?_, fun _ => ⟨ref', z', vars, [], kb, unbound'⟩,
    fun plain => absurd plain opened.not_isPlain⟩
  rw [compare_open_open ha hb hne ka unbound kb unbound', if_pos rfl,
    compare_open_open hb ha hne.symm kb unbound' ka unbound, if_pos rfl]
  exact h.splits

/-! ## Bound generics -/

theorem partner_soft (ha : (core home).Owns a) (he : a.Ends (core home).oracle e) (hne : a ≠ e)
    (soft : e.IsSoft (core home).oracle) : Partner home a e := by
  have own := owns_of_chain he.1 ha
  have bound := he.isBound hne
  have back : (core home).compare e a = .unrelated :=
    (compare_soft own soft ha hne.symm).resolve_right fun h => bound.not_isVar h.2.2
  refine ⟨own, ?_, fun opened => absurd opened bound.not_isOpen,
    fun plain => absurd plain bound.not_isPlain⟩
  rw [compare_of_chain ha he.1, back]
  exact .inr ⟨rfl, rfl⟩

theorem partner_open (ha : (core home).Owns a) (he : a.Ends (core home).oracle e) (hne : a ≠ e)
    (opened : e.IsOpen) (h : Partner home e b) : Partner home a b := by
  have bound := he.isBound hne
  refine ⟨h.owns, ?_, fun opened => absurd opened bound.not_isOpen,
    fun plain => absurd plain bound.not_isPlain⟩
  rw [compare_ends ha h.owns he fun s hs => hs.isBound.not_isOpen (h.isOpen opened),
    compare_open_ends h.owns (h.isOpen opened) ha he.1]
  exact h.splits

/-- The partner of a generic that ends at a plain type unfolds to a partner of this type. -/
theorem partner_plain (ha : (core home).Owns a) (he : a.Ends (core home).oracle e) (hne : a ≠ e)
    (plain : e.IsPlain) (h : Partner home e b) : ∃ c, Partner home a c := by
  have own := owns_of_chain he.1 ha
  have bound := he.isBound hne
  have plain' := h.isPlain plain
  have final : ∀ s, ¬ b.Unfolds (core home).oracle s := by
    intro s hs
    exact hs.isBound.not_isPlain plain'
  obtain ⟨c, hc, unfolds⟩ := exists_wrapper h.owns
  have ends : c.Ends (core home).oracle b := ⟨.single unfolds, final⟩
  have apart : ¬ ReflTransGen (Ty.Unfolds (core home).oracle) a c := by
    intro chain
    exact h.ne (he.unique ⟨chain.trans ends.1, final⟩)
  have apart' : ¬ ReflTransGen (Ty.Unfolds (core home).oracle) c a := by
    intro chain
    exact h.ne (Ty.Ends.unique ⟨chain.trans he.1, he.2⟩ ends)
  obtain rfl | ⟨s, hs, -⟩ := he.1.cases_head
  · exact absurd rfl hne
  refine ⟨c, hc, ?_, fun opened => absurd opened bound.not_isOpen,
    fun plain => absurd plain bound.not_isPlain⟩
  rw [compare_of_not_chain ha hc he.1 apart, compare_of_not_chain hc ha ends.1 apart',
    compare_plain_ends own plain hc unfolds ends, compare_plain_ends h.owns plain' ha hs he]
  exact h.splits.reverse

/-- Every type that is not steady has a partner. -/
theorem exists_partner (ha : (core home).Owns a) (h : ¬ a.Steady (core home).oracle) :
    ∃ b, Partner home a b := by
  induction hn : a.ref.weight using Nat.strongRecOn generalizing a with
  | ind n ih =>
    subst hn
    obtain ⟨e, he⟩ := exists_ends ha
    obtain rfl | ⟨s, hs, rest⟩ := he.1.cases_head
    · have whole : ¬ a.Crumbles (core home).oracle := by
        rintro ⟨s, hs, -⟩
        exact he.2 s hs
      obtain ⟨z, hz, unsteady⟩ := Ty.exists_leads_of_not_steady h whole
      obtain ⟨z', partner⟩ := ih _ (weight_leads_lt ha hz) (owns_of_leads ha hz) unsteady rfl
      cases hz with
      | element ka => exact partner_array ha ka partner
      | slot ka hs =>
        obtain ⟨before, after, rfl⟩ := List.append_of_mem hs
        exact partner_tuple ha ka partner
      | source ka => exact partner_source ha ka partner
      | target ka => exact partner_target ha ka partner
      | body ka unbound => exact partner_body ha ka unbound partner
      | unfold hs => exact absurd hs (he.2 z)
    · have lighter : e.ref.weight < a.ref.weight := by
        have first := weight_unfolds_lt ha hs
        have others := weight_chain_le (owns_of_unfolds hs) rest
        omega
      have hne : a ≠ e := by
        intro same
        exact Nat.lt_irrefl _ (same ▸ lighter)
      obtain soft | solid := he.isSoft_or_isSolid
      · exact ⟨e, partner_soft ha he hne soft⟩
      · have unsteady : ¬ e.Steady (core home).oracle := by
          intro steady
          exact h (Ty.steady_of_ends he solid steady)
        obtain ⟨b, hb⟩ := ih _ lighter (owns_of_chain he.1 ha) unsteady rfl
        obtain opened | plain := solid
        · exact ⟨b, partner_open ha he hne opened hb⟩
        · exact partner_plain ha he hne plain hb

/-! ## The reverse law -/

/-- The reverse law for two references that resolve: it holds just if both directions find a relation
or neither does. It holds if both types are steady, and a type that is not breaks it with some
other type. -/
theorem reverse_law {x y : TypeRef} (hx : (core home).resolve x = .ok a)
    (hy : (core home).resolve y = .ok b) :
    ((core home).compare a b = ((core home).compare b a).reverse ↔
        ((core home).compare a b = .unrelated ↔ (core home).compare b a = .unrelated)) ∧
      (a.Steady (core home).oracle → b.Steady (core home).oracle →
        (core home).compare a b = ((core home).compare b a).reverse) ∧
      (¬ a.Steady (core home).oracle → ∃ z c, (core home).resolve z = .ok c ∧
        (core home).compare a c ≠ ((core home).compare c a).reverse) := by
  have mirrors := mirrors_compare (owns_of_resolve hx) (owns_of_resolve hy)
  refine ⟨mirrors.eq_reverse_iff, ?_, ?_⟩
  · intro steady steady'
    obtain ⟨same, -⟩ | ⟨reason, -⟩ := mirrors
    · rw [same, Inclusion.reverse_reverse]
    · exact (reason.elim (· steady) (· steady')).elim
  · intro unsteady
    obtain ⟨c, partner⟩ := exists_partner (owns_of_resolve hx) unsteady
    exact ⟨c.ref, c, partner.owns, Inclusion.Splits.ne_reverse partner.splits.symm⟩

/-- A generic bound to a variable that is its body. -/
theorem reverse_law_wrapped :
    ∃ a, (core 0).resolve (.genericBound (.var 0 0) 1 [.var 0 0]) = .ok a ∧
      ∃ z c, (core 0).resolve z = .ok c ∧
        (core 0).compare a c ≠ ((core 0).compare c a).reverse := by
  have resolved : (core 0).resolve (.genericBound (.var 0 0) 1 [.var 0 0]) = .ok _ := rfl
  refine ⟨_, resolved, (reverse_law resolved resolved).2.2 ?_⟩
  intro steady
  refine steady _ .refl ?_
  exact ⟨_, ⟨_, _, _, _, rfl, rfl, .var 0 0, rfl, rfl⟩, .inl ⟨_, rfl⟩⟩

/-- This generic and the variable compare in one direction only. -/
theorem one_way_wrapped :
    ∃ a b, (core 0).resolve (.genericBound (.var 0 0) 1 [.var 0 0]) = .ok a ∧
      (core 0).resolve (.var 0 0) = .ok b ∧
        (core 0).compare a b = .equivalent ∧ (core 0).compare b a = .unrelated := by
  obtain ⟨a, b, generic, var, unfolds, isVar⟩ : ∃ a b,
      (core 0).resolve (.genericBound (.var 0 0) 1 [.var 0 0]) = .ok a ∧
        (core 0).resolve (.var 0 0) = .ok b ∧ a.Unfolds (core 0).oracle b ∧ b.IsVar :=
    ⟨_, _, rfl, rfl, ⟨_, _, _, _, rfl, rfl, .var 0 0, rfl, rfl⟩, _, rfl⟩
  have other : b ≠ a := by
    intro same
    exact unfolds.isBound.not_isVar (same ▸ isVar)
  have back := compare_var (owns_of_resolve var) (owns_of_resolve generic) other isVar
    unfolds.isBound.not_isVar
  exact ⟨a, b, generic, var, compare_of_chain (owns_of_resolve generic) (.single unfolds), back⟩

end Registry

end TypedTree
