import TypedTree.Proofs.Covariance

/-!
# Subtypes of plain data

Tuples, nested in any way, of truth values, texts, numbers, ranges of numbers and enumerations. For
these a comparison says exactly how the sets of their values relate. That a subtype has no other
values follows kind by kind. The other direction needs a value for every inclusion that fails: an
end of a range, a missing member, or a tuple with one bad slot, whose other slots can be filled, as
all these types have values.

## Main definitions

* `TypeRef.IsData`: the references to plain data.
* `Ty.Includes`: one type accepts all values of another.

## Main statements

* `Kind.under_iff_holds`: kinds of plain data are under each other as their values say.
* `Registry.below_iff_includes`: so are the types.
* `Registry.compare_data`: all answers of a comparison.
-/

namespace TypedTree

/-- Whether a reference is to a primitive type of the core namespace, to a range, to an enumeration
or to a tuple of such types. What is written for the bounds and members is left open. -/
inductive TypeRef.IsData : TypeRef → Prop
  | primitive (id : GlobalId) : IsData (.primitive id)
  | scalar {c : GlobalId} (hc : c ∈ [Core.intRange, Core.rationalRange, Core.enumeration])
    (values : List Value) : IsData (.constructed c [] values)
  | tuple {slots : List TypeRef} (each : ∀ s ∈ slots, IsData s) (values : List Value) :
    IsData (.constructed Core.tuple slots values)

/-- Whether a kind is one of plain data. -/
def Kind.IsData {τ : Type} : Kind τ → Prop
  | .bool | .int _ | .rational _ | .text | .enumeration _ | .tuple _ => True
  | _ => False

/-- Whether every value of the first type is one of the second. -/
def Ty.Includes (o : Oracle) (b a : Ty) : Prop :=
  ∀ v, a.Accepts o v → b.Accepts o v

/-! ## Values of scalars -/

theorem IntRange.within_iff_contains {r s : IntRange} :
    r.within s = true ↔ ∀ n, r.contains n = true → s.contains n = true := by
  constructor
  · exact fun h n => contains_of_within h
  · intro h
    have low := h r.min (by simp [contains, r.min_le_max])
    have high := h r.max (by simp [contains, r.min_le_max])
    simp only [contains, Bool.and_eq_true, decide_eq_true_eq] at low high
    exact within_iff.2 ⟨low.1, high.2⟩

theorem RationalRange.within_iff_contains {r s : RationalRange} :
    r.within s = true ↔ ∀ q, r.contains q = true → s.contains q = true := by
  constructor
  · exact fun h q => contains_of_within h
  · intro h
    have low := h r.min (by simp [contains, r.min_le_max, Rational.le_refl])
    have high := h r.max (by simp [contains, r.min_le_max, Rational.le_refl])
    simp only [contains, Bool.and_eq_true, decide_eq_true_eq] at low high
    exact within_iff.2 ⟨low.1, high.2⟩

theorem Enumeration.within_iff_contains {e f : Enumeration} :
    e.within f = true ↔ ∀ v, e.contains v = true → f.contains v = true := by
  constructor
  · exact fun h v => contains_of_within h
  · intro h
    have blank := h .void
    have member (id : Ident) := h (.ident id)
    simp only [contains, decide_eq_true_eq] at blank member
    simp only [within, Bool.and_eq_true, Bool.or_eq_true, Bool.not_eq_true', List.all_eq_true,
      decide_eq_true_eq]
    refine ⟨?_, member⟩
    cases he : e.blank
    · exact .inl rfl
    · exact .inr (blank he)

/-! ## Values of tuples -/

section Filled

variable {α β γ : Type} {A : α → γ → Prop} {B : β → γ → Prop} {as : List α} {bs : List β}

theorem exists_filled (h : ∀ a ∈ as, ∃ c, A a c) :
    ∃ cs, List.Forall₂ (fun c a => A a c) cs as := by
  obtain ⟨cs, each, -⟩ := Registry.exists_forall₂ (P := fun _ => True) fun a ha =>
    (h a ha).imp fun _ hc => ⟨hc, trivial⟩
  exact ⟨cs, each.flip⟩

/-- If all slots can be filled, then what fills each of them shows in what fills all of them. -/
theorem forall₂_iff_filled (h : ∀ a ∈ as, ∃ c, A a c) :
    List.Forall₂ (fun a b => ∀ c, A a c → B b c) as bs ↔
      ∀ cs, List.Forall₂ (fun c a => A a c) cs as → List.Forall₂ (fun c b => B b c) cs bs := by
  induction as generalizing bs with
  | nil => cases bs <;> simp
  | cons a as ih =>
    have others : ∀ x ∈ as, ∃ c, A x c := fun x hx => h x (List.mem_cons_of_mem _ hx)
    constructor
    · intro places cs filled
      cases places with
      | cons first rest =>
        cases filled with
        | cons hc hcs => exact .cons (first _ hc) ((ih others).1 rest _ hcs)
    · intro whole
      obtain ⟨c, hc⟩ := h a List.mem_cons_self
      obtain ⟨cs, hcs⟩ := exists_filled others
      cases bs with
      | nil => cases whole _ (.cons hc hcs)
      | cons b bs =>
        refine .cons ?_ ((ih others).2 ?_)
        · intro d hd
          exact (List.forall₂_cons.1 (whole _ (.cons hd hcs))).1
        · intro ds hds
          exact (List.forall₂_cons.1 (whole _ (.cons hc hds))).2

end Filled

namespace Kind

variable {o : Oracle} {k k' : Kind Ty}

/-- A kind of plain data holds a value if its parts accept one. -/
theorem exists_holds (data : k.IsData) (formed : k.Formed)
    (parts : ∀ p ∈ k.parts, ∃ v, p.Accepts o v) : ∃ v, k.Holds o v := by
  cases k with
  | bool => exact ⟨.bool true, trivial⟩
  | text => exact ⟨.text "", trivial⟩
  | int r => exact ⟨.int r.default, r.contains_default⟩
  | rational r => exact ⟨.rational r.default, r.contains_default⟩
  | enumeration e => exact ⟨e.default, Enumeration.contains_default formed⟩
  | tuple slots =>
    obtain ⟨items, filled⟩ := exists_filled parts
    exact ⟨.tuple items, filled⟩
  | _ => exact data.elim

/-- Kinds of plain data with a value in common have the same name. -/
theorem name_of_holds {v : Value} (data : k.IsData) (data' : k'.IsData) (hv : k.Holds o v)
    (hv' : k'.Holds o v) : k.name = k'.name := by
  cases k <;> cases k' <;> first
    | rfl
    | exact data.elim
    | exact data'.elim
    | cases v <;> simp_all [Holds, Enumeration.contains]

/-- Kinds of plain data are under each other as their values say, if their parts are. -/
theorem under_iff_holds (data : k.IsData) (data' : k'.IsData) (formed : k.Formed)
    (filled : ∀ p ∈ k.parts, ∃ v, p.Accepts o v)
    (parts : ∀ p ∈ k.parts, ∀ q ∈ k'.parts, o.Below p q ↔ q.Includes o p) :
    k.Under o k' ↔ ∀ v, k.Holds o v → k'.Holds o v := by
  by_cases names : k.name = k'.name
  · cases k <;> cases k' <;> try first
      | exact data.elim
      | simp [name] at names; done
    case bool.bool | text.text => exact iff_of_true trivial fun _ hv => hv
    case int.int r s =>
      rw [Under, IntRange.within_iff_contains]
      constructor
      · intro h v hv
        cases v with
        | int n => exact h n hv
        | _ => exact hv.elim
      · exact fun h n => h (.int n)
    case rational.rational r s =>
      rw [Under, RationalRange.within_iff_contains]
      constructor
      · intro h v hv
        cases v with
        | rational q => exact h q hv
        | _ => exact hv.elim
      · exact fun h q => h (.rational q)
    case enumeration.enumeration e f => exact Enumeration.within_iff_contains
    case tuple.tuple xs ys =>
      have places :
          List.Forall₂ o.Below xs ys ↔ List.Forall₂ (fun x y => y.Includes o x) xs ys := by
        simp only [List.forall₂_iff_get]
        refine and_congr_right fun _ => forall_congr' fun i => ?_
        refine forall_congr' fun hi => forall_congr' fun hi' => ?_
        exact parts _ (List.get_mem ..) _ (List.get_mem ..)
      rw [Under, places]
      refine (forall₂_iff_filled (A := Ty.Accepts o) (B := Ty.Accepts o) filled).trans ?_
      constructor
      · intro h v hv
        cases v with
        | tuple items => exact h items hv
        | _ => exact hv.elim
      · exact fun h items => h (.tuple items)
  · obtain ⟨v, hv⟩ := exists_holds data formed filled
    refine iff_of_false ?_ fun h => names (name_of_holds data data' hv (h v hv))
    cases k <;> cases k' <;> first
      | exact id
      | exact absurd rfl names

end Kind

/-! ## Types of the core registry -/

theorem Core.isData_of_built {args : Constructor.Args} {kind : Kind Ty} {word : String}
    (built : Built args word kind) (known : word ∈ ["int", "rational", "enumeration", "tuple"]) :
    kind.IsData := by
  have name := built.name
  cases kind <;> first
    | exact trivial
    | subst name; simp [Kind.name] at known

namespace Registry

variable {home : Nat} {a b t : Ty}

/-- A type of plain data has a kind of plain data. -/
theorem isData_kind (h : (core home).Owns t) (data : t.ref.IsData) : t.kind.IsData := by
  rw [Owns] at h
  cases hr : t.ref with
  | primitive id =>
    rw [hr] at h
    obtain ⟨p, hp, rfl⟩ := resolve_primitive_eq_ok.1 h
    have known : p ∈ Core.primitives := List.mem_of_find?_eq_some hp
    simp only [Core.primitives, List.mem_cons, List.not_mem_nil, or_false] at known
    rcases known with rfl | rfl | rfl | rfl <;> trivial
  | constructed id refs values =>
    rw [hr] at h data
    obtain ⟨c, ts, hc, hs, hb⟩ := resolve_constructed_eq_ok.1 h
    obtain ⟨-, -, kind, build, rfl⟩ := Constructor.construct_eq_ok.1 hb
    cases data with
    | scalar known =>
      cases hs
      simp only [List.mem_cons, List.not_mem_nil, or_false] at known
      rcases known with rfl | rfl | rfl
      · rw [build_of_constructor? Core.buildIntRange hc rfl] at build
        exact Core.isData_of_built (Core.built_intRange rfl build) (by decide)
      · rw [build_of_constructor? Core.buildRationalRange hc rfl] at build
        exact Core.isData_of_built (Core.built_rationalRange rfl build) (by decide)
      · rw [build_of_constructor? Core.buildEnumeration hc rfl] at build
        exact Core.isData_of_built (Core.built_enumeration rfl build) (by decide)
    | tuple each =>
      rw [build_of_constructor? Core.buildTuple hc rfl] at build
      exact Core.isData_of_built (Core.built_tuple build) (by decide)

/-- The parts of plain data are plain data. -/
theorem isData_part (h : (core home).Owns t) (data : t.ref.IsData) :
    ∀ p ∈ t.kind.parts, p.ref.IsData := by
  rw [← forall_types_iff h]
  generalize t.ref = ref at data
  cases data with
  | primitive id => simp [TypeRef.types]
  | scalar known values => simp [TypeRef.types]
  | tuple each values => exact each

/-- Induction on plain data from its parts up. -/
theorem induct_data {P : Ty → Prop} (step : ∀ t, (core home).Owns t → t.ref.IsData →
    (∀ p ∈ t.kind.parts, P p) → P t) (h : (core home).Owns t) (data : t.ref.IsData) : P t := by
  induction hn : t.ref.weight using Nat.strongRecOn generalizing t with
  | ind n ih =>
    subst hn
    have forms := forms_of_owns h
    refine step t h data fun p hp => ?_
    exact ih _ (forms.weight_part_lt hp) (forms.owns_parts p hp) (isData_part h data p hp) rfl

/-- Plain data has values. -/
theorem exists_accepts (h : (core home).Owns t) (data : t.ref.IsData) :
    ∃ v, t.Accepts (core home).oracle v := by
  refine induct_data (P := fun t => ∃ v, t.Accepts (core home).oracle v) ?_ h data
  intro t h data parts
  simp only [Ty.accepts_iff]
  exact Kind.exists_holds (isData_kind h data) (forms_of_owns h).kind parts

theorem isPlain_of_isData (h : (core home).Owns t) (data : t.ref.IsData) : t.IsPlain := by
  have kind := isData_kind h data
  rw [Ty.IsPlain]
  cases hk : t.kind <;> simp_all [Kind.IsData]

/-- Plain data is a subtype of other plain data just if its values are values of the other. -/
theorem below_iff_includes (ha : (core home).Owns a) (hb : (core home).Owns b)
    (da : a.ref.IsData) (db : b.ref.IsData) :
    (core home).oracle.Below a b ↔ b.Includes (core home).oracle a := by
  refine induct_data (P := fun a => ∀ b, (core home).Owns b → b.ref.IsData →
    ((core home).oracle.Below a b ↔ b.Includes (core home).oracle a)) ?_ ha da b hb db
  intro a ha da parts b hb db
  rw [below_plain_iff ha hb (isPlain_of_isData ha da) (isPlain_of_isData hb db), Ty.Includes]
  simp only [Ty.accepts_iff]
  have formsA := forms_of_owns ha
  have formsB := forms_of_owns hb
  refine Kind.under_iff_holds (isData_kind ha da) (isData_kind hb db) formsA.kind ?_ ?_
  · intro p hp
    exact exists_accepts (formsA.owns_parts p hp) (isData_part ha da p hp)
  · intro p hp q hq
    exact parts p hp q (formsB.owns_parts q hq) (isData_part hb db q hq)

/-- Comparisons of plain data lead to plain data only. -/
theorem steady_of_isData (h : (core home).Owns t) (data : t.ref.IsData) :
    t.Steady (core home).oracle := by
  have closed {t : Ty} (h : (core home).Owns t) (data : t.ref.IsData) (s : Ty) :
      ¬ t.Unfolds (core home).oracle s := fun hs =>
    hs.isBound.not_isPlain (isPlain_of_isData h data)
  intro s path
  have kept : (core home).Owns s ∧ s.ref.IsData := by
    induction path with
    | refl => exact ⟨h, data⟩
    | tail _ next ih =>
      obtain part | unfolds := next.mem_parts_or_unfolds
      · exact ⟨owns_part ih.1 rfl part, isData_part ih.1 ih.2 _ part⟩
      · exact absurd unfolds (closed ih.1 ih.2 _)
  rintro ⟨u, hu, -⟩
  exact closed kept.1 kept.2 u hu

/-- A comparison of plain data says which of the two inclusions of values hold, and nothing else. -/
theorem compare_data {x y : TypeRef} (dx : x.IsData) (dy : y.IsData)
    (hx : (core home).resolve x = .ok a) (hy : (core home).resolve y = .ok b)
    (policy : FailurePolicy) :
    let sub := b.Includes (core home).oracle a
    let sup := a.Includes (core home).oracle b
    ((core home).isSubtypeBy policy x y = .ok true ↔ sub) ∧
      ∃ o, (core home).compareBy policy x y = .ok o ∧
        (o = .equivalent ↔ sub ∧ sup) ∧ (o = .subtype ↔ sub ∧ ¬ sup) ∧
        (o = .supertype ↔ ¬ sub ∧ sup) ∧ (o = .unrelated ↔ ¬ sub ∧ ¬ sup) := by
  intro sub sup
  have ha := owns_of_resolve hx
  have hb := owns_of_resolve hy
  rw [← ref_of_resolve hx] at dx
  rw [← ref_of_resolve hy] at dy
  have hsub : (core home).oracle.Below a b ↔ sub := below_iff_includes ha hb dx dy
  have hsup : (core home).oracle.Below b a ↔ sup := below_iff_includes hb ha dy dx
  refine ⟨(isSubtypeBy_iff hx hy).trans hsub, _, compareBy_of_resolve policy hx hy, ?_⟩
  obtain ⟨back, proper⟩ | ⟨unsteady, -⟩ := mirrors_compare ha hb
  · rw [← hsub, ← hsup, Oracle.Below, Oracle.Below, oracle_compare, oracle_compare, back]
    cases hc : (core home).compare a b <;> simp_all [Inclusion.isSubtype, Inclusion.reverse]
  · exact (unsteady.elim (· (steady_of_isData ha dx)) (· (steady_of_isData hb dy))).elim

/-- A smaller range and fewer members, written in another order and with a repeat. -/
theorem compare_data_nested :
    let x : TypeRef := .tuple [.tuple [.intRange 0 3], .enumeration [⟨"b"⟩, ⟨"a"⟩, ⟨"b"⟩] false]
    let y : TypeRef := .tuple [.tuple [.int], .enumeration [⟨"a"⟩, ⟨"b"⟩] true]
    x.IsData ∧ y.IsData ∧ ∃ a b, (core 0).resolve x = .ok a ∧ (core 0).resolve y = .ok b ∧
      b.Includes (core 0).oracle a ∧ ¬ a.Includes (core 0).oracle b ∧
        (core 0).isSubtypeBy .strict x y = .ok true ∧
          (core 0).compareBy .strict x y = .ok .subtype := by
  intro x y
  have range : (TypeRef.intRange 0 3).IsData := .scalar (by decide) _
  have enumeration (ids : List Ident) (blank : Bool) : (TypeRef.enumeration ids blank).IsData :=
    .scalar (by decide) _
  have dx : x.IsData := .tuple (by simpa using ⟨.tuple (by simpa using range) _, enumeration _ _⟩) _
  have dy : y.IsData :=
    .tuple (by simpa using ⟨.tuple (by simpa using .primitive _) _, enumeration _ _⟩) _
  obtain ⟨a, b, p, q, r, s, m, n, hx, hy, ka, kb, kp, kr, km, kn, kq, ks⟩ :
      ∃ a b p q r s m n, (core 0).resolve x = .ok a ∧ (core 0).resolve y = .ok b ∧
        a.kind = .tuple [p, q] ∧ b.kind = .tuple [r, s] ∧ p.kind = .tuple [m] ∧
          r.kind = .tuple [n] ∧ m.kind = .int ⟨0, 3, by decide⟩ ∧ n.kind = .int .full ∧
            q.kind = .enumeration ⟨[⟨"b"⟩, ⟨"a"⟩], false⟩ ∧
              s.kind = .enumeration ⟨[⟨"a"⟩, ⟨"b"⟩], true⟩ :=
    ⟨_, _, _, _, _, _, _, _, rfl, rfl, rfl, rfl, rfl, rfl, rfl, rfl, rfl, rfl⟩
  have ha := owns_of_resolve hx
  have hb := owns_of_resolve hy
  have hp := owns_part ha ka (List.mem_cons_self)
  have hq := owns_part ha ka (p := q) (by simp [Kind.parts])
  have hr := owns_part hb kb (List.mem_cons_self)
  have hs := owns_part hb kb (p := s) (by simp [Kind.parts])
  have hm := owns_part hp kp (List.mem_cons_self)
  have hn := owns_part hr kr (List.mem_cons_self)
  have numbers : (core 0).oracle.Below m n ∧ ¬ (core 0).oracle.Below n m := by
    rw [below_kinds_iff hm hn km kn trivial trivial, below_kinds_iff hn hm kn km trivial trivial]
    simp only [Kind.Under]
    decide
  have tuples : (core 0).oracle.Below p r ∧ ¬ (core 0).oracle.Below r p := by
    rw [below_kinds_iff hp hr kp kr trivial trivial, below_kinds_iff hr hp kr kp trivial trivial]
    simpa [Kind.Under] using numbers
  have members : (core 0).oracle.Below q s := by
    rw [below_kinds_iff hq hs kq ks trivial trivial]
    simp only [Kind.Under]
    decide
  have whole : (core 0).oracle.Below a b ∧ ¬ (core 0).oracle.Below b a := by
    rw [below_kinds_iff ha hb ka kb trivial trivial, below_kinds_iff hb ha kb ka trivial trivial]
    simpa [Kind.Under, members] using ⟨tuples.1, fun h => absurd h tuples.2⟩
  obtain ⟨sub, o, answer, -, subtype, -, -⟩ := compare_data dx dy hx hy .strict
  have included := sub.1 ((isSubtypeBy_iff hx hy).2 whole.1)
  have larger : ¬ a.Includes (core 0).oracle b := by
    rw [← below_iff_includes hb ha (ref_of_resolve hy ▸ dy) (ref_of_resolve hx ▸ dx)]
    exact whole.2
  rw [answer, subtype.2 ⟨included, larger⟩]
  exact ⟨dx, dy, a, b, hx, hy, included, larger, sub.2 included, rfl⟩

end Registry

end TypedTree
