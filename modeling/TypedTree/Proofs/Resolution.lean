import TypedTree.Proofs.Outcome

/-!
# What references resolve to

A registry resolves a reference to a type of that reference, built by the constructor that the
reference names from the types of its type arguments. A type that a registry gives for the
reference of the type is *owned* by the registry.

Type arguments and their types are lists that correspond place by place, so this starts with what
is known of members of such lists.

## Main definitions

* `Registry.Owns`: whether a type is the one that a registry gives for its reference.

## Main statements

* `Registry.ref_of_resolve`: a type has the reference that it was resolved from.
* `Registry.resolve_constructed_eq_ok`: when a constructed reference resolves.
-/

namespace TypedTree

/-! ## Members of related lists -/

section Forall₂

variable {α β γ : Type} {R : α → β → Prop} {S : α → γ → Prop} {T : β → γ → Prop} {as : List α}
  {bs : List β} {cs : List γ}

theorem exists_get_of_forall₂ (h : List.Forall₂ R as bs) {i : Nat} {a : α} (ha : as[i]? = some a) :
    ∃ b, bs[i]? = some b ∧ R a b := by
  obtain ⟨hi, rfl⟩ := List.getElem?_eq_some_iff.1 ha
  have hi' : i < bs.length := h.length_eq ▸ hi
  exact ⟨bs[i], List.getElem?_eq_getElem hi', h.get hi hi'⟩

theorem exists_mem_of_forall₂ (h : List.Forall₂ R as bs) {a : α} (ha : a ∈ as) :
    ∃ b ∈ bs, R a b := by
  obtain ⟨i, hi⟩ := List.mem_iff_getElem?.1 ha
  obtain ⟨b, hb, related⟩ := exists_get_of_forall₂ h hi
  exact ⟨b, List.mem_of_getElem? hb, related⟩

/-- Two lists that are made from the same list. -/
theorem forall₂_of_common (h : List.Forall₂ R as bs) (h' : List.Forall₂ S as cs)
    (step : ∀ a ∈ as, ∀ b c, R a b → S a c → T b c) : List.Forall₂ T bs cs := by
  induction h generalizing cs with
  | nil =>
    obtain rfl := List.forall₂_nil_left_iff.1 h'
    exact .nil
  | cons first _ ih =>
    obtain ⟨c, cs, second, rest, rfl⟩ := List.forall₂_cons_left_iff.1 h'
    exact .cons (step _ List.mem_cons_self _ c first second)
      (ih rest fun a ha => step a (List.mem_cons_of_mem _ ha))

end Forall₂

namespace TypeRef

/-- Induction on the type arguments of references. -/
@[elab_as_elim]
theorem induct_types {P : TypeRef → Prop} (primitive : ∀ id, P (.primitive id))
    (constructed : ∀ c types values, (∀ t ∈ types, P t) → P (.constructed c types values))
    (r : TypeRef) : P r := by
  cases r with
  | primitive id => exact primitive id
  | constructed c types values =>
    exact constructed c types values fun t _ => induct_types primitive constructed t

end TypeRef

namespace Constructor

variable {c : Constructor} {home : Nat} {refs : List TypeRef} {types : List Ty}
  {values : List Value} {t : Ty}

/-- A constructor succeeds when the number of type arguments, its check and its builder allow. -/
theorem construct_eq_ok :
    c.construct home refs types values = .ok t ↔
      c.arity.accepts types.length = true ∧ c.check ⟨c.id, refs, types, values⟩ = .ok () ∧
        ∃ kind, c.build ⟨c.id, refs, types, values⟩ = .ok kind ∧
          t = ⟨home, .constructed c.id refs values, c.name ⟨c.id, refs, types, values⟩, kind⟩ := by
  rw [construct]
  split
  · rename_i accepts
    simp only [accepts, true_and, Outcome.bind_eq_ok, Except.ok.injEq, eq_comm (a := t)]
    constructor
    · rintro ⟨_, h⟩
      exact h
    · rintro h
      exact ⟨(), h⟩
  · rename_i rejects
    simp [rejects]

end Constructor

namespace Registry

variable {r : Registry} {ref : TypeRef} {t : Ty}

/-- A type that a registry gives for the reference of the type. -/
def Owns (r : Registry) (t : Ty) : Prop :=
  r.resolve t.ref = .ok t

theorem id_of_primitive? {id : GlobalId} {p : Primitive} (h : r.primitive? id = some p) :
    p.info.id = id := by
  simpa using List.find?_some h

theorem id_of_constructor? {id : GlobalId} {c : Constructor} (h : r.constructor? id = some c) :
    c.id = id := by
  simpa using List.find?_some h

theorem resolve_primitive_eq_ok {id : GlobalId} :
    r.resolve (.primitive id) = .ok t ↔ ∃ p, r.primitive? id = some p ∧ r.primitiveType p = t := by
  rw [resolve]
  cases r.primitive? id <;> simp

/-- Several references resolve when each of them does. -/
theorem resolveAll_eq_ok {refs : List TypeRef} {ts : List Ty} :
    r.resolveAll refs = .ok ts ↔ List.Forall₂ (fun ref t => r.resolve ref = .ok t) refs ts := by
  induction refs generalizing ts with
  | nil => simp [resolveAll, eq_comm]
  | cons ref refs ih =>
    rw [resolveAll]
    rw [List.forall₂_cons_left_iff]
    cases hr : r.resolve ref with
    | error e => simp
    | ok t =>
      cases hs : r.resolveAll refs with
      | error e => simp [← ih, hs]
      | ok ts' =>
        simp only [Except.ok.injEq, ← ih, hs]
        constructor
        · rintro rfl
          exact ⟨t, ts', rfl, rfl, rfl⟩
        · rintro ⟨_, _, rfl, rfl, rfl⟩
          rfl

/-- A constructed reference resolves when its constructor is registered, its type arguments
resolve, and the constructor accepts them. -/
theorem resolve_constructed_eq_ok {id : GlobalId} {types : List TypeRef} {values : List Value} :
    r.resolve (.constructed id types values) = .ok t ↔
      ∃ c ts, r.constructor? id = some c ∧
        List.Forall₂ (fun ref t => r.resolve ref = .ok t) types ts ∧
          c.construct r.home types ts values = .ok t := by
  simp only [← resolveAll_eq_ok]
  rw [resolve]
  cases r.constructor? id with
  | none => simp
  | some c => cases r.resolveAll types <;> simp

/-- A type has the reference that it was resolved from. -/
theorem ref_of_resolve (h : r.resolve ref = .ok t) : t.ref = ref := by
  cases ref with
  | primitive id =>
    obtain ⟨p, hp, rfl⟩ := resolve_primitive_eq_ok.1 h
    simp [primitiveType, id_of_primitive? hp]
  | constructed id types values =>
    obtain ⟨c, ts, hc, -, hb⟩ := resolve_constructed_eq_ok.1 h
    obtain ⟨-, -, kind, -, rfl⟩ := Constructor.construct_eq_ok.1 hb
    simp [id_of_constructor? hc]

/-- Whatever a registry gives for a reference it owns. -/
theorem owns_of_resolve (h : r.resolve ref = .ok t) : r.Owns t := by
  rw [Owns, ref_of_resolve h, h]

/-- A type knows which registry owns it. -/
theorem home_of_owns (h : r.Owns t) : t.home = r.home := by
  rw [Owns] at h
  cases ht : t.ref with
  | primitive id =>
    rw [ht] at h
    obtain ⟨p, -, rfl⟩ := resolve_primitive_eq_ok.1 h
    rfl
  | constructed id types values =>
    rw [ht] at h
    obtain ⟨c, ts, -, -, built⟩ := resolve_constructed_eq_ok.1 h
    obtain ⟨-, -, kind, -, rfl⟩ := Constructor.construct_eq_ok.1 built
    rfl

theorem refs_of_forall₂ {refs : List TypeRef} {ts : List Ty}
    (h : List.Forall₂ (fun ref t => r.resolve ref = .ok t) refs ts) : ts.map (·.ref) = refs := by
  induction h with
  | nil => rfl
  | cons h _ ih => rw [List.map_cons, ref_of_resolve h, ih]

theorem owns_of_forall₂ {refs : List TypeRef} {ts : List Ty}
    (h : List.Forall₂ (fun ref t => r.resolve ref = .ok t) refs ts) : ∀ t ∈ ts, r.Owns t := by
  induction h with
  | nil => simp
  | cons h _ ih =>
    intro t ht
    rcases List.mem_cons.1 ht with rfl | ht
    · exact owns_of_resolve h
    · exact ih t ht

/-- A type that a failure policy gives is owned or a stand-in. -/
theorem owns_or_isFailure {policy : FailurePolicy} {ref : TypeRef}
    (h : r.resolveBy policy ref = .ok t) : r.Owns t ∨ ∃ e, t.kind = .failure e := by
  unfold resolveBy settle at h
  split at h
  · rename_i resolved
    exact .inl (Except.ok.inj h ▸ owns_of_resolve resolved)
  · cases policy with
    | strict => simp at h
    | substitute => exact .inr ⟨_, congrArg Ty.kind (Except.ok.inj h).symm⟩

end Registry

end TypedTree
