import TypedTree.Proofs.Children

/-!
# Defaults are accepted

A type accepts the value that it starts with. Defaults are made without a look at the check, so
this is proved kind by kind: the default of a range lies in it, a record that starts with its
optional fields inactive fits, and so on. Parts and instances are lighter types of the same
registry, and the induction is on what a type weighs.

## Main statements

* `Ty.fill_eq_ok`: what the fields of a tag are filled with.
* `Registry.accepts_default`: the types of the core registry accept their defaults.
-/

namespace TypedTree

/-! ## Scalars -/

theorem IntRange.contains_default (r : IntRange) : r.contains r.default = true := by
  have order := r.min_le_max
  simp only [contains, default, Bool.and_eq_true]
  repeat' split
  · simpa using order
  · simpa using order
  · simp_all [Int64.not_lt]

theorem Rational.le_iff {a b : Rational} : a ≤ b ↔ a.num * b.den ≤ b.num * a.den := by
  simp only [LE.le, cmp, Std.isLE_compare]

theorem Rational.le_refl (a : Rational) : a ≤ a := le_iff.2 (Int.le_refl _)

theorem RationalRange.contains_default (r : RationalRange) : r.contains r.default = true := by
  have order := r.min_le_max
  simp only [contains, default, Bool.and_eq_true]
  repeat' split
  · simp_all
  · simpa [Rational.le_refl] using order
  · simpa [Rational.le_refl] using order

theorem Enumeration.contains_default {e : Enumeration} (h : e.members = [] → e.blank = true) :
    e.contains e.default = true := by
  obtain ⟨members, blank⟩ := e
  cases members <;> simp_all [contains, default]

/-- A 32-bit number is not too large. -/
theorem saturate_toNat (n : UInt32) : saturate n.toNat = n := by
  have small : n.toNat ≤ UInt32.size - 1 := Nat.le_pred_of_lt n.toNat_lt
  rw [saturate, Nat.min_eq_left small, UInt32.ofNat_toNat]

theorem SizeBounds.allows_initial (size : SizeBounds) :
    size.Allows (saturate size.initial.toNat) := by
  rw [saturate_toNat]
  exact ⟨size.min_le_initial, size.initial_le_max⟩

/-- A generic with something bound has it bound to every variable. -/
theorem Kind.GenericFormed.length_of_isBound {body : TypeRef} {inner : Ty} {vars : UInt32}
    {bindings : List (TypeRef × Ty)} (h : Kind.GenericFormed body inner vars bindings)
    (bound : Ty.isBound vars bindings = true) : (bindings.map (·.1)).length = vars.toNat := by
  rw [List.length_map]
  rcases h.bindings_length with rfl | count
  · obtain rfl : vars = 0 := by simpa [Ty.isBound] using bound
    rfl
  · exact count

namespace Ty

variable {o : Oracle} {default : Ty → Attempt Value} {v : Value}

/-! ## Compound kinds -/

/-- Whether a type accepts what is computed for it. -/
def Suits (o : Oracle) (default : Ty → Attempt Value) (t : Ty) : Prop :=
  ∀ v, (default t).answer o = .ok v → t.Accepts o v

theorem fits_initialSlots {fields : List (Field Ty)} {slots : Slots}
    (hd : ∀ f ∈ fields, f.type.Suits o default)
    (h : (initialSlots default fields).answer o = .ok slots) :
    List.Forall₂ (fun s f => Field.Fits o f s) slots fields := by
  have made := (List.forall₂_and_left fields slots).2 ⟨hd, Attempt.each_eq_ok.1 h⟩
  refine (made.imp ?_).flip
  rintro f s ⟨suits, slot⟩
  cases optional : f.optional with
  | true =>
    obtain rfl : (f.id, none) = s := by simpa [optional] using slot
    exact ⟨rfl, optional⟩
  | false =>
    simp only [optional, Bool.false_eq_true, if_false] at slot
    obtain ⟨w, hw, rfl⟩ := Attempt.bind_pure_eq_ok.1 slot
    exact ⟨rfl, suits w hw⟩

/-- A value is filled with the fields of a tag in their order, each with what is there under its name
or else with its default. -/
theorem fill_eq_ok {declared : List (Ident × Ty)} {tag : Tag} {previous : Fields} :
    (fill default declared tag previous).answer o = .ok v ↔ ∃ fields,
      v = .variant tag.id fields ∧ List.Forall₂ (fun d f => f.1 = d.1 ∧
        match Fields.get? previous d.1 with
        | some v => f.2 = v
        | none => (default d.2).answer o = .ok f.2) (tagFields declared tag) fields := by
  rw [fill, Attempt.bind_pure_eq_ok]
  refine exists_congr fun fields => ?_
  rw [Attempt.each_eq_ok, and_comm, eq_comm (a := v)]
  refine and_congr_right fun _ => ?_
  have field (d : Ident × Ty) (f : Ident × Value) :
      (match Fields.get? previous d.1 with
        | some v => pure (d.1, v)
        | none => do
          let v ← default d.2
          pure (d.1, v)).answer o = .ok f ↔ f.1 = d.1 ∧
        match Fields.get? previous d.1 with
        | some v => f.2 = v
        | none => (default d.2).answer o = .ok f.2 := by
    cases Fields.get? previous d.1 with
    | some v => simp [Prod.ext_iff, eq_comm]
    | none =>
      rw [Attempt.bind_pure_eq_ok]
      constructor
      · rintro ⟨v, made, rfl⟩
        exact ⟨rfl, made⟩
      · rintro ⟨named, made⟩
        exact ⟨f.2, made, Prod.ext named.symm rfl⟩
  exact ⟨fun h => h.imp fun d f => (field d f).1, fun h => h.imp fun d f => (field d f).2⟩

/-- The fields of a tag are filled with accepted values if those that are kept are accepted. -/
theorem holds_fill {declared : List (Ident × Ty)} {tags : List Tag} {initial tag : Tag}
    {previous : Fields} (formed : Kind.VariantFormed declared tags initial) (ht : tag ∈ tags)
    (hd : ∀ d ∈ declared, d.2.Suits o default)
    (kept : ∀ d ∈ declared, ∀ w, Fields.get? previous d.1 = some w → d.2.Accepts o w)
    (h : (fill default declared tag previous).answer o = .ok v) :
    (Kind.variant declared tags initial).Holds o v := by
  obtain ⟨fields, rfl, filled⟩ := fill_eq_ok.1 h
  have count := filled.length_eq
  rw [length_tagFields (formed.positions_lt tag ht)] at count
  refine ⟨tag, tag?_eq_of_mem formed.tags_nodup ht, count.symm, ?_⟩
  rintro ⟨f, d⟩ hp
  have hm := mem_of_mem_tagFields (List.of_mem_zip hp).2
  obtain ⟨named, content⟩ := List.forall₂_zip filled.flip hp
  refine ⟨named.symm, ?_⟩
  cases old : Fields.get? previous d.1 with
  | some w =>
    simp only [old] at content
    exact content ▸ kept d hm w old
  | none =>
    simp only [old] at content
    exact hd d hm f.2 content

/-- The value of a generic under bindings is made of them and the default of the instance. -/
theorem boundValue_eq_ok {body : TypeRef} {vars : UInt32} {bindings : List TypeRef} :
    (boundValue default body vars bindings).answer o = .ok v ↔
      (∀ b ∈ bindings, b.Closed o) ∧
        ∃ s, body.HasInstance o vars bindings s ∧
          ∃ w, (default s).answer o = .ok w ∧ .generic bindings w = v := by
  rw [← Attempt.exists_each_checkBinding]
  simp only [boundValue, Attempt.answer_bind, Outcome.bind_eq_ok, Attempt.answer_pure,
    Except.ok.injEq, Attempt.answer_expand]
  constructor
  · rintro ⟨ts, checked, s, own, w, made, same⟩
    exact ⟨⟨ts, checked⟩, s, own, w, made, same⟩
  · rintro ⟨⟨ts, checked⟩, s, own, w, made, same⟩
    exact ⟨ts, checked, s, own, w, made, same⟩

theorem holds_boundValue {body : TypeRef} {inner : Ty} {vars : UInt32}
    {bound : List (TypeRef × Ty)} {bindings : List TypeRef} (count : bindings.length = vars.toNat)
    (hd : ∀ t, body.HasInstance o vars bindings t → t.Suits o default)
    (h : (boundValue default body vars bindings).answer o = .ok v) :
    (Kind.generic body inner vars bound).Holds o v := by
  obtain ⟨closed, t, own, w, hw, rfl⟩ := boundValue_eq_ok.1 h
  exact ⟨count, closed, t, own, hd t own w hw⟩

end Ty

namespace Registry

variable {home : Nat} {t : Ty} {v : Value}

/-- The types of the core registry accept their defaults. -/
theorem accepts_default (h : (core home).Owns t) (hd : t.default.answer (core home).oracle = .ok v) :
    t.Accepts (core home).oracle v := by
  induction hn : t.ref.weight using Nat.strongRecOn generalizing t v with
  | ind n ih =>
    subst hn
    have forms := forms_of_owns h
    -- Lighter types that are owned suit, whether they are parts or an instance.
    let within (x : Ty) : Attempt Value :=
      if x.ref.weight < t.ref.weight then x.default
      else Attempt.invalid t.name "nested too deeply"
    have suits (x : Ty) (hx : (core home).Owns x) : x.Suits (core home).oracle within := by
      intro w hw
      simp only [within, Attempt.answer_ite, Attempt.answer_invalid] at hw
      split at hw
      · exact ih _ ‹_› hx hw rfl
      · simp at hw
    have parts (x : Ty) (hx : x ∈ t.kind.parts) := suits x (forms.owns_parts x hx)
    obtain ⟨_, ref, name, kind⟩ := t
    rw [Ty.default] at hd
    rw [Ty.accepts_iff]
    cases kind with
    | bool | text =>
      obtain rfl := Except.ok.inj hd
      trivial
    | int range =>
      obtain rfl := Except.ok.inj hd
      exact range.contains_default
    | rational range =>
      obtain rfl := Except.ok.inj hd
      exact range.contains_default
    | enumeration e =>
      obtain rfl := Except.ok.inj hd
      exact Enumeration.contains_default forms.kind
    | record fields =>
      obtain ⟨slots, made, rfl⟩ : ∃ slots, _ ∧ Value.record slots = v := by
        simpa only [Attempt.answer_bind, Outcome.bind_eq_ok, Attempt.answer_pure,
          Except.ok.injEq] using hd
      exact Ty.fits_initialSlots (fun f hf => parts _ (List.mem_map_of_mem hf)) made
    | variant declared tags initial =>
      exact Ty.holds_fill forms.kind forms.kind.initial_mem
        (fun d hm => parts _ (List.mem_map_of_mem hm)) (by simp [Fields.get?]) hd
    | array element size =>
      obtain ⟨w, hw, rfl⟩ : ∃ w, _ ∧ Value.array (List.replicate size.initial.toNat w) = v := by
        simpa only [Attempt.answer_bind, Outcome.bind_eq_ok, Attempt.answer_pure,
          Except.ok.injEq] using hd
      refine ⟨by simpa using size.allows_initial, ?_⟩
      intro x hx
      obtain rfl := List.eq_of_mem_replicate hx
      exact parts element List.mem_cons_self x hw
    | sum summands initial =>
      obtain ⟨s, hs⟩ : ∃ s, summands[initial.toNat]? = some s :=
        ⟨_, List.getElem?_eq_getElem forms.kind⟩
      obtain ⟨w, hw, rfl⟩ : ∃ w, _ ∧ Value.sum initial w = v := by
        simpa only [hs, Attempt.answer_bind, Outcome.bind_eq_ok, Attempt.answer_pure,
          Except.ok.injEq] using hd
      exact ⟨s, hs, parts s (List.mem_of_getElem? hs) w hw⟩
    | tuple slots =>
      obtain ⟨items, made, rfl⟩ : ∃ items, _ ∧ Value.tuple items = v := by
        simpa only [Attempt.answer_bind, Outcome.bind_eq_ok, Attempt.answer_pure,
          Except.ok.injEq] using hd
      have made := (List.forall₂_and_left slots items).2 ⟨parts, Attempt.each_eq_ok.1 made⟩
      exact (made.imp fun s w both => both.1 w both.2).flip
    | generic body inner vars bindings =>
      cases bound : Ty.isBound vars bindings with
      | true =>
        simp only [bound, if_true] at hd
        have count := Kind.GenericFormed.length_of_isBound forms.kind bound
        exact Ty.holds_boundValue count (fun s ⟨ref, _, hs⟩ => suits s (owns_of_resolve hs)) hd
      | false => simp [bound] at hd
    | map source target =>
      simp only [Attempt.answer_bind, Attempt.answer_relate, Outcome.ok_bind] at hd
      cases below : ((core home).oracle.compare source target).isSubtype with
      | true =>
        obtain rfl : Value.map (.ofFallback .itself) = v := by simpa [below] using hd
        exact ⟨by simp [Mapping.ofFallback], below⟩
      | false =>
        obtain ⟨w, hw, rfl⟩ : ∃ w, _ ∧ Value.map (.ofFallback (.fixed w)) = v := by
          simpa only [below, Bool.false_eq_true, if_false, Attempt.answer_bind,
            Outcome.bind_eq_ok, Attempt.answer_pure, Except.ok.injEq] using hd
        exact ⟨by simp [Mapping.ofFallback], parts target (by simp [Kind.parts]) w hw⟩
    | var x => simp at hd
    | failure e => simp at hd

end Registry

end TypedTree
