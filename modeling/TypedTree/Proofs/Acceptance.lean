import TypedTree.Proofs.CoreKinds
import TypedTree.Subtyping.Memory
import TypedTree.Ty.Check
import Mathlib.Data.List.Nodup

/-!
# Accepted values

The check of a value at a type succeeds or reports a fault. Here it is said for every kind when it
succeeds, without the order in which faults are looked for.

## Main definitions

* `Ty.Accepts`: the check succeeds.
* `Kind.Holds`: what a value of a kind is like, given which values the parts accept.

## Main statements

* `Ty.accepts_iff`: a type accepts the values that its kind holds.
* `Ty.accepts_record`, …: the same for single kinds.
-/

namespace TypedTree

/-- Whether the check of a value at a type succeeds. -/
def Ty.Accepts (o : Oracle) (t : Ty) (v : Value) : Prop :=
  (t.check v).answer o = .ok ()

/-- Whether a size is within bounds. -/
def SizeBounds.Allows (size : SizeBounds) (n : UInt32) : Prop :=
  size.min ≤ n ∧ n ≤ size.max

theorem SizeBounds.check_eq_ok {size : SizeBounds} {n : UInt32} :
    size.check n = .ok () ↔ size.Allows n := by
  rw [check, Allows]
  split <;> simp_all

section Parts

variable (o : Oracle)

/-- Whether a slot is one of a field. -/
def Field.Fits (f : Field Ty) (s : Ident × Option Value) : Prop :=
  f.id = s.1 ∧ match s.2 with
    | some v => f.type.Accepts o v
    | none => f.optional = true

/-- Whether the inputs of a rule are those of a type. -/
def Pattern.Fits (source : Ty) : Pattern Value → Prop
  | .exact v => source.Accepts o v
  | .range min max =>
    source.Accepts o min ∧ source.Accepts o max ∧
      (min.numericCmp max = some .lt ∨ min.numericCmp max = some .eq)

/-- Whether the answers of a rule or fallback are those of a type. -/
def Target.Fits (source target : Ty) : Target Value → Prop
  | .fixed v => target.Accepts o v
  | .itself => (o.compare source target).isSubtype = true

/-- Whether a rule leads from one type to another. -/
def Rule.Fits (source target : Ty) (rule : Rule Value) : Prop :=
  rule.pattern.Fits o source ∧ rule.target.Fits o source target

/-- Whether a mapping leads from one type to another. -/
def Mapping.Fits (source target : Ty) (table : Mapping Value) : Prop :=
  (∀ rule ∈ table.rules, rule.Fits o source target) ∧ table.fallback.Fits o source target

/-- Whether a reference is to a type without free variables. -/
def TypeRef.Closed (ref : TypeRef) : Prop :=
  ∃ t, o.resolve ref = .ok t ∧ t.freeDepth = none

/-- Whether a type is the instance of a generic body under bindings. -/
def TypeRef.HasInstance (body : TypeRef) (vars : UInt32) (bindings : List TypeRef) (t : Ty) :
    Prop :=
  ∃ ref, body.expand vars bindings = .ok ref ∧ o.resolve ref = .ok t

/-- What the values of a kind are like. -/
def Kind.Holds : Kind Ty → Value → Prop
  | .bool, .bool _ | .text, .text _ => True
  | .int r, .int n => r.contains n = true
  | .rational r, .rational q => r.contains q = true
  | .enumeration e, v => e.contains v = true
  | .record fields, .record slots => List.Forall₂ (fun s f => Field.Fits o f s) slots fields
  | .variant declared tags _, .variant tag fields =>
    ∃ d, Ty.tag? tags tag = some d ∧ fields.length = d.fields.length ∧
      ∀ p ∈ fields.zip (Ty.tagFields declared d), p.2.1 = p.1.1 ∧ p.2.2.Accepts o p.1.2
  | .array element size, .array items =>
    size.Allows (saturate items.length) ∧ ∀ v ∈ items, element.Accepts o v
  | .sum summands _, .sum index v =>
    ∃ s, summands[index.toNat]? = some s ∧ s.Accepts o v
  | .tuple slots, .tuple items => List.Forall₂ (fun v t => Ty.Accepts o t v) items slots
  | .generic body _ vars _, .generic bindings inner =>
    bindings.length = vars.toNat ∧ (∀ b ∈ bindings, b.Closed o) ∧
      ∃ t, body.HasInstance o vars bindings t ∧ t.Accepts o inner
  | .map source target, .map table => table.Fits o source target
  | _, _ => False

end Parts

variable {o : Oracle} {name : String}

theorem IntRange.check_eq_ok {r : IntRange} {n : Int64} :
    r.check name n = .ok () ↔ r.contains n = true := by
  rw [check]
  split <;> simp_all

theorem RationalRange.check_eq_ok {r : RationalRange} {q : Rational} :
    r.check name q = .ok () ↔ r.contains q = true := by
  rw [check]
  split <;> simp_all

theorem Enumeration.check_eq_ok {e : Enumeration} {v : Value} :
    e.check name v = .ok () ↔ e.contains v = true := by
  rw [check]
  split <;> simp_all

theorem Value.answer_checkAll {element : Ty} {vs : List Value} :
    (Value.checkAll element vs).answer o = .ok () ↔ ∀ v ∈ vs, element.Accepts o v := by
  induction vs with
  | nil => simp [Value.checkAll]
  | cons v vs ih => simp [Value.checkAll, ih, Ty.Accepts, Ty.check]

theorem Value.answer_checkEach {vs : List Value} {ts : List Ty} (h : vs.length = ts.length) :
    (Value.checkEach vs ts).answer o = .ok () ↔
      List.Forall₂ (fun v t => Ty.Accepts o t v) vs ts := by
  induction vs generalizing ts with
  | nil => simp_all [Value.checkEach, List.length_eq_zero_iff.1 h.symm]
  | cons v vs ih =>
    obtain ⟨t, ts, rfl⟩ := List.exists_cons_of_length_eq_add_one h.symm
    have rest : vs.length = ts.length := Nat.succ.inj h
    simp [Value.checkEach, ih rest, Ty.Accepts, Ty.check]

theorem Slots.answer_checkAt {slots : Slots} {fields : List (Field Ty)}
    (h : slots.length = fields.length) :
    (Slots.checkAt name slots fields).answer o = .ok () ↔
      List.Forall₂ (fun s f => Field.Fits o f s) slots fields := by
  induction slots generalizing fields with
  | nil => simp [Slots.checkAt, List.length_eq_zero_iff.1 h.symm]
  | cons s slots ih =>
    obtain ⟨f, fields, rfl⟩ := List.exists_cons_of_length_eq_add_one h.symm
    have rest : slots.length = fields.length := Nat.succ.inj h
    obtain ⟨id, _ | v⟩ := s
    · by_cases hid : f.id = id <;> cases ho : f.optional <;>
        simp [Slots.checkAt, hid, ho, ih rest, Field.Fits]
    · by_cases hid : f.id = id <;>
        simp [Slots.checkAt, hid, ih rest, Field.Fits, Ty.Accepts, Ty.check]

theorem Fields.answer_checkAt {fields : Fields} {wanted : List (Ident × Ty)} :
    (Fields.checkAt name fields wanted).answer o = .ok () ↔
      ∀ p ∈ fields.zip wanted, p.2.1 = p.1.1 ∧ p.2.2.Accepts o p.1.2 := by
  induction fields generalizing wanted with
  | nil => simp [Fields.checkAt]
  | cons f fields ih =>
    cases wanted with
    | nil => simp [Fields.checkAt]
    | cons w wanted =>
      by_cases hid : w.1 = f.1 <;> simp [Fields.checkAt, hid, ih, Ty.Accepts, Ty.check]

theorem Target.answer_checkAt {source target : Ty} {pos : Nat} {t : Target Value} :
    (Target.checkAt name source target pos t).answer o = .ok () ↔ t.Fits o source target := by
  cases t with
  | fixed v => simp [Target.checkAt, Target.Fits, Ty.Accepts, Ty.check]
  | itself => cases h : (o.compare source target).isSubtype <;> simp [Target.checkAt, Target.Fits, h]

theorem Pattern.answer_checkAt {source : Ty} {pos : Nat} {p : Pattern Value} :
    (Pattern.checkAt name source pos p).answer o = .ok () ↔ p.Fits o source := by
  cases p with
  | exact v => simp [Pattern.checkAt, Pattern.Fits, Ty.Accepts, Ty.check]
  | range min max =>
    rcases h : min.numericCmp max with _ | _ | _ | _ <;>
      simp [Pattern.checkAt, Pattern.Fits, Ty.Accepts, Ty.check, h]

theorem Rule.answer_checkAll {source target : Ty} {pos : Nat} {rules : List (Rule Value)} :
    (Rule.checkAll name source target pos rules).answer o = .ok () ↔
      ∀ rule ∈ rules, rule.Fits o source target := by
  induction rules generalizing pos with
  | nil => simp [Rule.checkAll]
  | cons rule rules ih =>
    simp [Rule.checkAll, Rule.Fits, ih, Pattern.answer_checkAt, Target.answer_checkAt, and_assoc]

theorem Mapping.answer_checkAt {source target : Ty} {table : Mapping Value} :
    (Mapping.checkAt name source target table).answer o = .ok () ↔
      table.Fits o source target := by
  obtain ⟨rules, fallback⟩ := table
  simp [Mapping.checkAt, Mapping.Fits, Rule.answer_checkAll, Target.answer_checkAt]

/-- A binding is checked by resolving it to a type without free variables. -/
theorem Attempt.answer_checkBinding {ref : TypeRef} {t : Ty} :
    (Attempt.checkBinding ref).answer o = .ok t ↔
      o.resolve ref = .ok t ∧ t.freeDepth = none := by
  simp only [Attempt.checkBinding, Attempt.answer_bind, Attempt.answer_resolve,
    Outcome.bind_eq_ok]
  constructor
  · rintro ⟨s, hs, h⟩
    cases hd : s.freeDepth with
    | none =>
      simp only [hd, Attempt.answer_pure, Except.ok.injEq] at h
      exact ⟨h ▸ hs, h ▸ hd⟩
    | some depth => simp [hd] at h
  · rintro ⟨ht, hd⟩
    exact ⟨t, ht, by simp [hd]⟩

theorem Attempt.exists_each_checkBinding {refs : List TypeRef} :
    (∃ ts, (Attempt.each Attempt.checkBinding refs).answer o = .ok ts) ↔
      ∀ ref ∈ refs, ref.Closed o := by
  simp only [Attempt.exists_each, Attempt.answer_checkBinding, TypeRef.Closed]

theorem Attempt.answer_expand {body : TypeRef} {vars : UInt32} {bindings : List TypeRef}
    {t : Ty} :
    (Attempt.expand body vars bindings).answer o = .ok t ↔ body.HasInstance o vars bindings t := by
  simp [Attempt.expand, TypeRef.HasInstance, Outcome.bind_eq_ok]

/-- There is one instance at most. -/
theorem TypeRef.HasInstance.unique {body : TypeRef} {vars : UInt32} {bindings : List TypeRef}
    {t s : Ty} (ht : body.HasInstance o vars bindings t) (hs : body.HasInstance o vars bindings s) :
    t = s := by
  obtain ⟨ref, expand, resolve⟩ := ht
  obtain ⟨ref', expand', resolve'⟩ := hs
  obtain rfl := Except.ok.inj (expand.symm.trans expand')
  exact Except.ok.inj (resolve.symm.trans resolve')

/-- Where keys are different, everything is found under its key. -/
theorem find?_key {α κ : Type} [DecidableEq κ] {key : α → κ} {l : List α} {x : α}
    (nodup : (l.map key).Nodup) (hx : x ∈ l) : l.find? (key · == key x) = some x := by
  obtain ⟨y, hy⟩ : ∃ y, l.find? (key · == key x) = some y := by
    rw [← Option.isSome_iff_exists, List.find?_isSome]
    exact ⟨x, hx, by simp⟩
  have named : key y = key x := by simpa using List.find?_some hy
  obtain rfl := List.inj_on_of_nodup_map nodup (List.mem_of_find?_eq_some hy) hx named
  exact hy

namespace Ty

variable {t : Ty} {v : Value}

theorem mem_of_mem_tagFields {declared : List (Ident × Ty)} {tag : Tag} {d : Ident × Ty}
    (h : d ∈ tagFields declared tag) : d ∈ declared := by
  obtain ⟨pos, -, hd⟩ := List.mem_filterMap.1 h
  exact List.mem_of_getElem? hd

/-- A tag is found under its name. -/
theorem tag?_eq_of_mem {tags : List Tag} {tag : Tag} (nodup : (tags.map (·.id)).Nodup)
    (ht : tag ∈ tags) : tag? tags tag.id = some tag :=
  find?_key nodup ht

theorem isSome_tag? {tags : List Tag} {id : Ident} :
    (tag? tags id).isSome = true ↔ id ∈ tags.map (·.id) := by
  simp [tag?, List.find?_isSome]

theorem length_tagFields {declared : List (Ident × Ty)} {tag : Tag}
    (h : ∀ pos ∈ tag.fields, pos < declared.length) :
    (tagFields declared tag).length = tag.fields.length := by
  rw [tagFields, List.length_filterMap_eq_countP, List.countP_eq_length]
  intro pos hp
  simp [h pos hp]

/-- The fields of a tag have different names. -/
theorem nodup_tagFields {declared : List (Ident × Ty)} {tag : Tag}
    (names : (declared.map (·.1)).Nodup) (positions : tag.fields.Nodup) :
    ((tagFields declared tag).map (·.1)).Nodup := by
  have whole : (tagFields declared tag).map (·.1) =
      tag.fields.filterMap ((declared.map (·.1))[·]?) := by
    simp [tagFields, List.map_filterMap]
  rw [whole]
  refine positions.filterMap ?_
  intro i j id hi hj
  rw [Option.mem_def] at hi hj
  exact (List.getElem?_inj (List.getElem?_eq_some_iff.1 hi).1 names).1 (hi.trans hj.symm)

/-- A value of another form is refused. -/
@[simp] theorem answer_mismatch : (t.mismatch v).answer o ≠ .ok () := by
  simp [mismatch]

/-- A type accepts the values that its kind holds. -/
theorem accepts_iff : t.Accepts o v ↔ t.kind.Holds o v := by
  obtain ⟨home, ref, name, kind⟩ := t
  rw [Accepts, check]
  cases kind with
  | bool | text | var | failure => cases v <;> simp [Value.checkAt, Kind.Holds]
  | int r => cases v <;> simp [Value.checkAt, Kind.Holds, IntRange.check_eq_ok]
  | rational r => cases v <;> simp [Value.checkAt, Kind.Holds, RationalRange.check_eq_ok]
  | enumeration e => cases v <;> simp [Value.checkAt, Kind.Holds, Enumeration.check_eq_ok]
  | record fields =>
    cases v with
    | record slots =>
      simp only [Value.checkAt, Kind.Holds, Attempt.answer_ite, Attempt.answer_invalid]
      split
      · rename_i count
        exact Slots.answer_checkAt count
      · rename_i count
        simp only [reduceCtorEq, false_iff]
        intro h
        exact count h.length_eq
    | _ => simp [Value.checkAt, Kind.Holds]
  | variant declared tags initial =>
    cases v with
    | variant tag fields =>
      simp only [Value.checkAt, Kind.Holds]
      cases tag? tags tag with
      | none => simp
      | some d => by_cases count : fields.length = d.fields.length <;> simp [count, Fields.answer_checkAt]
    | _ => simp [Value.checkAt, Kind.Holds]
  | array element size =>
    cases v with
    | array items =>
      simp only [Value.checkAt, Kind.Holds, ← SizeBounds.check_eq_ok]
      cases size.check (saturate items.length) <;> simp [Value.answer_checkAll]
    | _ => simp [Value.checkAt, Kind.Holds]
  | sum summands initial =>
    cases v with
    | sum index inner =>
      simp only [Value.checkAt, Kind.Holds]
      cases summands[index.toNat]? <;> simp [Accepts, check]
    | _ => simp [Value.checkAt, Kind.Holds]
  | tuple slots =>
    cases v with
    | tuple items =>
      simp only [Value.checkAt, Kind.Holds, Attempt.answer_ite, Attempt.answer_invalid]
      split
      · rename_i count
        exact Value.answer_checkEach count
      · rename_i count
        simp only [reduceCtorEq, false_iff]
        intro h
        exact count h.length_eq
    | _ => simp [Value.checkAt, Kind.Holds]
  | generic body inner vars bound =>
    cases v with
    | generic bindings inner =>
      simp only [Value.checkAt, Kind.Holds, Attempt.answer_ite, Attempt.answer_invalid]
      split
      · rename_i count
        simp only [Attempt.answer_bind, Outcome.bind_eq_ok, Attempt.answer_expand, count, true_and,
          ← Attempt.exists_each_checkBinding]
        exact ⟨fun ⟨ts, hts, t, ht, h⟩ => ⟨⟨ts, hts⟩, t, ht, h⟩,
          fun ⟨⟨ts, hts⟩, t, ht, h⟩ => ⟨ts, hts, t, ht, h⟩⟩
      · rename_i count
        simp [count]
    | _ => simp [Value.checkAt, Kind.Holds]
  | map source target =>
    cases v with
    | map table => simp [Value.checkAt, Kind.Holds, Mapping.answer_checkAt]
    | _ => simp [Value.checkAt, Kind.Holds]

end Ty

end TypedTree
