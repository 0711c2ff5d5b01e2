import TypedTree.Document.Codec
import TypedTree.Proofs.Spellings

/-!
# Writing data into documents

Every name in data that is to be kept must be readable: that is all that data can lack, because
rationals are normal and mappings end in their fallback by what they are. Data with readable names
is read back from its document as it was.

## Main definitions

* `Value.names`, `TypeRef.names`, `Entry.names`, `Path.names`: the names in data, at every depth.
* `Name.AllReadable`: some names are all readable.

## Main statements

* `Rational.make_eq_ok`, `Mapping.ofEntries_eq_ok`: what the checked ways in accept.
* `Value.decode?_encode`, `TypeRef.decode?_encode`, `Entry.decode?_encode`: data is read back.
-/

namespace TypedTree

/-! ## Names in data -/

/-- The two halves of a global identifier. -/
def GlobalId.names (id : GlobalId) : List String :=
  [id.space.text, id.name.text]

mutual

/-- The names in a value, at every depth. -/
def Value.names : Value → List String
  | .ident id => [id.text]
  | .array items => Value.namesAll items
  | .tuple items => Value.namesAll items
  | .record slots => Slots.names slots
  | .variant tag fields => tag.text :: Fields.names fields
  | .sum _ value => value.names
  | .generic bindings inner => TypeRef.namesAll bindings ++ inner.names
  | .map table => Mapping.names table
  | .void | .bool _ | .int _ | .rational _ | .text _ => []
termination_by structural x => x

/-- The names in a type reference, at every depth. -/
def TypeRef.names : TypeRef → List String
  | .primitive id => id.names
  | .constructed c types values => c.names ++ (TypeRef.namesAll types ++ Value.namesAll values)
termination_by structural x => x

/-- The names in a list of values. -/
def Value.namesAll : List Value → List String
  | [] => []
  | v :: rest => v.names ++ Value.namesAll rest
termination_by structural x => x

/-- The names in a list of references. -/
def TypeRef.namesAll : List TypeRef → List String
  | [] => []
  | r :: rest => r.names ++ TypeRef.namesAll rest
termination_by structural x => x

/-- The names in record slots, those of inactive ones included. -/
def Slots.names : List (Ident × Option Value) → List String
  | [] => []
  | (id, none) :: rest => id.text :: Slots.names rest
  | (id, some v) :: rest => id.text :: (v.names ++ Slots.names rest)
termination_by structural x => x

/-- The names in variant fields. -/
def Fields.names : List (Ident × Value) → List String
  | [] => []
  | (id, v) :: rest => id.text :: (v.names ++ Fields.names rest)
termination_by structural x => x

/-- The names in a mapping. -/
def Mapping.names : Mapping Value → List String
  | ⟨rules, fallback⟩ => Rule.namesAll rules ++ Target.names fallback
termination_by structural x => x

/-- The names in a list of rules. -/
def Rule.namesAll : List (Rule Value) → List String
  | [] => []
  | ⟨p, t⟩ :: rest => Pattern.names p ++ (Target.names t ++ Rule.namesAll rest)
termination_by structural x => x

/-- The names in a pattern. -/
def Pattern.names : Pattern Value → List String
  | .exact v => v.names
  | .range min max => min.names ++ max.names
termination_by structural x => x

/-- The names in a target. -/
def Target.names : Target Value → List String
  | .fixed v => v.names
  | .itself => []
termination_by structural x => x

end

/-- The names in an entry. -/
def Entry.names (e : Entry Value) : List String :=
  e.pattern.elim [] Pattern.names ++ Target.names e.target

/-- The names in a step. -/
def Step.names : Step → List String
  | .field id => [id.text]
  | .index _ => []

/-- The names in a path. -/
def Path.names (p : Path) : List String :=
  p.flatMap Step.names

/-- Whether all of some names are readable. -/
def Name.AllReadable (names : List String) : Prop :=
  ∀ s ∈ names, Name.Readable s

namespace Name

@[simp] theorem allReadable_nil : AllReadable [] := by
  simp [AllReadable]

@[simp] theorem allReadable_cons {s : String} {names : List String} :
    AllReadable (s :: names) ↔ Name.Readable s ∧ AllReadable names := by
  simp [AllReadable]

@[simp] theorem allReadable_append {front back : List String} :
    AllReadable (front ++ back) ↔ AllReadable front ∧ AllReadable back := by
  simp [AllReadable, or_imp, forall_and]

end Name

/-! ## The checked ways in -/

namespace Rational

open Rat

/-- The number that a rational is. -/
def toRat (q : Rational) : Rat :=
  ⟨q.num, q.den, q.den_pos.ne', q.reduced⟩

theorem toRat_eq_divInt (q : Rational) : q.toRat = q.num /. q.den :=
  (Rat.num_divInt_den q.toRat).symm

/-- A fraction has a normal form just if its denominator is not zero and the normal form of the same
number fits. -/
theorem make_eq_ok {num den : Int} {q : Rational} :
    make num den = .ok q ↔ den ≠ 0 ∧ q.num * den = num * q.den := by
  unfold make
  split
  · rename_i zero
    simp [zero]
  · rename_i nonzero
    have same :
        q.num * den = num * q.den ↔ (num /. den).num = q.num ∧ (num /. den).den = q.den := by
      have positive := Int.natCast_ne_zero.2 q.den_pos.ne'
      rw [eq_comm, ← Rat.divInt_eq_divInt_iff nonzero positive, ← toRat_eq_divInt]
      constructor
      · intro equal
        rw [equal]
        exact ⟨rfl, rfl⟩
      · intro parts
        exact Rat.ext parts.1 parts.2
    rw [Rat.num_divInt, Rat.den_divInt, if_neg nonzero, Int.gcd_comm] at same
    rw [same, and_iff_right nonzero]
    constructor
    · intro made
      simp only at made
      split at made
      · cases made
        exact ⟨rfl, rfl⟩
      · cases made
    · rintro ⟨hnum, hden⟩
      have fits := And.intro (And.intro q.le_num q.num_lt) q.den_lt
      rw [← hnum, ← hden] at fits
      simp only
      rw [dif_pos fits, Except.ok.injEq, mk.injEq]
      exact ⟨hnum, hden⟩

end Rational

namespace Mapping

variable {α : Type}

theorem rule?_eq_some {e : Entry α} {r : Rule α} : e.rule? = some r ↔ e = .ofRule r := by
  obtain ⟨p, t⟩ := e
  cases p <;> cases r <;> simp [Entry.rule?, Entry.ofRule]

theorem mapM_rule?_eq_some {es : List (Entry α)} {rules : List (Rule α)} :
    es.mapM Entry.rule? = some rules ↔ es = rules.map .ofRule := by
  induction es generalizing rules with
  | nil => cases rules <;> simp
  | cons e es ih =>
    simp only [List.mapM_cons, Option.bind_eq_bind, Option.bind_eq_some_iff, rule?_eq_some, ih]
    cases rules <;> simp

/-- A listing is read as the mapping that it lists, and no other listing is read. -/
theorem ofEntries_eq_ok {es : List (Entry α)} {m : Mapping α} :
    ofEntries es = .ok m ↔ es = m.entries := by
  obtain ⟨rules, fallback⟩ := m
  induction es using List.reverseRecOn with
  | nil => simp [ofEntries, entries]
  | append_singleton front last _ =>
    have ends : last = .ofFallback fallback ↔ last.isFallback = true ∧ last.target = fallback := by
      obtain ⟨p, t⟩ := last
      cases p <;> simp [Entry.isFallback, Entry.ofFallback]
    rw [entries, List.append_singleton_inj, ← mapM_rule?_eq_some, ends, ofEntries,
      List.getLast?_concat, List.dropLast_concat]
    cases front.mapM Entry.rule? with
    | none => simp
    | some found =>
      by_cases hlast : last.isFallback = true <;> simp [hlast]

end Mapping

namespace Document

theorem ident?_eq_some {d : Document} {id : Ident} :
    d.ident? = some id ↔ d = .text id.text ∧ Name.Readable id.text := by
  cases d with
  | text s =>
    rw [ident?, Outcome.toOption_eq_some, Ident.read_eq_ok, Ident.Readable, and_comm, text.injEq,
      eq_comm]
  | _ => simp [ident?]

theorem globalId?_eq_some {d : Document} {id : GlobalId} :
    d.globalId? = some id ↔ d = .text id.text ∧ Name.AllReadable id.names := by
  have names : Name.AllReadable id.names ↔ id.Readable := by
    simp [GlobalId.names, GlobalId.Readable, Ident.Readable]
  cases d with
  | text s =>
    rw [globalId?, Outcome.toOption_eq_some, GlobalId.read_eq_ok, names, and_comm, text.injEq,
      eq_comm]
  | _ => simp [globalId?]

/-- A whole number is read just if it fits. -/
theorem int64?_eq_some {d : Document} {n : Int64} : int64? d = some n ↔ d = .integer n.toInt := by
  constructor
  · intro h
    cases d with
    | integer a =>
      rw [int64?] at h
      split at h
      · rename_i fits
        obtain rfl := Option.some.inj h
        rw [Int64.toInt_ofInt_of_le fits.1 fits.2]
      · cases h
    | _ => cases h
  · rintro rfl
    rw [int64?, if_pos ⟨n.le_toInt, n.toInt_lt⟩, Int64.ofInt_toInt]

theorem uint32?_eq_some {d : Document} {i : UInt32} :
    d.uint32? = some i ↔ d = .integer i.toNat := by
  constructor
  · intro h
    cases d with
    | integer n =>
      rw [uint32?] at h
      split at h
      · obtain rfl := Option.some.inj h
        rw [UInt32.toNat_ofNat_of_lt' (by change _ < 0x100000000; omega)]
        congr
        omega
      · cases h
    | _ => cases h
  · rintro rfl
    have := i.toNat_lt
    rw [uint32?, if_pos (by omega)]
    simp

end Document

/-! ## Reading back -/

/-- A fraction is read just if its components are 64-bit numbers, the denominator is not zero and
the number it stands for has a normal form that fits. -/
theorem Rational.decode?_eq_some {d : Document} {q : Rational} :
    Rational.decode? d = some q ↔ ∃ a b : Int64,
      d.pair? "num" "den" = some (.integer a.toInt, .integer b.toInt) ∧
        b.toInt ≠ 0 ∧ q.num * b.toInt = a.toInt * q.den := by
  simp only [Rational.decode?, Option.bind_eq_bind, Option.bind_eq_some_iff, Prod.exists,
    Document.int64?_eq_some, Outcome.toOption_eq_some, Rational.make_eq_ok]
  constructor
  · rintro ⟨_, _, pair, a, rfl, b, rfl, number⟩
    exact ⟨a, b, pair, number⟩
  · rintro ⟨a, b, pair, number⟩
    exact ⟨_, _, pair, a, rfl, b, rfl, number⟩

theorem Rational.decode?_encode (q : Rational) : Rational.decode? q.encode = some q := by
  have positive := q.den_pos
  have num : (Int64.ofInt q.num).toInt = q.num := Int64.toInt_ofInt_of_le q.le_num q.num_lt
  have den : (Int64.ofInt q.den).toInt = q.den :=
    Int64.toInt_ofInt_of_le (by omega) (Int.ofNat_lt.2 q.den_lt)
  refine Rational.decode?_eq_some.2 ⟨.ofInt q.num, .ofInt q.den, ?_, ?_, ?_⟩
  · rw [num, den]
    rfl
  · omega
  · rw [num, den]

theorem Value.encode_ne_null (v : Value) : v.encode ≠ .null := by
  cases v <;> simp [Value.encode, Document.tagged]

open Name (AllReadable)

mutual

/-- A value with readable names is read back. -/
theorem Value.decode?_encode : ∀ (v : Value), AllReadable v.names → Value.decode? v.encode = some v
  | .void, _ => by rw [Value.encode, Value.decode?, if_pos rfl]
  | .bool b, _ => by rw [Value.encode, Document.tagged, Value.decode?]
  | .int n, _ => by
    rw [Value.encode, Document.tagged, Value.decode?, Document.int64?_eq_some.2 rfl,
      Option.map_some]
  | .rational q, _ => by
    rw [Value.encode, Document.tagged, Value.decode?, Rational.decode?_encode, Option.map_some]
  | .ident id, h => by
    simp only [Value.names, Name.allReadable_cons] at h
    rw [Value.encode, Document.tagged, Value.decode?, Document.ident?_eq_some.2 ⟨rfl, h.1⟩,
      Option.map_some]
  | .text s, _ => by rw [Value.encode, Document.tagged, Value.decode?]
  | .array items, h => by
    rw [Value.names] at h
    rw [Value.encode, Document.tagged, Value.decode?, Value.decodeAll?_encodeAll items h,
      Option.map_some]
  | .tuple items, h => by
    rw [Value.names] at h
    rw [Value.encode, Document.tagged, Value.decode?, Value.decodeAll?_encodeAll items h,
      Option.map_some]
  | .record slots, h => by
    rw [Value.names] at h
    rw [Value.encode, Document.tagged, Value.decode?, Slots.member?, if_pos rfl,
      Slots.decodeAll?_encodeAll slots h, Option.map_some]
  | .variant tag fields, h => by
    simp only [Value.names, Name.allReadable_cons] at h
    have name := Document.ident?_eq_some.2 ⟨rfl, h.1⟩
    rw [Value.encode, Document.tagged, Value.decode?, List.lookup_cons_self]
    simp [Fields.member?, name, Fields.decodeAll?_encodeAll fields h.2]
  | .sum index value, h => by
    rw [Value.names] at h
    rw [Value.encode, Document.tagged, Value.decode?, List.lookup_cons_self]
    rw [Option.bind_eq_bind, Option.bind_some, Document.uint32?_eq_some.2 rfl]
    simp [Value.member?, Value.decode?_encode value h]
  | .generic bindings inner, h => by
    simp only [Value.names, Name.allReadable_append] at h
    rw [Value.encode, Document.tagged, Value.decode?, TypeRef.listMember?, if_pos rfl,
      TypeRef.decodeAll?_encodeAll bindings h.1]
    simp [Value.member?, Value.decode?_encode inner h.2]
  | .map table, h => by
    rw [Value.names] at h
    have made : Mapping.ofEntries table.entries = .ok table := Mapping.ofEntries_eq_ok.2 rfl
    rw [Value.encode, Document.tagged, Value.decode?, Mapping.decodeAll?_encode table h,
      Option.bind_eq_bind, Option.bind_some, made]
    rfl
termination_by structural v => v

/-- A reference with readable names is read back. -/
theorem TypeRef.decode?_encode :
    ∀ (r : TypeRef), AllReadable r.names → TypeRef.decode? r.encode = some r
  | .primitive id, h => by
    rw [TypeRef.names] at h
    rw [TypeRef.encode, Document.tagged, TypeRef.decode?, Document.globalId?_eq_some.2 ⟨rfl, h⟩,
      Option.map_some]
  | .constructed c types values, h => by
    simp only [TypeRef.names, Name.allReadable_append] at h
    simp [TypeRef.encode, Document.tagged, TypeRef.decode?, TypeRef.argumentMember?,
      Value.listMember?, Document.globalId?_eq_some.2 ⟨rfl, h.1⟩,
      TypeRef.decodeAll?_encodeAll types h.2.1, Value.decodeAll?_encodeAll values h.2.2]
termination_by structural r => r

theorem Value.decodeAll?_encodeAll :
    ∀ (vs : List Value), AllReadable (Value.namesAll vs) →
      Value.decodeAll? (Value.encodeAll vs) = some vs
  | [], _ => by rw [Value.encodeAll, Value.decodeAll?]
  | v :: rest, h => by
    simp only [Value.namesAll, Name.allReadable_append] at h
    simp [Value.encodeAll, Value.decodeAll?, Value.decode?_encode v h.1,
      Value.decodeAll?_encodeAll rest h.2]
termination_by structural vs => vs

theorem TypeRef.decodeAll?_encodeAll :
    ∀ (rs : List TypeRef), AllReadable (TypeRef.namesAll rs) →
      TypeRef.decodeAll? (TypeRef.encodeAll rs) = some rs
  | [], _ => by rw [TypeRef.encodeAll, TypeRef.decodeAll?]
  | r :: rest, h => by
    simp only [TypeRef.namesAll, Name.allReadable_append] at h
    simp [TypeRef.encodeAll, TypeRef.decodeAll?, TypeRef.decode?_encode r h.1,
      TypeRef.decodeAll?_encodeAll rest h.2]
termination_by structural rs => rs

/-- The null of an inactive slot is the document of no value. -/
theorem Slots.decodeAll?_encodeAll :
    ∀ (slots : List (Ident × Option Value)), AllReadable (Slots.names slots) →
      Slots.decodeAll? (Slots.encodeAll slots) = some slots
  | [], _ => by rw [Slots.encodeAll, Slots.decodeAll?]
  | (id, none) :: rest, h => by
    simp only [Slots.names, Name.allReadable_cons] at h
    simp [Slots.encodeAll, Slots.decodeAll?, Document.ident?_eq_some.2 ⟨rfl, h.1⟩,
      Slots.decodeAll?_encodeAll rest h.2]
  | (id, some v) :: rest, h => by
    simp only [Slots.names, Name.allReadable_cons, Name.allReadable_append] at h
    rw [Slots.encodeAll, Slots.decodeAll?.eq_3 _ _ _ v.encode_ne_null]
    simp [Document.ident?_eq_some.2 ⟨rfl, h.1⟩, Value.decode?_encode v h.2.1,
      Slots.decodeAll?_encodeAll rest h.2.2]
termination_by structural slots => slots

theorem Fields.decodeAll?_encodeAll :
    ∀ (fields : List (Ident × Value)), AllReadable (Fields.names fields) →
      Fields.decodeAll? (Fields.encodeAll fields) = some fields
  | [], _ => by rw [Fields.encodeAll, Fields.decodeAll?]
  | (id, v) :: rest, h => by
    simp only [Fields.names, Name.allReadable_cons, Name.allReadable_append] at h
    simp [Fields.encodeAll, Fields.decodeAll?, Document.ident?_eq_some.2 ⟨rfl, h.1⟩,
      Value.decode?_encode v h.2.1, Fields.decodeAll?_encodeAll rest h.2.2]
termination_by structural fields => fields

/-- A mapping is written as its listing. -/
theorem Mapping.decodeAll?_encode :
    ∀ (table : Mapping Value), AllReadable (Mapping.names table) →
      Entry.decodeAll? (Mapping.encode table) = some table.entries
  | ⟨rules, fallback⟩, h => by
    simp only [Mapping.names, Name.allReadable_append] at h
    rw [Mapping.encode]
    refine Rule.decodeAll?_encodeAll rules h.1 _ _ ?_
    simp [Entry.decodeAll?, Entry.decode?, Pattern.member?, Pattern.decode?, Target.member?,
      Target.decode?_encode fallback h.2, Entry.ofFallback]
termination_by structural table => table

theorem Rule.decodeAll?_encodeAll :
    ∀ (rules : List (Rule Value)), AllReadable (Rule.namesAll rules) →
      ∀ ds entries, Entry.decodeAll? ds = some entries →
        Entry.decodeAll? (Rule.encodeAll rules ++ ds) = some (rules.map .ofRule ++ entries)
  | [], _, _, _, others => by rw [Rule.encodeAll]; exact others
  | ⟨p, t⟩ :: rest, h, ds, entries, others => by
    simp only [Rule.namesAll, Name.allReadable_append] at h
    simp [Rule.encodeAll, Entry.decodeAll?, Entry.decode?, Pattern.member?, Target.member?,
      Pattern.decode?_encode p h.1, Target.decode?_encode t h.2.1,
      Rule.decodeAll?_encodeAll rest h.2.2 ds entries others, Entry.ofRule]
termination_by structural rules => rules

theorem Pattern.decode?_encode :
    ∀ (p : Pattern Value), AllReadable (Pattern.names p) →
      Pattern.decode? (Pattern.encode p) = some (some p)
  | .exact v, h => by
    rw [Pattern.names] at h
    rw [Pattern.encode, Document.tagged, Pattern.decode?, Value.decode?_encode v h,
      Option.map_some]
  | .range min max, h => by
    simp only [Pattern.names, Name.allReadable_append] at h
    simp [Pattern.encode, Document.tagged, Pattern.decode?, Value.member?,
      Value.decode?_encode min h.1, Value.decode?_encode max h.2]
termination_by structural p => p

theorem Target.decode?_encode :
    ∀ (t : Target Value), AllReadable (Target.names t) →
      Target.decode? (Target.encode t) = some t
  | .fixed v, h => by
    rw [Target.names] at h
    rw [Target.encode, Document.tagged, Target.decode?, Value.decode?_encode v h, Option.map_some]
  | .itself, _ => by simp [Target.encode, Target.decode?]
termination_by structural t => t

end

/-- An entry with readable names is read back. -/
theorem Entry.decode?_encode (e : Entry Value) (h : AllReadable e.names) :
    Entry.decode? e.encode = some e := by
  obtain ⟨pattern, target⟩ := e
  rw [Entry.names, Name.allReadable_append] at h
  have answer := Target.decode?_encode target h.2
  cases pattern with
  | none =>
    simp [Entry.encode, Entry.decode?, Pattern.member?, Pattern.decode?, Target.member?, answer]
  | some p =>
    have source := Pattern.decode?_encode p h.1
    simp [Entry.encode, Entry.decode?, Pattern.member?, Target.member?, source, answer]

end TypedTree
