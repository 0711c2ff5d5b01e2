import TypedTree.Proofs.Fractions
import TypedTree.Proofs.Listings
import TypedTree.Value.Mapping

/-!
# Which entry decides

A mapping answers an input by the first of its entries that is for the input, and its last entry is
for all. So an edit shows only in the answers to inputs that no earlier entry is for: an insertion
changes those that the new rule is for, and a rule that is taken out or replaced leaves the others
to the entries behind it.

Ranges are for numbers, and whole numbers and fractions are compared as numbers.

## Main definitions

* `Pattern.IsFor`, `Entry.IsFor`: the inputs that a pattern or an entry is for.
* `Entry.decided?`: the answer of the first entry that is for an input.

## Main statements

* `Entry.matches?_iff`: an entry matches the inputs that it is for.
* `Mapping.decided?_entries`: a mapping gives the answer of that entry.
* `Mapping.edits_precede`: what edits change.
-/

namespace TypedTree

/-- Whether a pattern is for an input. Bounds and input of a range are compared as numbers. -/
def Pattern.IsFor (x : Value) : Pattern Value → Prop
  | .exact v => v = x
  | .range min max => ∃ low number high, min.number? = some low ∧ x.number? = some number ∧
      max.number? = some high ∧ low.toRat ≤ number.toRat ∧ number.toRat ≤ high.toRat

/-- Whether an entry is for an input. A fallback is for all. -/
def Entry.IsFor (x : Value) (e : Entry Value) : Prop :=
  ∀ p, e.pattern = some p → p.IsFor x

variable {x y : Value}

/-! ## Patterns -/

theorem Rational.isLE_cmp {a b : Rational} : (a.cmp b).isLE = true ↔ a.toRat ≤ b.toRat := by
  rw [← cmp_ne_gt]
  cases a.cmp b <;> simp

theorem Value.numericLE_iff {a b : Value} :
    a.numericLE b = true ↔
      ∃ q r, a.number? = some q ∧ b.number? = some r ∧ q.toRat ≤ r.toRat := by
  rw [numericLE, numericCmp]
  cases a.number? <;> cases b.number? <;> simp [Rational.isLE_cmp]

theorem Pattern.hits_iff {p : Pattern Value} : p.hits x = true ↔ p.IsFor x := by
  cases p with
  | exact v => simp [hits, IsFor]
  | range min max =>
    rw [hits, IsFor, Bool.and_eq_true, Value.numericLE_iff, Value.numericLE_iff]
    constructor
    · rintro ⟨⟨low, number, hl, hn, above⟩, number', high, hn', hh, below⟩
      obtain rfl : number = number' := Option.some.inj (hn.symm.trans hn')
      exact ⟨low, number, high, hl, hn, hh, above, below⟩
    · rintro ⟨low, number, high, hl, hn, hh, above, below⟩
      exact ⟨⟨low, number, hl, hn, above⟩, number, high, hn, hh, below⟩

namespace Entry

variable {e : Entry Value} {es front back : List (Entry Value)} {r : Rule Value}
  {t : Target Value}

/-- An entry matches the inputs that it is for. -/
theorem matches?_iff : e.matches? (Pattern.hits x) = true ↔ e.IsFor x := by
  obtain ⟨_ | p, t⟩ := e
  · simp [matches?, IsFor]
  · simp [matches?, IsFor, Pattern.hits_iff]

instance : Decidable (e.IsFor x) :=
  decidable_of_iff _ matches?_iff

theorem isFor_ofFallback : (ofFallback t).IsFor x := by
  simp [IsFor, ofFallback]

/-- The answer of the first entry that is for an input. -/
def decided? (x : Value) : List (Entry Value) → Option Value
  | [] => none
  | e :: es => if e.IsFor x then some (e.target.produce x) else decided? x es

theorem decided?_eq_find? :
    decided? x es = (es.find? (matches? (Pattern.hits x))).map (·.target.produce x) := by
  induction es with
  | nil => rfl
  | cons e es ih =>
    by_cases own : e.IsFor x
    · simp [decided?, own, matches?_iff.2 own]
    · have other : e.matches? (Pattern.hits x) = false := by
        rwa [← matches?_iff, Bool.not_eq_true] at own
      simp [decided?, own, other, ih]

theorem decided?_append :
    decided? x (front ++ back) = (decided? x front).or (decided? x back) := by
  induction front with
  | nil => rfl
  | cons e front ih => by_cases own : e.IsFor x <;> simp [decided?, own, ih]

theorem decided?_eq_none : decided? x es = none ↔ ∀ e ∈ es, ¬ e.IsFor x := by
  induction es with
  | nil => simp [decided?]
  | cons e es ih => by_cases own : e.IsFor x <;> simp [decided?, own, ih]

end Entry

namespace Mapping

variable {m : Mapping Value} {pos : Nat} {r : Rule Value} {t : Target Value}

open Entry (decided? decided?_append decided?_eq_none decided?_eq_find? ofRule)

/-- A mapping gives the answer of its first entry that is for an input. -/
theorem decided?_entries (m : Mapping Value) : decided? x m.entries = some (m.answer x) := by
  have rules : decided? x (m.rules.map ofRule) =
      (m.rules.find? fun r => r.pattern.hits x).map (·.target.produce x) := by
    rw [decided?_eq_find?, List.find?_map, Option.map_map]
    rfl
  have fallback : decided? x [Entry.ofFallback m.fallback] = some (m.fallback.produce x) :=
    if_pos Entry.isFor_ofFallback
  rw [entries, decided?_append, rules, fallback, answer, apply]
  cases m.rules.find? fun r => r.pattern.hits x <;> rfl

/-! ## Entries behind an edit -/

theorem insertIdx_eq {es : List (Entry Value)} (e : Entry Value) (inside : pos ≤ es.length) :
    es.insertIdx pos e = es.take pos ++ e :: es.drop pos := by
  have length : (es.take pos).length = pos := List.length_take_of_le inside
  calc
    es.insertIdx pos e = (es.take pos ++ es.drop pos).insertIdx pos e := by
      rw [List.take_append_drop]
    _ = (es.take pos).insertIdx (es.take pos).length e ++ es.drop pos := by
      rw [Listing.insertIdx_append _ _ _ length.ge, length]
    _ = es.take pos ++ e :: es.drop pos := by
      rw [List.insertIdx_length_self, List.append_assoc, List.singleton_append]

theorem exists_insert (r : Rule Value) (inside : pos ≤ m.rules.length) :
    ∃ next, m.insert pos (ofRule r) = .ok next ∧ next.remove pos = .ok (ofRule r, m) ∧
      next.entries = m.entries.take pos ++ ofRule r :: m.entries.drop pos := by
  refine ⟨⟨m.rules.insertIdx pos r, m.fallback⟩, by simp [insert, inside], ?_, ?_⟩
  · simp [remove, List.getElem?_insertIdx_self, inside, List.eraseIdx_insertIdx_self]
  · have held : pos ≤ m.entries.length := by
      rw [Listing.length_entries]
      omega
    rw [← insertIdx_eq _ held, entries, entries,
      Listing.insertIdx_append _ _ _ (by simpa using inside), List.map_insertIdx]

theorem exists_remove (inside : pos < m.rules.length) :
    ∃ old next, m.remove pos = .ok (old, next) ∧ m.entries[pos]? = some old ∧
      next.entries = m.entries.take pos ++ m.entries.drop (pos + 1) := by
  refine ⟨ofRule m.rules[pos], ⟨m.rules.eraseIdx pos, m.fallback⟩, by simp [remove, inside],
    Listing.getElem?_entries_of_lt inside, ?_⟩
  rw [← List.eraseIdx_eq_take_drop_succ, entries, entries,
    List.eraseIdx_append_of_lt_length (by simpa using inside), List.eraseIdx_map]

theorem exists_replace (r : Rule Value) (inside : pos < m.rules.length) :
    ∃ old next, m.replace pos (ofRule r) = .ok (old, next) ∧ m.entries[pos]? = some old ∧
      next.entries = m.entries.take pos ++ ofRule r :: m.entries.drop (pos + 1) := by
  refine ⟨ofRule m.rules[pos], ⟨m.rules.set pos r, m.fallback⟩, by simp [replace, inside],
    Listing.getElem?_entries_of_lt inside, ?_⟩
  have held : pos < m.entries.length := by
    rw [Listing.length_entries]
    omega
  have written : m.entries.set pos (ofRule r) =
      m.entries.take pos ++ ofRule r :: m.entries.drop (pos + 1) := by
    rw [List.set_eq_take_append_cons_drop, if_pos held]
  rw [← written, entries, entries, List.set_append_left _ _ (by simpa using inside), List.map_set]

/-! ## Answers behind an edit -/

variable {front back back' : List (Entry Value)} {next : Mapping Value}

/-- Mappings that begin with the same entries answer alike the inputs that one of these is for. -/
theorem answer_eq_of_exists (shape : m.entries = front ++ back)
    (shape' : next.entries = front ++ back') (early : ∃ e ∈ front, e.IsFor x) :
    next.answer x = m.answer x := by
  have same := decided?_entries (x := x) next
  have same' := decided?_entries (x := x) m
  rw [shape', decided?_append] at same
  rw [shape, decided?_append] at same'
  cases first : decided? x front with
  | none => exact absurd early (by simpa using decided?_eq_none.1 first)
  | some y => simp_all

/-- The other inputs are decided by the entries behind. -/
theorem decided?_of_forall (shape : next.entries = front ++ back)
    (late : ∀ e ∈ front, ¬ e.IsFor x) : decided? x back = some (next.answer x) := by
  rw [← decided?_entries, shape, decided?_append, decided?_eq_none.2 late, Option.none_or]

/-- An edit changes no answer to an input that an earlier entry is for. Of the other inputs, those
that an inserted rule is for get its answer and the rest keep theirs. Behind a rule that is taken
out or replaced they are decided by the entries that are left, in order, a new rule coming first.
Another fallback answers just the inputs that no rule is for. And an inserted rule can be taken out
again, which leaves the mapping as it was. -/
theorem edits_precede (m : Mapping Value) (x : Value) :
    (∀ r, ∀ pos ≤ m.rules.length, ∃ next, m.insert pos (ofRule r) = .ok next ∧
      next.remove pos = .ok (ofRule r, m) ∧
      next.answer x =
        if ∃ e ∈ m.entries.take pos, e.IsFor x then m.answer x
        else if (ofRule r).IsFor x then r.target.produce x
        else m.answer x) ∧
      (∀ pos < m.rules.length, ∃ old next, m.remove pos = .ok (old, next) ∧
        m.entries[pos]? = some old ∧
        ((∃ e ∈ m.entries.take pos, e.IsFor x) → next.answer x = m.answer x) ∧
        ((∀ e ∈ m.entries.take pos, ¬ e.IsFor x) →
          decided? x (m.entries.drop (pos + 1)) = some (next.answer x))) ∧
      (∀ r, ∀ pos < m.rules.length, ∃ old next, m.replace pos (ofRule r) = .ok (old, next) ∧
        m.entries[pos]? = some old ∧
        ((∃ e ∈ m.entries.take pos, e.IsFor x) → next.answer x = m.answer x) ∧
        ((∀ e ∈ m.entries.take pos, ¬ e.IsFor x) →
          decided? x (ofRule r :: m.entries.drop (pos + 1)) = some (next.answer x))) ∧
      ∀ t, ((∃ r ∈ m.rules, (ofRule r).IsFor x) → (m.setFallback t).answer x = m.answer x) ∧
        ((∀ r ∈ m.rules, ¬ (ofRule r).IsFor x) → (m.setFallback t).answer x = t.produce x) := by
  have cut (pos : Nat) : m.entries = m.entries.take pos ++ m.entries.drop pos :=
    (List.take_append_drop ..).symm
  refine ⟨fun r pos inside => ?_, fun pos inside => ?_, fun r pos inside => ?_, fun t => ?_⟩
  · obtain ⟨next, done, undone, shape⟩ := exists_insert r inside
    refine ⟨next, done, undone, ?_⟩
    by_cases early : ∃ e ∈ m.entries.take pos, e.IsFor x
    · rw [if_pos early]
      exact answer_eq_of_exists (cut pos) shape early
    · rw [if_neg early]
      have late : ∀ e ∈ m.entries.take pos, ¬ e.IsFor x := by simpa using early
      have before := decided?_of_forall (cut pos) late
      have behind := decided?_of_forall shape late
      rw [decided?, before, ← apply_ite some] at behind
      exact (Option.some.inj behind).symm
  · obtain ⟨old, next, done, taken, shape⟩ := exists_remove inside
    exact ⟨old, next, done, taken, answer_eq_of_exists (cut pos) shape, decided?_of_forall shape⟩
  · obtain ⟨old, next, done, taken, shape⟩ := exists_replace r inside
    exact ⟨old, next, done, taken, answer_eq_of_exists (cut pos) shape, decided?_of_forall shape⟩
  · refine ⟨fun early => answer_eq_of_exists rfl rfl (by simpa using early), fun late => ?_⟩
    have lines : ∀ e ∈ m.rules.map ofRule, ¬ e.IsFor x := by simpa using late
    have behind : decided? x [Entry.ofFallback t] = some ((m.setFallback t).answer x) :=
      decided?_of_forall rfl lines
    rw [decided?, if_pos Entry.isFor_ofFallback] at behind
    exact (Option.some.inj behind).symm

/-- Between a rule for one and a rule for the digits there is put one for the numbers from one half
to five halves. With the last one taken out, seven is left to the fallback. -/
theorem edits_precede_overlap :
    ∃ half more : Rational, Rational.make 1 2 = .ok half ∧ Rational.make 5 2 = .ok more ∧
      let one : Rule Value := ⟨.exact (.int 1), .fixed (.text "one")⟩
      let near : Rule Value := ⟨.range (.rational half) (.rational more), .fixed (.text "near")⟩
      let digit : Rule Value := ⟨.range (.int 0) (.int 9), .fixed (.text "digit")⟩
      (∃ next, insert ⟨[one, digit], .itself⟩ 1 (ofRule near) = .ok next ∧
        next.answer (.int 2) = .text "near" ∧
        next.remove 1 = .ok (ofRule near, ⟨[one, digit], .itself⟩)) ∧
      ∃ old next, remove ⟨[one, digit], .itself⟩ 1 = .ok (old, next) ∧
        next.answer (.int 7) = .int 7 := by
  refine ⟨⟨1, 2, by decide, by decide, by decide, by decide, by decide⟩,
    ⟨5, 2, by decide, by decide, by decide, by decide, by decide⟩, by decide, by decide, ?_⟩
  intro one near digit
  obtain ⟨insertion, -⟩ := edits_precede ⟨[one, digit], .itself⟩ (.int 2)
  obtain ⟨next, done, undone, answer⟩ := insertion near 1 (by decide)
  obtain ⟨-, removal, -⟩ := edits_precede ⟨[one, digit], .itself⟩ (.int 7)
  obtain ⟨old, next', done', -, -, late⟩ := removal 1 (by decide)
  refine ⟨⟨next, done, ?_, undone⟩, old, next', done', ?_⟩
  · rw [answer, if_neg (by decide), if_pos (by decide)]
    rfl
  · exact (Option.some.inj (late (by decide))).symm

end Mapping

end TypedTree
