import TypedTree.Mapping.Listing
import TypedTree.Proofs.Encoding
import Mathlib.Data.List.InsertIdx

/-!
# Rule tables keep their fallback last

A rule table kept as a list of entries is edited by positions. However it was made and however long
it is edited, exactly one of its entries is a fallback, and it is the last one. So every position
that is asked for is one that the list has, and what the list does is what a mapping does, whose
fallback cannot be misplaced.

## Main definitions

* `Entry.Closed`: exactly one entry of a list is a fallback, and it is the last one.
* `Listing.Made`: the tables that are newly made, checked or read.

## Main statements

* `Listing.perform_ofMapping`: one edit of a listing is the edit of the mapping.
* `Listing.run_spec`: what holds of a table behind any number of edits.
-/

namespace TypedTree

variable {α : Type}

/-- Exactly one entry of a list is a fallback, and it is the last one. -/
def Entry.Closed (es : List (Entry α)) : Prop :=
  es.countP Entry.isFallback = 1 ∧ ∃ last, es.getLast? = some last ∧ last.isFallback

instance (es : List (Entry α)) : Decidable (Entry.Closed es) :=
  decidable_of_iff (es.countP Entry.isFallback = 1 ∧ es.getLast?.any Entry.isFallback) <| by
    simp [Entry.Closed, Option.any_eq_true]

namespace Entry

variable {r : Rule α} {t : Target α} {e : Entry α} {es : List (Entry α)}

@[simp] theorem isFallback_ofRule : (ofRule r).isFallback = false := rfl

@[simp] theorem isFallback_ofFallback : (ofFallback t).isFallback = true := rfl

@[simp] theorem rule?_ofRule : (ofRule r).rule? = some r := rfl

@[simp] theorem rule?_ofFallback : (ofFallback t).rule? = none := rfl

/-- An entry is the line of a fallback or the line of a rule. -/
theorem eq_ofFallback_or_ofRule (e : Entry α) : (∃ t, e = ofFallback t) ∨ ∃ r, e = ofRule r := by
  obtain ⟨_ | p, t⟩ := e
  · exact .inl ⟨t, rfl⟩
  · exact .inr ⟨⟨p, t⟩, rfl⟩

/-- Entries without a fallback are the lines of rules. -/
theorem exists_rules (none : ∀ e ∈ es, e.isFallback = false) :
    ∃ rules : List (Rule α), es = rules.map ofRule := by
  induction es with
  | nil => exact ⟨[], rfl⟩
  | cons e es ih =>
    obtain ⟨rules, rfl⟩ := ih fun x mem => none x (List.mem_cons_of_mem _ mem)
    obtain ⟨t, rfl⟩ | ⟨r, rfl⟩ := e.eq_ofFallback_or_ofRule
    · simp at none
    · exact ⟨r :: rules, rfl⟩

/-- The lists that are closed by a fallback are the listings of mappings. -/
theorem closed_iff : Closed es ↔ ∃ m : Mapping α, es = m.entries := by
  constructor
  · rintro ⟨one, last, ends, isLast⟩
    obtain ⟨front, rfl⟩ := List.getLast?_eq_some_iff.1 ends
    obtain ⟨t, rfl⟩ | ⟨r, rfl⟩ := last.eq_ofFallback_or_ofRule
    · have noneBefore : front.countP isFallback = 0 := by simpa using one
      obtain ⟨rules, rfl⟩ := exists_rules fun e mem => by
        simpa using List.countP_eq_zero.1 noneBefore e mem
      exact ⟨⟨rules, t⟩, rfl⟩
    · simp at isLast
  · rintro ⟨m, rfl⟩
    refine ⟨?_, .ofFallback m.fallback, by simp [Mapping.entries], rfl⟩
    have noneBefore : (m.rules.map ofRule).countP isFallback = 0 :=
      List.countP_eq_zero.2 fun e mem => by
        obtain ⟨r, -, rfl⟩ := List.mem_map.1 mem
        simp
    simp [Mapping.entries, noneBefore]

example : ¬ Closed [ofFallback (.itself : Target Value), ofFallback .itself] := by decide

end Entry

namespace Listing

variable {m : Mapping α} {l : Listing α} {es : List (Entry α)} {pos : Nat} {e : Entry α}

/-! ## Ways to a table -/

@[simp] theorem entries_ofMapping : (ofMapping m).entries = m.entries := rfl

theorem ofFallback_eq (t : Target α) : ofFallback t = ofMapping (Mapping.ofFallback t) := rfl

/-- A list is taken for a table as it is taken for a mapping. -/
theorem ofEntries_eq (es : List (Entry α)) :
    ofEntries es = (Mapping.ofEntries es).map ofMapping := by
  induction es using List.reverseRecOn with
  | nil => rfl
  | append_singleton front last _ =>
    rw [ofEntries, Mapping.ofEntries, List.getLast?_concat, List.dropLast_concat]
    cases read : front.mapM Entry.rule? with
    | none =>
      have misplaced : front.any Entry.isFallback = true := by
        by_contra none
        obtain ⟨rules, rfl⟩ := Entry.exists_rules (by simpa using none)
        rw [Mapping.mapM_rule?_eq_some.2 rfl] at read
        cases read
      simp only [misplaced]
      rfl
    | some rules =>
      obtain rfl := Mapping.mapM_rule?_eq_some.1 read
      obtain ⟨t, rfl⟩ | ⟨r, rfl⟩ := last.eq_ofFallback_or_ofRule
      · simp [Except.map, ofMapping, Mapping.entries]
        rfl
      · simp [Except.map]

/-- A list is accepted exactly if its only fallback is its last entry, and is kept as it is. -/
theorem ofEntries_eq_ok : ofEntries es = .ok l ↔ Entry.Closed es ∧ l.entries = es := by
  rw [ofEntries_eq, Outcome.map_eq_ok, Entry.closed_iff]
  simp only [Mapping.ofEntries_eq_ok]
  constructor
  · rintro ⟨m, rfl, rfl⟩
    exact ⟨⟨m, rfl⟩, rfl⟩
  · rintro ⟨⟨m, rfl⟩, same⟩
    exact ⟨m, rfl, congrArg Listing.mk same.symm⟩

/-- A table is read from a document exactly if a mapping is, with the same entries. -/
theorem decode?_eq_some {l : Listing Value} {d : Document} :
    decode? d = some l ↔
      ∃ m, Value.decode? (.object [("map", d)]) = some (.map m) ∧ l = ofMapping m := by
  cases d with
  | list items =>
    simp only [decode?, Value.decode?, ofEntries_eq]
    cases Entry.decodeAll? items with
    | none => simp
    | some es => simp [Option.bind_eq_some_iff, @eq_comm _ l]
  | _ => simp [decode?, Value.decode?]

/-- The tables that exist before they are edited: new ones, checked lists, and read ones. -/
inductive Made : Listing Value → Prop where
  | ofFallback (t : Target Value) : Made (ofFallback t)
  | ofEntries {es : List (Entry Value)} {l : Listing Value} (accepted : ofEntries es = .ok l) :
    Made l
  | decoded {d : Document} {l : Listing Value} (read : decode? d = some l) : Made l

/-- Every table is made as the listing of a mapping. -/
theorem Made.exists_mapping {l : Listing Value} (made : l.Made) : ∃ m, l = ofMapping m := by
  cases made with
  | ofFallback t => exact ⟨_, ofFallback_eq t⟩
  | ofEntries accepted =>
    obtain ⟨closed, rfl⟩ := ofEntries_eq_ok.1 accepted
    obtain ⟨m, same⟩ := Entry.closed_iff.1 closed
    exact ⟨m, congrArg Listing.mk same⟩
  | decoded read =>
    obtain ⟨m, -, same⟩ := decode?_eq_some.1 read
    exact ⟨m, same⟩

/-! ## Positions of a mapping -/

@[simp] theorem length_entries : m.entries.length = m.rules.length + 1 := by
  simp [Mapping.entries]

@[simp] theorem last?_ofMapping : (ofMapping m).last? = some m.rules.length := by
  simp [last?]

/-- In front of the last position there are rules. -/
theorem getElem?_entries_of_lt (inside : pos < m.rules.length) :
    m.entries[pos]? = some (.ofRule m.rules[pos]) := by
  simp [Mapping.entries, List.getElem?_append_left, inside]

/-- At the last position there is the fallback. -/
theorem getElem?_entries_last (m : Mapping α) :
    m.entries[m.rules.length]? = some (.ofFallback m.fallback) := by
  simp [Mapping.entries]

/-! ## Reading -/

theorem rules?_ofMapping : (ofMapping m).rules? = some (m.rules.map .ofRule) := by
  simp [rules?, Mapping.entries]

theorem fallback?_ofMapping : (ofMapping m).fallback? = some (.ofFallback m.fallback) := by
  simp only [fallback?, last?_ofMapping, Option.bind_eq_bind, Option.bind_some,
    entries_ofMapping, getElem?_entries_last]

/-- The first entry that is for an input is the first such rule, or else the fallback. -/
theorem answer?_ofMapping (m : Mapping Value) (input : Value) :
    (ofMapping m).answer? input = some (m.answer input) := by
  have first : m.entries.find? (Entry.matches? (Pattern.hits input)) =
      ((m.rules.find? fun r => r.pattern.hits input).map .ofRule).or
        (some (.ofFallback m.fallback)) := by
    rw [Mapping.entries, List.find?_append, List.find?_map]
    rfl
  rw [answer?, entries_ofMapping, first, Mapping.answer, Mapping.apply]
  cases m.rules.find? fun r => r.pattern.hits input <;> rfl

/-! ## Editing -/

/-- An insertion into the front of a list. -/
theorem insertIdx_append (front back : List α) (x : α) (inside : pos ≤ front.length) :
    (front ++ back).insertIdx pos x = front.insertIdx pos x ++ back := by
  induction front generalizing pos with
  | nil =>
    obtain rfl : pos = 0 := by simpa using inside
    rfl
  | cons a front ih =>
    cases pos with
    | zero => rfl
    | succ pos => simp [ih (by simpa using inside)]

theorem insert_ofMapping (m : Mapping α) (pos : Nat) (e : Entry α) :
    (ofMapping m).insert pos e =
      some ((m.perform (.insert pos e)).1, ofMapping (m.perform (.insert pos e)).2) := by
  obtain ⟨t, rfl⟩ | ⟨r, rfl⟩ := e.eq_ofFallback_or_ofRule
  · simp [insert, Mapping.perform, Mapping.insert]
  · by_cases inside : pos ≤ m.rules.length
    · have room : (ofMapping m).insertAt? pos (.ofRule r) =
          some (ofMapping { m with rules := m.rules.insertIdx pos r }) := by
        rw [insertAt?, entries_ofMapping, length_entries, if_pos (by omega), Mapping.entries,
          insertIdx_append _ _ _ (by simpa using inside), ← List.map_insertIdx]
        rfl
      simp [insert, Mapping.perform, Mapping.insert, inside, room]
    · simp [insert, Mapping.perform, Mapping.insert, inside, Nat.lt_of_not_ge inside]

theorem remove_ofMapping (m : Mapping α) (pos : Nat) :
    (ofMapping m).remove pos =
      some ((m.perform (.remove pos)).1, ofMapping (m.perform (.remove pos)).2) := by
  by_cases inside : pos < m.rules.length
  · have gap : (ofMapping m).removeAt? pos =
        some (.ofRule m.rules[pos], ofMapping { m with rules := m.rules.eraseIdx pos }) := by
      rw [removeAt?, entries_ofMapping, getElem?_entries_of_lt inside, Option.map_some,
        Mapping.entries, List.eraseIdx_append_of_lt_length (by simpa using inside),
        List.eraseIdx_map]
      rfl
    simp [remove, Mapping.perform, Mapping.remove, inside, inside.ne, inside.not_gt, gap]
  · obtain rfl | behind := Nat.eq_or_lt_of_not_lt inside
    · simp [remove, Mapping.perform, Mapping.remove]
    · simp [remove, Mapping.perform, Mapping.remove, inside, behind, behind.ne']

theorem replace_ofMapping (m : Mapping α) (pos : Nat) (e : Entry α) :
    (ofMapping m).replace pos e =
      some ((m.perform (.replace pos e)).1, ofMapping (m.perform (.replace pos e)).2) := by
  obtain ⟨t, rfl⟩ | ⟨r, rfl⟩ := e.eq_ofFallback_or_ofRule
  · simp [replace, Mapping.perform, Mapping.replace]
  · by_cases inside : pos < m.rules.length
    · have written : (ofMapping m).writeAt? pos (.ofRule r) =
          some (.ofRule m.rules[pos], ofMapping { m with rules := m.rules.set pos r }) := by
        rw [writeAt?, entries_ofMapping, getElem?_entries_of_lt inside, Option.map_some,
          Mapping.entries, List.set_append_left _ _ (by simpa using inside), ← List.map_set]
        rfl
      simp [replace, Mapping.perform, Mapping.replace, inside, inside.not_ge, written]
    · simp [replace, Mapping.perform, Mapping.replace, Nat.le_of_not_lt inside]

theorem setFallback_ofMapping (m : Mapping α) (t : Target α) :
    (ofMapping m).setFallback t = some (.ok none, ofMapping (m.setFallback t)) := by
  have written : (ofMapping m).writeAt? m.rules.length (.ofFallback t) =
      some (.ofFallback m.fallback, ofMapping (m.setFallback t)) := by
    rw [writeAt?, entries_ofMapping, getElem?_entries_last, Option.map_some, Mapping.entries,
      List.set_append]
    simp [ofMapping, Mapping.setFallback, Mapping.entries]
  simp [setFallback, written]

/-- One edit of a listing is the edit of the mapping. -/
theorem perform_ofMapping (m : Mapping α) (e : Mapping.Edit α) :
    (ofMapping m).perform e = some ((m.perform e).1, ofMapping (m.perform e).2) := by
  cases e with
  | insert pos e => exact insert_ofMapping m pos e
  | remove pos => exact remove_ofMapping m pos
  | replace pos e => exact replace_ofMapping m pos e
  | setFallback t => exact setFallback_ofMapping m t

/-- Edits of a listing, one after the other, are the edits of the mapping. -/
theorem run_ofMapping (m : Mapping α) (edits : List (Mapping.Edit α)) :
    (ofMapping m).run edits = some ((m.run edits).1, ofMapping (m.run edits).2) := by
  induction edits generalizing m with
  | nil => rfl
  | cons e edits ih => simp [run, Mapping.run, perform_ofMapping, ih]

end Listing

/-- A mapping that refuses an edit is left as it is. -/
theorem Mapping.perform_of_error {m : Mapping α} {e : Edit α} {refusal : MapError}
    (refused : (m.perform e).1 = .error refusal) : (m.perform e).2 = m := by
  cases e with
  | insert pos e => cases done : m.insert pos e <;> simp [perform, done] at refused ⊢
  | remove pos => cases done : m.remove pos <;> simp [perform, done] at refused ⊢
  | replace pos e => cases done : m.replace pos e <;> simp [perform, done] at refused ⊢
  | setFallback t => cases refused

/-- A list is accepted as a table, and as a mapping, exactly if its only fallback is its last entry.
A table that was made in any way has that form behind any edits. Neither they nor a further edit
nor reading asks for a position that the table does not have, and an edit that is refused leaves the
table as it is. All along, replies and table are those of a mapping. -/
theorem Listing.fallback_stays_last :
    (∀ (es : List (Entry Value)) l,
      Listing.ofEntries es = .ok l ↔ Entry.Closed es ∧ l.entries = es) ∧
      (∀ es : List (Entry Value), (∃ m, Mapping.ofEntries es = .ok m) ↔ Entry.Closed es) ∧
      ∀ l : Listing Value, l.Made → ∃ m, l = Listing.ofMapping m ∧ ∀ edits, ∃ final,
        l.run edits = some ((m.run edits).1, final) ∧
        final = Listing.ofMapping (m.run edits).2 ∧
        Entry.Closed final.entries ∧
        (∃ rules fallback, final.entries = rules ++ [fallback] ∧ fallback.isFallback ∧
          final.rules? = some rules ∧ final.fallback? = some fallback) ∧
        (∀ input, final.answer? input = some ((m.run edits).2.answer input)) ∧
        ∀ e, ∃ reply next, final.perform e = some (reply, next) ∧
          ∀ refusal, reply = .error refusal → next = final := by
  refine ⟨fun es l => Listing.ofEntries_eq_ok, fun es => ?_, fun l made => ?_⟩
  · simp only [Mapping.ofEntries_eq_ok, Entry.closed_iff]
  obtain ⟨m, rfl⟩ := made.exists_mapping
  refine ⟨m, rfl, fun edits => ⟨_, Listing.run_ofMapping m edits, rfl,
    Entry.closed_iff.2 ⟨_, rfl⟩, ⟨_, _, rfl, rfl, Listing.rules?_ofMapping,
      Listing.fallback?_ofMapping⟩, Listing.answer?_ofMapping _, fun e => ?_⟩⟩
  exact ⟨_, _, Listing.perform_ofMapping _ e, fun refusal refused =>
    congrArg Listing.ofMapping (Mapping.perform_of_error refused)⟩

/-- A new table takes a rule in front of its fallback. It neither gives the fallback away nor takes
a rule behind it. -/
theorem Listing.fallback_stays_last_of_new :
    ∃ final, (Listing.ofFallback .itself : Listing Value).run
        [.insert 0 ⟨some (.exact .void), .itself⟩, .remove 1,
          .insert 2 ⟨some (.exact .void), .itself⟩] =
      some ([.ok none, .error .cannotRemoveFallback, .error (.positionOutOfRange 2 1)], final) ∧
      Entry.Closed final.entries := by
  obtain ⟨m, -, behind⟩ := Listing.fallback_stays_last.2.2 _ (.ofFallback .itself)
  obtain ⟨final, ran, -, closed, -⟩ := behind [.insert 0 ⟨some (.exact .void), .itself⟩, .remove 1,
    .insert 2 ⟨some (.exact .void), .itself⟩]
  refine ⟨⟨[⟨some (.exact .void), .itself⟩, .ofFallback .itself]⟩, rfl, ?_⟩
  obtain rfl : _ = final := congrArg Prod.snd (Option.some.inj ran)
  exact closed

end TypedTree
