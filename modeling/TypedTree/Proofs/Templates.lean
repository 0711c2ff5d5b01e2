import TypedTree.Constructor.Template
import TypedTree.Proofs.Lexemes

/-!
# Written templates

A template is written piece by piece, with every brace of literal text doubled. The reader takes
the written form apart where it was put together, however many braces meet there: a doubled brace
is used up as a pair before a hole can begin, and the text of a hole neither begins with a brace
that opens nor holds one that closes.

## Main definitions

* `Template.Piece.written`, `Template.written`: the written form.
* `Template.Piece.Writable`: the pieces that have one.
* `Template.joined`: neighbouring literals as one.

## Main statements

* `Template.piecesFrom_written`: the reader on a written list of pieces, with literal text that was
  read before it.
* `Template.ofString_written`: templates are read as they were written, and show what was meant.
-/

namespace TypedTree.Template

/-! ## The written form -/

/-- Literal text with every brace doubled. -/
def doubled (text : String) : String :=
  .ofList (text.toList.flatMap fun c => if c = '\x7b' ∨ c = '\x7d' then [c, c] else [c])

/-- A number in decimal digits, behind some zeros. -/
def numeral (zeros n : Nat) : String :=
  .ofList (List.replicate zeros '0') ++ toString n

/-- The written form of a piece, with zeros for its number. -/
def Piece.written (zeros : Nat) : Piece → String
  | .literal text => doubled text
  | .type i => braced ("t" ++ numeral zeros i)
  | .value i => braced ("v" ++ numeral zeros i)
  | .types sep => braced ("t*:" ++ sep)
  | .values sep => braced ("v*:" ++ sep)
  | .items i sep => braced ("v" ++ numeral zeros i ++ "*:" ++ sep)
  | .zipped i sep => braced ("v" ++ numeral zeros i ++ "~t:" ++ sep)

/-- The written form of pieces, each with zeros for its number. -/
def written (pieces : List (Piece × Nat)) : String :=
  .join (pieces.map fun p => p.1.written p.2)

/-- A piece can be written if its number fits a word and no brace in its separator ends the hole. -/
def Piece.Writable : Piece → Prop
  | .literal _ => True
  | .type i | .value i => i < numberLimit
  | .types sep | .values sep => '\x7d' ∉ sep.toList
  | .items i sep | .zipped i sep => i < numberLimit ∧ '\x7d' ∉ sep.toList

instance : DecidablePred Piece.Writable
  | .literal _ => isTrue trivial
  | .type i | .value i => inferInstanceAs (Decidable (i < numberLimit))
  | .types sep | .values sep => inferInstanceAs (Decidable ('\x7d' ∉ sep.toList))
  | .items i sep | .zipped i sep =>
    inferInstanceAs (Decidable (i < numberLimit ∧ '\x7d' ∉ sep.toList))

/-- Put text in front of pieces: it becomes one with literal text that stands there, and is left
out if it is empty. -/
def prepend (text : String) : List Piece → List Piece
  | .literal next :: ps => .literal (text ++ next) :: ps
  | ps => if text = "" then ps else .literal text :: ps

/-- The same pieces with neighbouring literals as one and empty literals left out. -/
def joined : List Piece → List Piece
  | [] => []
  | .literal text :: ps => prepend text (joined ps)
  | p :: ps => p :: joined ps

/-! ## Literal text -/

section Joined

variable {s t : String} {p : Piece} {ps : List Piece}

/-- Whether a piece asks for an argument. -/
def Piece.IsHole (p : Piece) : Prop :=
  ∀ text, p ≠ .literal text

theorem Piece.literal_or_isHole (p : Piece) : (∃ text, p = .literal text) ∨ p.IsHole := by
  cases p with
  | literal text => exact .inl ⟨text, rfl⟩
  | _ => exact .inr fun _ => nofun

theorem joined_hole (h : p.IsHole) : joined (p :: ps) = p :: joined ps := by
  cases p with
  | literal text => exact absurd rfl (h text)
  | _ => rfl

theorem prepend_hole (h : p.IsHole) :
    prepend s (p :: ps) = if s = "" then p :: ps else .literal s :: p :: ps := by
  cases p with
  | literal text => exact absurd rfl (h text)
  | _ => rfl

theorem prepend_empty (ps : List Piece) : prepend "" ps = ps := by
  unfold prepend
  split <;> simp

theorem prepend_append (s t : String) (ps : List Piece) :
    prepend (s ++ t) ps = prepend s (prepend t ps) := by
  cases ps with
  | nil => by_cases h : t = "" <;> simp [prepend, h]
  | cons p ps =>
    rcases p.literal_or_isHole with ⟨next, rfl⟩ | hole
    · simp [prepend, String.append_assoc]
    · by_cases h : t = ""
      · simp [h, prepend_empty]
      · rw [prepend_hole hole, prepend_hole hole, if_neg h, if_neg (by simp [h])]
        rfl

theorem join_prepend (types : List Ty) (values : List Value) :
    String.join ((prepend s ps).map (·.render types values)) =
      s ++ String.join (ps.map (·.render types values)) := by
  unfold prepend
  split
  · simp [Piece.render, String.append_assoc]
  · split <;> simp [Piece.render, *]

/-- Literals show the same when they are one. -/
theorem join_joined (ps : List Piece) (types : List Ty) (values : List Value) :
    String.join ((joined ps).map (·.render types values)) =
      String.join (ps.map (·.render types values)) := by
  induction ps with
  | nil => rfl
  | cons p ps ih =>
    rcases p.literal_or_isHole with ⟨text, rfl⟩ | hole
    · rw [joined, join_prepend, ih, List.map_cons, String.join_cons, Piece.render]
    · rw [joined_hole hole, List.map_cons, String.join_cons, ih, List.map_cons, String.join_cons]

/-- The literal that was read so far is left out if it is empty. -/
theorem literal_eq (done : List Char) : literal done = prepend (.ofList done.reverse) [] := by
  cases done <;> simp [literal, prepend]

theorem literal_append (done : List Char) (h : p.IsHole) :
    literal done ++ p :: ps = prepend (.ofList done.reverse) (p :: ps) := by
  rw [prepend_hole h]
  cases done <;> simp [literal]

end Joined

/-! ## Reading -/

section Reader

variable {done rest body after : List Char} {p : Piece}

theorem piecesFrom_nil : piecesFrom done [] = literal done := by
  rw [piecesFrom]

theorem piecesFrom_open :
    piecesFrom done ('\x7b' :: '\x7b' :: rest) = piecesFrom ('\x7b' :: done) rest := by
  rw [piecesFrom]

theorem piecesFrom_close :
    piecesFrom done ('\x7d' :: '\x7d' :: rest) = piecesFrom ('\x7d' :: done) rest := by
  rw [piecesFrom]

theorem piecesFrom_plain {c : Char} (opens : c ≠ '\x7b') (closes : c ≠ '\x7d') :
    piecesFrom done (c :: rest) = piecesFrom (c :: done) rest := by
  rw [piecesFrom]
  · exact fun _ h => absurd h opens
  · exact fun _ h => absurd h closes
  · exact opens

/-- Doubled braces are used up in pairs, so reading goes on right behind literal text. -/
theorem piecesFrom_doubled (text : String) :
    piecesFrom done ((doubled text).toList ++ rest) =
      piecesFrom (text.toList.reverse ++ done) rest := by
  rw [doubled, String.toList_ofList]
  induction text.toList generalizing done with
  | nil => rfl
  | cons c cs ih =>
    rw [List.flatMap_cons, List.append_assoc, List.reverse_cons, List.append_assoc]
    split
    · rename_i brace
      rcases brace with rfl | rfl
      · exact piecesFrom_open.trans ih
      · exact piecesFrom_close.trans ih
    · rename_i plain
      obtain ⟨opens, closes⟩ := not_or.1 plain
      exact (piecesFrom_plain opens closes).trans ih

/-- Characters that are read as a hole between braces, where no brace comes too early. -/
structure Asks (body : List Char) (p : Piece) : Prop where
  opens : body.head? ≠ some '\x7b'
  closes : '\x7d' ∉ body
  read : hole? body = some p

/-- A hole ends the literal text before it, and reading goes on behind its brace. -/
theorem piecesFrom_hole (h : Asks body p) :
    piecesFrom done ('\x7b' :: (body ++ '\x7d' :: after)) =
      literal done ++ p :: piecesFrom [] after := by
  have inside : ∀ c ∈ body, (c != '\x7d') = true := by
    intro c hc
    simpa using ne_of_mem_of_not_mem hc h.closes
  have front : (body ++ '\x7d' :: after).takeWhile (· != '\x7d') = body := by
    rw [List.takeWhile_append_of_pos inside]
    simp
  have back : (body ++ '\x7d' :: after).dropWhile (· != '\x7d') = '\x7d' :: after := by
    rw [List.dropWhile_append_of_pos inside]
    simp
  rw [piecesFrom]
  · split
    · rename_i cut
      rw [cut] at back
      cases back
    · rename_i close behind cut
      obtain ⟨rfl, rfl⟩ := List.cons_eq_cons.1 (cut.symm.trans back)
      simp only [front, h.read]
  · intro rest cut
    cases body with
    | nil => exact absurd (List.cons_eq_cons.1 cut).1 (by decide)
    | cons c body => exact h.opens (congrArg some (List.cons_eq_cons.1 cut).1)

end Reader

/-! ## What stands in a hole -/

section Holes

variable {i : Nat} {p : Piece}

theorem toList_numeral (zeros n : Nat) :
    (numeral zeros n).toList = List.replicate zeros '0' ++ Nat.toDigits 10 n := by
  simp [numeral]

theorem isDigit_numeral (zeros n : Nat) : ∀ c ∈ (numeral zeros n).toList, c.isDigit = true := by
  rw [toList_numeral]
  exact Text.Decimal.isDigit_padded zeros

/-- A number does not end the hole it stands in. -/
theorem brace_notMem_numeral (zeros n : Nat) : '\x7d' ∉ (numeral zeros n).toList := fun mem =>
  absurd (isDigit_numeral zeros n _ mem) (by decide)

/-- A number begins with a digit and is read back. -/
theorem exists_numeral (zeros : Nat) (h : i < numberLimit) :
    ∃ c digits, (numeral zeros i).toList = c :: digits ∧ c.isDigit = true ∧
      Text.Decimal.read? numberLimit (c :: digits) = some i := by
  cases cut : (numeral zeros i).toList with
  | nil => simp [toList_numeral, Nat.toDigits_ne_nil] at cut
  | cons c digits =>
    refine ⟨c, digits, rfl, isDigit_numeral zeros i c (cut ▸ List.mem_cons_self), ?_⟩
    exact Text.Decimal.read?_eq_some.2 ⟨h, zeros, cut.symm.trans (toList_numeral zeros i)⟩

theorem ne_of_isDigit {c d : Char} (hc : c.isDigit = true) (hd : d.isDigit = false) : c ≠ d := by
  rintro rfl
  simp [hc] at hd

theorem hole?_type (zeros : Nat) (h : i < numberLimit) :
    hole? ('t' :: (numeral zeros i).toList) = some (.type i) := by
  obtain ⟨c, digits, whole, digit, read⟩ := exists_numeral zeros h
  rw [whole, hole?, typeNumber?, read]
  · rfl
  · exact fun _ plus => ne_of_isDigit digit rfl (List.cons_eq_cons.1 plus).1
  · exact fun _ star => ne_of_isDigit digit rfl (List.cons_eq_cons.1 star).1

/-- What a hole asks for that begins with the number of a value, by the text behind the number. -/
def valueHole? (i : Nat) : List Char → Option Piece
  | [] => some (.value i)
  | '*' :: ':' :: sep => some (.items i (.ofList sep))
  | '~' :: 't' :: ':' :: sep => some (.zipped i (.ofList sep))
  | _ => none

/-- The number of a value ends where the text goes on with what is no digit. -/
theorem hole?_value (zeros : Nat) (h : i < numberLimit) (tail : List Char)
    (ends : ∀ c ∈ tail.head?, c.isDigit = false) :
    hole? ('v' :: ((numeral zeros i).toList ++ tail)) = valueHole? i tail := by
  obtain ⟨c, digits, whole, digit, read⟩ := exists_numeral zeros h
  have each : ∀ d ∈ c :: digits, d.isDigit = true := by
    rw [← whole]
    exact isDigit_numeral zeros i
  have stop : tail.takeWhile Char.isDigit = [] ∧ tail.dropWhile Char.isDigit = tail := by
    cases tail with
    | nil => exact ⟨rfl, rfl⟩
    | cons d tail => simp [ends d rfl]
  have front : (c :: digits ++ tail).takeWhile Char.isDigit = c :: digits := by
    rw [List.takeWhile_append_of_pos each, stop.1, List.append_nil]
  have back : (c :: digits ++ tail).dropWhile Char.isDigit = tail := by
    rw [List.dropWhile_append_of_pos each, stop.2]
  rw [whole, hole?, front, back, read]
  · rfl
  · exact fun _ star => ne_of_isDigit digit rfl (List.cons_eq_cons.1 star).1

/-- Between the braces of the written form of a hole stands what is read as it. -/
theorem exists_asks (zeros : Nat) (hole : p.IsHole) (h : p.Writable) :
    ∃ body, p.written zeros = braced body ∧ Asks body.toList p := by
  cases p with
  | literal text => exact absurd rfl (hole text)
  | type i =>
    refine ⟨_, rfl, by simp, ?_, ?_⟩
    · simpa using brace_notMem_numeral zeros i
    · simpa using hole?_type zeros h
  | value i =>
    refine ⟨_, rfl, by simp, ?_, ?_⟩
    · simpa using brace_notMem_numeral zeros i
    · have read := hole?_value zeros h [] (by simp)
      simpa [valueHole?] using read
  | types sep => exact ⟨_, rfl, by simp, by simpa [Piece.Writable] using h, by simp [hole?]⟩
  | values sep => exact ⟨_, rfl, by simp, by simpa [Piece.Writable] using h, by simp [hole?]⟩
  | items i sep =>
    refine ⟨_, rfl, by simp, ?_, ?_⟩
    · simpa using ⟨brace_notMem_numeral zeros i, h.2⟩
    · have read := hole?_value zeros h.1 ('*' :: ':' :: sep.toList) (by simp)
      simpa [valueHole?] using read
  | zipped i sep =>
    refine ⟨_, rfl, by simp, ?_, ?_⟩
    · simpa using ⟨brace_notMem_numeral zeros i, h.2⟩
    · have read := hole?_value zeros h.1 ('~' :: 't' :: ':' :: sep.toList) (by simp)
      simpa [valueHole?] using read

end Holes

/-! ## Reading what was written -/

theorem toList_written_cons (p : Piece) (zeros : Nat) (ps : List (Piece × Nat)) :
    (written ((p, zeros) :: ps)).toList = (p.written zeros).toList ++ (written ps).toList := by
  simp [written]

/-- One piece after the other is taken from the written form. -/
theorem piecesFrom_written {ps : List (Piece × Nat)} (h : ∀ p ∈ ps, p.1.Writable)
    (done : List Char) :
    piecesFrom done (written ps).toList =
      prepend (.ofList done.reverse) (joined (ps.map (·.1))) := by
  -- What was read before is arbitrary, since literal text adds to it and a hole empties it.
  induction ps generalizing done with
  | nil => exact piecesFrom_nil.trans (literal_eq done)
  | cons head ps ih =>
    obtain ⟨p, zeros⟩ := head
    obtain ⟨writable, others⟩ := List.forall_mem_cons.1 h
    rw [toList_written_cons, List.map_cons]
    rcases p.literal_or_isHole with ⟨text, rfl⟩ | hole
    · rw [Piece.written, piecesFrom_doubled, ih others, joined, ← prepend_append]
      simp
    · obtain ⟨body, written, asks⟩ := exists_asks zeros hole writable
      have shape : (p.written zeros).toList ++ (Template.written ps).toList =
          '\x7b' :: (body.toList ++ '\x7d' :: (Template.written ps).toList) := by
        simp [written, braced]
      rw [shape, piecesFrom_hole asks, ih others, joined_hole hole, List.reverse_nil,
        String.ofList_nil, prepend_empty, literal_append done hole]

theorem pieces_written {ps : List (Piece × Nat)} (h : ∀ p ∈ ps, p.1.Writable) :
    (ofString (written ps)).pieces = joined (ps.map (·.1)) :=
  (piecesFrom_written h []).trans (prepend_empty _)

theorem render_written {ps : List (Piece × Nat)} (h : ∀ p ∈ ps, p.1.Writable)
    (types : List Ty) (values : List Value) :
    (ofString (written ps)).render types values =
      .join (ps.map (·.1.render types values)) := by
  rw [render, pieces_written h, join_joined, List.map_map]
  rfl

/-- Templates are read as they were written. Whatever pieces are written, with the braces of literal
text doubled and holes in their documented form, the same pieces are read, with neighbouring
literals as one and without empty ones. They show for all arguments what the written pieces show one
after the other, and text without holes shows as itself. -/
theorem ofString_written :
    (∀ ps : List (Piece × Nat), (∀ p ∈ ps, p.1.Writable) →
      (ofString (written ps)).pieces = joined (ps.map (·.1)) ∧
        ∀ (types : List Ty) (values : List Value),
          (ofString (written ps)).render types values =
            .join (ps.map (·.1.render types values))) ∧
      ∀ (text : String) (types : List Ty) (values : List Value),
        (ofString (doubled text)).render types values = text := by
  refine ⟨fun ps h => ⟨pieces_written h, render_written h⟩, fun text types values => ?_⟩
  have alone : doubled text = written [(.literal text, 0)] := by
    simp [written, Piece.written]
  have writable : ∀ p ∈ [(Piece.literal text, 0)], p.1.Writable :=
    List.forall_mem_singleton.2 trivial
  rw [alone, render_written writable]
  simp [Piece.render]

/-- Braces of literal text, of holes and of a separator next to each other. -/
theorem ofString_written_nested :
    let ps : List (Piece × Nat) := [(.literal "Ré", 0), (.literal "\x7b", 0),
      (.zipped 0 "\x7b, ", 1), (.literal "", 0), (.literal "\x7d", 0), (.type 3, 0)]
    let text := "Ré\x7b\x7b\x7bv00~t:\x7b, \x7d\x7d\x7d\x7bt3\x7d"
    (∀ p ∈ ps, p.1.Writable) ∧ written ps = text ∧
      (ofString text).pieces =
        [.literal "Ré\x7b", .zipped 0 "\x7b, ", .literal "\x7d", .type 3] ∧
      (ofString text).render [] [.array [.bool true, .bool false]] =
        "Ré\x7btrue: ?\x7b, false: ?\x7d?" := by
  intro ps text
  have writable : ∀ p ∈ ps, p.1.Writable := by decide
  have spelled : written ps = text := by decide
  obtain ⟨read, shown⟩ := ofString_written.1 ps writable
  rw [spelled] at read shown
  exact ⟨writable, spelled, read, shown _ _⟩

end TypedTree.Template
