import TypedTree.Path.Scan
import TypedTree.Proofs.Lexemes
import Mathlib.Data.List.TakeWhile

/-!
# Spellings of paths

A path has one written form, except that positions may have zeros in front. The reader of paths
accepts exactly the spellings of paths with readable field names, and gives back the path that is
spelled. Read by places, a text is only ever cut between two characters.

## Main definitions

* `Path.Readable`: every field name of a path is readable.
* `Path.padded`: the written form with zeros in front of positions.
* `Path.Spells`: the written form up to such zeros.

## Main statements

* `Path.read_eq_ok`: the texts that are read as a path.
* `Path.scanFrom_eq`: reading by places gives the same, so no cut fails.
* `Path.read_spec`: what the reader does with every text.
-/

namespace TypedTree

/-- A step as it may be written, with zeros in front of a position. -/
def Step.padded (zeros : Nat) : Step → String
  | .field id => id.text
  | .index i => "[" ++ String.ofList (List.replicate zeros '0') ++ toString i.toNat ++ "]"

namespace Path

/-- The written form of steps after the first, each with zeros for its position. -/
def paddedTail : List (Step × Nat) → String
  | [] => ""
  | (.field id, _) :: rest => "." ++ id.text ++ paddedTail rest
  | (.index i, zeros) :: rest => (Step.index i).padded zeros ++ paddedTail rest

/-- The written form of steps, each with zeros for its position. -/
def padded : List (Step × Nat) → String
  | [] => ""
  | (step, zeros) :: rest => step.padded zeros ++ paddedTail rest

/-- Whether a text is the written form of a path up to zeros in front of positions. -/
def Spells (p : Path) (text : String) : Prop :=
  ∃ steps : List (Step × Nat), steps.map (·.1) = p ∧ padded steps = text

/-- Whether all field names of a path are readable. -/
def Readable (p : Path) : Prop :=
  ∀ id, Step.field id ∈ p → id.Readable

theorem readable_nil : Readable [] := by
  simp [Readable]

theorem readable_field {id : Ident} {p : Path} :
    Readable (.field id :: p) ↔ id.Readable ∧ Readable p := by
  simp [Readable]

theorem readable_index {i : UInt32} {p : Path} : Readable (.index i :: p) ↔ Readable p := by
  simp [Readable]

theorem paddedTail_zeros (p : Path) : paddedTail (p.map (·, 0)) = tailText p := by
  induction p with
  | nil => rfl
  | cons step p ih => cases step <;> simp [paddedTail, tailText, Step.padded, Step.text, ih]

/-- The written form of a path is a spelling of it. -/
theorem spells_text (p : Path) : p.Spells p.text := by
  refine ⟨p.map (·, 0), by simp [Function.comp_def], ?_⟩
  cases p with
  | nil => rfl
  | cons step p => cases step <;> simp [padded, text, Step.padded, Step.text, paddedTail_zeros]

/-! ## The pieces of a spelling -/

/-- Whether a name that stands before some characters ends there. -/
def Stops (rest : List Char) : Prop :=
  ∀ c ∈ rest.head?, Name.isReserved c = true

theorem span_of_stops {name rest : List Char} (h : ∀ c ∈ name, Name.isReserved c = false)
    (stops : Stops rest) :
    (name ++ rest).takeWhile (!Name.isReserved ·) = name ∧
      (name ++ rest).dropWhile (!Name.isReserved ·) = rest := by
  have inside : ∀ c ∈ name, (!Name.isReserved c) = true := by
    intro c hc
    simp [h c hc]
  rw [List.takeWhile_append_of_pos inside, List.dropWhile_append_of_pos inside]
  cases rest with
  | nil => simp
  | cons c rest =>
    have hc : Name.isReserved c = true := stops c rfl
    simp [hc]

theorem readField_eq_ok {place next : Nat} {cs rest : List Char} {id : Ident} :
    readField place cs = .ok (id, next, rest) ↔
      id.Readable ∧ cs = id.text.toList ++ rest ∧ Stops rest ∧
        next = place + byteCount id.text.toList := by
  constructor
  · intro h
    rw [readField] at h
    split at h
    · cases h
    · rename_i name nonempty
      simp only [Except.ok.injEq, Prod.mk.injEq] at h
      obtain ⟨rfl, rfl, rfl⟩ := h
      have free : ∀ c ∈ cs.takeWhile (!Name.isReserved ·), Name.isReserved c = false := by
        intro c hc
        simpa using List.all_eq_true.1 (List.all_takeWhile (l := cs)) c hc
      refine ⟨⟨by simpa using nonempty, by simpa using free⟩, by simp, ?_, by simp⟩
      intro c hc
      have := List.head?_dropWhile_not (!Name.isReserved ·) cs
      rw [Option.mem_def] at hc
      simpa [hc] using this
  · rintro ⟨readable, rfl, stops, rfl⟩
    obtain ⟨front, back⟩ := span_of_stops readable.2 stops
    rw [readField, front, back]
    split
    · rename_i empty
      exact absurd empty readable.1
    · simp

/-- Everything up to the first closing bracket. -/
theorem span_of_bracket {digits : List Char} (h : ∀ c ∈ digits, c.isDigit = true)
    (rest : List Char) :
    (digits ++ ']' :: rest).takeWhile (· != ']') = digits ∧
      (digits ++ ']' :: rest).dropWhile (· != ']') = ']' :: rest := by
  have inside : ∀ c ∈ digits, (c != ']') = true := by
    rintro c hc
    rw [bne_iff_ne]
    rintro rfl
    exact absurd (h _ hc) (by decide)
  rw [List.takeWhile_append_of_pos inside, List.dropWhile_append_of_pos inside]
  simp

theorem readIndex_eq_ok {place next : Nat} {cs rest : List Char} {i : UInt32} :
    readIndex place cs = .ok (i, next, rest) ↔
      ∃ zeros, cs = List.replicate zeros '0' ++ Nat.toDigits 10 i.toNat ++ ']' :: rest ∧
        next = place + byteCount (List.replicate zeros '0' ++ Nat.toDigits 10 i.toNat) + 2 := by
  constructor
  · intro h
    rw [readIndex] at h
    split at h
    · cases h
    · rename_i c rest' cut
      simp only at h
      split at h
      · rename_i n hn
        simp only [Except.ok.injEq, Prod.mk.injEq] at h
        obtain ⟨rfl, rfl, rfl⟩ := h
        obtain ⟨small, zeros, digits⟩ := Text.Decimal.read?_eq_some.1 hn
        have bracket : c = ']' := by
          have := List.head?_dropWhile_not (· != ']') cs
          simpa [cut] using this
        subst bracket
        refine ⟨zeros, ?_, ?_⟩
        · rw [UInt32.toNat_ofNat_of_lt' small, ← digits, ← cut, List.takeWhile_append_dropWhile]
        · rw [UInt32.toNat_ofNat_of_lt' small, ← digits]
      · cases h
  · rintro ⟨zeros, rfl, rfl⟩
    have number := Text.Decimal.read?_eq_some.2 ⟨i.toNat_lt_size, zeros, rfl⟩
    obtain ⟨front, back⟩ := span_of_bracket (Text.Decimal.isDigit_padded zeros) rest
    rw [readIndex, front, back]
    simp [number]

/-! ## Reading a spelling -/

/-- The step at the front of a text that is not empty, and the steps behind it. -/
theorem readFrom_cons (atStart : Bool) (place : Nat) (c : Char) (after : List Char) :
    readFrom atStart place (c :: after) =
      if c = '[' then
        readIndex place after >>= fun r => (readFrom false r.2.1 r.2.2).map (.index r.1 :: ·)
      else if c = '.' ∧ atStart = false then
        readField (place + 1) after >>= fun r => (readFrom false r.2.1 r.2.2).map (.field r.1 :: ·)
      else if c ≠ '.' ∧ atStart = true then
        readField place (c :: after) >>= fun r =>
          (readFrom false r.2.1 r.2.2).map (.field r.1 :: ·)
      else .error (.unexpected place c) := by
  rw [readFrom]
  by_cases bracket : c = '['
  · rw [if_pos bracket, if_pos bracket]
    split <;> rename_i found <;> simp [found]
  · rw [if_neg bracket, if_neg bracket]
    by_cases dot : c = '.' <;> cases atStart
    · simp only [dot, if_true, and_self, Bool.false_eq_true, if_false]
      split <;> rename_i found <;> simp [found]
    · simp [dot]
    · simp [dot]
    · simp only [dot, if_true, false_and, if_false, ne_eq, not_false_eq_true, and_self]
      split <;> rename_i found <;> simp [found]

/-- A spelling of the steps after the first ends a name before it. -/
theorem stops_paddedTail (steps : List (Step × Nat)) : Stops (paddedTail steps).toList := by
  intro c hc
  match steps with
  | [] => simp [paddedTail] at hc
  | (.field id, _) :: rest =>
    obtain rfl : '.' = c := by simpa [paddedTail] using hc
    decide
  | (.index i, zeros) :: rest =>
    obtain rfl : '[' = c := by simpa [paddedTail, Step.padded] using hc
    decide

theorem toList_padded_index (i : UInt32) (zeros : Nat) :
    ((Step.index i).padded zeros).toList =
      '[' :: (List.replicate zeros '0' ++ Nat.toDigits 10 i.toNat ++ [']']) := by
  simp [Step.padded]

theorem readFrom_index {atStart : Bool} {place : Nat} {i : UInt32} {zeros : Nat}
    {rest : List Char} {p : Path} (h : ∀ next, readFrom false next rest = .ok p) :
    readFrom atStart place (((Step.index i).padded zeros).toList ++ rest) =
      .ok (.index i :: p) := by
  have position : readIndex place
      (List.replicate zeros '0' ++ Nat.toDigits 10 i.toNat ++ ']' :: rest) = .ok (i, _, rest) :=
    readIndex_eq_ok.2 ⟨zeros, rfl, rfl⟩
  rw [toList_padded_index, List.cons_append, List.append_assoc, List.singleton_append,
    readFrom_cons, if_pos rfl, position, Outcome.ok_bind, h, Except.map]

/-- The spelling of steps after the first is read as these steps. -/
theorem readFrom_paddedTail {steps : List (Step × Nat)} (h : Readable (steps.map (·.1)))
    (place : Nat) : readFrom false place (paddedTail steps).toList = .ok (steps.map (·.1)) := by
  induction steps generalizing place with
  | nil => rw [paddedTail, String.toList_empty, readFrom]; rfl
  | cons head steps ih =>
    obtain ⟨step, zeros⟩ := head
    cases step with
    | index i =>
      rw [paddedTail, String.toList_append]
      exact readFrom_index (ih (readable_index.1 h))
    | field id =>
      obtain ⟨readable, others⟩ := readable_field.1 h
      have name : readField (place + 1) (id.text.toList ++ (paddedTail steps).toList) =
          .ok (id, _, (paddedTail steps).toList) :=
        readField_eq_ok.2 ⟨readable, rfl, stops_paddedTail steps, rfl⟩
      have written : (paddedTail ((.field id, zeros) :: steps)).toList =
          '.' :: (id.text.toList ++ (paddedTail steps).toList) := by
        simp [paddedTail]
      rw [written, readFrom_cons, if_neg (by decide), if_pos ⟨rfl, rfl⟩, name, Outcome.ok_bind,
        ih others, Except.map, List.map_cons]

/-- The spelling of a whole path, or of what stands behind a first step. -/
def spelling (atStart : Bool) (steps : List (Step × Nat)) : List Char :=
  (if atStart then padded steps else paddedTail steps).toList

theorem spelling_index {atStart : Bool} {i : UInt32} {zeros : Nat} {steps : List (Step × Nat)} :
    spelling atStart ((.index i, zeros) :: steps) =
      '[' :: (List.replicate zeros '0' ++ Nat.toDigits 10 i.toNat ++
        ']' :: spelling false steps) := by
  cases atStart <;> simp [spelling, padded, paddedTail, toList_padded_index]

theorem spelling_field {atStart : Bool} {id : Ident} {zeros : Nat} {steps : List (Step × Nat)} :
    spelling atStart ((.field id, zeros) :: steps) =
      (if atStart then [] else ['.']) ++ (id.text.toList ++ spelling false steps) := by
  cases atStart <;> simp [spelling, padded, paddedTail, Step.padded]

/-- What is read as steps has readable field names and spells the steps. -/
theorem spells_of_readFrom {atStart : Bool} {place : Nat} {cs : List Char} {p : Path}
    (h : readFrom atStart place cs = .ok p) :
    p.Readable ∧ ∃ steps, steps.map (·.1) = p ∧ spelling atStart steps = cs := by
  -- by the length of the text; each round leaves a shorter rest
  induction hn : cs.length using Nat.strongRecOn generalizing atStart place cs p with
  | ind n ih =>
  cases cs with
  | nil =>
    rw [readFrom] at h
    obtain rfl : [] = p := Except.ok.inj h
    exact ⟨readable_nil, [], rfl, by cases atStart <;> rfl⟩
  | cons c after =>
    rw [readFrom_cons] at h
    split at h
    · rename_i bracket
      obtain ⟨⟨i, next, rest⟩, found, further⟩ := Outcome.bind_eq_ok.1 h
      obtain ⟨p, tail, rfl⟩ := Outcome.map_eq_ok.1 further
      have shorter := length_lt_of_readIndex found
      obtain ⟨zeros, rfl, -⟩ := readIndex_eq_ok.1 found
      obtain ⟨readable, steps, rfl, written⟩ := ih _ (by simp at hn shorter ⊢; omega) tail rfl
      exact ⟨readable_index.2 readable, (.index i, zeros) :: steps, rfl, by
        rw [spelling_index, written, bracket]⟩
    · split at h
      · rename_i dot
        obtain ⟨⟨id, next, rest⟩, found, further⟩ := Outcome.bind_eq_ok.1 h
        obtain ⟨p, tail, rfl⟩ := Outcome.map_eq_ok.1 further
        have shorter := length_lt_of_readField found
        obtain ⟨name, rfl, -, -⟩ := readField_eq_ok.1 found
        obtain ⟨readable, steps, rfl, written⟩ := ih _ (by simp at hn shorter ⊢; omega) tail rfl
        exact ⟨readable_field.2 ⟨name, readable⟩, (.field id, 0) :: steps, rfl, by
          rw [spelling_field, written, dot.1, dot.2]; rfl⟩
      · split at h
        · rename_i start
          obtain ⟨⟨id, next, rest⟩, found, further⟩ := Outcome.bind_eq_ok.1 h
          obtain ⟨p, tail, rfl⟩ := Outcome.map_eq_ok.1 further
          have shorter := length_lt_of_readField found
          obtain ⟨name, split, -, -⟩ := readField_eq_ok.1 found
          obtain ⟨readable, steps, rfl, written⟩ := ih _ (by simp at hn shorter ⊢; omega) tail rfl
          exact ⟨readable_field.2 ⟨name, readable⟩, (.field id, 0) :: steps, rfl, by
            rw [spelling_field, written, split, start.2]; rfl⟩
        · cases h

/-- The spelling of a whole path with readable field names is read as the path. -/
theorem readFrom_padded {steps : List (Step × Nat)} (h : Readable (steps.map (·.1)))
    (place : Nat) : readFrom true place (padded steps).toList = .ok (steps.map (·.1)) := by
  match steps with
  | [] => rw [padded, String.toList_empty, readFrom]; rfl
  | (.index i, zeros) :: steps =>
    rw [padded, String.toList_append]
    exact readFrom_index (readFrom_paddedTail (readable_index.1 h))
  | (.field id, zeros) :: steps =>
    obtain ⟨readable, others⟩ := readable_field.1 h
    have name : readField place (id.text.toList ++ (paddedTail steps).toList) =
        .ok (id, _, (paddedTail steps).toList) :=
      readField_eq_ok.2 ⟨readable, rfl, stops_paddedTail steps, rfl⟩
    obtain ⟨c, cs, front⟩ := List.exists_cons_of_ne_nil readable.1
    have plain : Name.isReserved c = false := readable.2 c (by simp [front])
    have written : (padded ((.field id, zeros) :: steps)).toList =
        c :: (cs ++ (paddedTail steps).toList) := by
      simp [padded, Step.padded, front]
    rw [front, List.cons_append] at name
    rw [written, readFrom_cons, if_neg, if_neg, if_pos, name, Outcome.ok_bind,
      readFrom_paddedTail others, Except.map, List.map_cons]
    · refine ⟨?_, rfl⟩
      rintro rfl
      exact absurd plain (by decide)
    · simp
    · rintro rfl
      exact absurd plain (by decide)

/-- A text is read as a path just if the field names are readable and the text spells the path. -/
theorem read_eq_ok {s : String} {p : Path} : read s = .ok p ↔ p.Readable ∧ p.Spells s := by
  constructor
  · intro h
    obtain ⟨readable, steps, rfl, written⟩ := spells_of_readFrom h
    exact ⟨readable, steps, rfl, String.toList_inj.1 written⟩
  · rintro ⟨readable, steps, rfl, rfl⟩
    exact readFrom_padded readable 0

end Path

/-! ## Cuts -/

namespace Text

open Path (byteCount)

theorem byteCount_append (front back : List Char) :
    byteCount (front ++ back) = byteCount front + byteCount back := by
  induction front with
  | nil => simp [byteCount]
  | cons c front ih =>
    simp only [List.cons_append, byteCount, List.foldr_cons] at ih ⊢
    omega

theorem byteCount_cons (c : Char) (cs : List Char) :
    byteCount (c :: cs) = c.utf8Size + byteCount cs := rfl

theorem byteCount_pos {cs : List Char} : 0 < byteCount cs ↔ cs ≠ [] := by
  cases cs with
  | nil => simp [byteCount]
  | cons c cs =>
    have := c.utf8Size_pos
    simp only [byteCount_cons, ne_eq, reduceCtorEq, not_false_eq_true, iff_true]
    omega

/-- A text can be cut behind any of its characters. -/
theorem cutAt?_append (front back : List Char) :
    cutAt? (byteCount front) (front ++ back) = some (front, back) := by
  induction front with
  | nil => cases back <;> rfl
  | cons c front ih =>
    obtain ⟨n, hn⟩ : ∃ n, byteCount (c :: front) = n + 1 :=
      Nat.exists_eq_add_one.2 (byteCount_pos.2 (List.cons_ne_nil c front))
    have inside : n + 1 = c.utf8Size + byteCount front := by
      rw [← hn, byteCount_cons]
    rw [hn, List.cons_append, cutAt?, if_pos (by omega), inside, Nat.add_sub_cancel_left, ih,
      Option.map_some]

end Text

namespace Path

open Text (cutAt? byteCount_append byteCount_cons byteCount_pos cutAt?_append)

/-- A character of a class is found behind all that are not in the class. -/
theorem findByte?_eq (p : Char → Bool) (cs : List Char) :
    findByte? p cs = match cs.dropWhile (!p ·) with
      | [] => none
      | _ :: _ => some (byteCount (cs.takeWhile (!p ·))) := by
  have absent : cs.any p = false ↔ cs.dropWhile (!p ·) = [] := by
    simp [List.dropWhile_eq_nil_iff]
  rw [findByte?]
  cases found : cs.dropWhile (!p ·) with
  | nil => simp [absent.2 found]
  | cons c rest =>
    have present : cs.any p = true := by
      rw [← Bool.not_eq_false, absent, found]
      exact List.cons_ne_nil c rest
    simp [present]

/-- A name ends before the first reserved character, or with the text. -/
theorem size_of_name (cs : List Char) :
    (findByte? Name.isReserved cs).getD (byteCount cs) =
      byteCount (cs.takeWhile (!Name.isReserved ·)) := by
  have whole := List.takeWhile_append_dropWhile (p := (!Name.isReserved ·)) (l := cs)
  rw [findByte?_eq]
  split
  · rename_i none
    rw [none, List.append_nil] at whole
    rw [Option.getD_none, whole]
  · rfl

/-- One position is read by places as it is read. -/
theorem indexAt?_eq (place : Nat) (cs : List Char) :
    indexAt? place cs = some ((readIndex place cs).map fun r => (r.1, r.2.1)) := by
  have whole := List.takeWhile_append_dropWhile (p := (· != ']')) (l := cs)
  have sides := cutAt?_append (cs.takeWhile (· != ']')) (cs.dropWhile (· != ']'))
  rw [whole] at sides
  have found : findByte? (· == ']') cs = match cs.dropWhile (· != ']') with
      | [] => none
      | _ :: _ => some (byteCount (cs.takeWhile (· != ']'))) := findByte?_eq ..
  rw [indexAt?, readIndex, found]
  cases cs.dropWhile (· != ']') with
  | nil => rfl
  | cons c rest =>
    simp only [sides, Option.bind_eq_bind, Option.bind_some]
    cases Text.Decimal.read? UInt32.size (cs.takeWhile (· != ']')) <;> rfl

/-- One field name is read by places as it is read, so it is never refused as a name. -/
theorem fieldAt?_eq (place : Nat) (cs : List Char) :
    fieldAt? place cs = some ((readField place cs).map fun r => (r.1, r.2.1)) := by
  have whole := List.takeWhile_append_dropWhile (p := (!Name.isReserved ·)) (l := cs)
  have sides := cutAt?_append (cs.takeWhile (!Name.isReserved ·))
    (cs.dropWhile (!Name.isReserved ·))
  rw [whole] at sides
  have free := List.all_takeWhile (p := (!Name.isReserved ·)) (l := cs)
  rw [fieldAt?, size_of_name, readField]
  cases front : cs.takeWhile (!Name.isReserved ·) with
  | nil => rfl
  | cons c name =>
    rw [front] at sides free
    have readable : Ident.Readable ⟨String.ofList (c :: name)⟩ := by
      refine ⟨by simp, ?_⟩
      simpa using free
    have nonempty : byteCount (c :: name) ≠ 0 := (byteCount_pos.2 (List.cons_ne_nil c name)).ne'
    have accepted : Ident.read (String.ofList (c :: name)) = .ok ⟨String.ofList (c :: name)⟩ :=
      Ident.read_eq_ok.2 ⟨readable, rfl⟩
    simp only [nonempty, if_false, sides, Option.bind_eq_bind, Option.bind_some, accepted]
    rfl

/-- One round of reading by places, its steps in sequence. -/
theorem scanFrom_eq_bind (text : List Char) (done : Path) (mayBegin : Bool) (place : Nat) :
    scanFrom text done mayBegin place =
      if place < byteCount text then
        (cutAt? place text).bind fun sides =>
          if sides.2.head? = some '[' then
            (cutAt? 1 sides.2).bind fun inner => (indexAt? place inner.2).bind fun
              | .error e => some (.error e)
              | .ok (i, next) => scanFrom text (done ++ [.index i]) false next
          else if sides.2.head? = some '.' ∧ done = [] then some (.error (.unexpected place '.'))
          else if sides.2.head? ≠ some '.' ∧ mayBegin = false then
            some (.error (.unexpected place (sides.2.headD ' ')))
          else
            let start := if sides.2.head? = some '.' then place + 1 else place
            (cutAt? start text).bind fun tail => (fieldAt? start tail.2).bind fun
              | .error e => some (.error e)
              | .ok (id, next) => scanFrom text (done ++ [.field id]) false next
      else some (.ok done) := by
  rw [scanFrom]
  split
  · congr 1
    funext sides
    simp only [Option.bind_eq_bind]
    split
    · congr 1
      funext inner
      split <;> rename_i found <;> rw [found] <;> rfl
    · split
      · rfl
      · split
        · rfl
        · congr 1
          funext tail
          split <;> rename_i found <;> rw [found] <;> rfl
  · rfl

/-- Reading by places gives what reading gives, behind the steps that were read before. -/
theorem scanFrom_eq (front cs : List Char) (done : Path) :
    scanFrom (front ++ cs) done done.isEmpty (byteCount front) =
      some ((readFrom done.isEmpty (byteCount front) cs).map (done ++ ·)) := by
  -- by the length of the text that is left
  induction hn : cs.length using Nat.strongRecOn generalizing front cs done with
  | ind n ih =>
  cases cs with
  | nil =>
    rw [scanFrom, dif_neg (by simp), readFrom]
    simp [Except.map]
  | cons c after =>
    have inside : byteCount front < byteCount (front ++ c :: after) := by
      have := byteCount_pos.2 (List.cons_ne_nil c after)
      rw [byteCount_append]
      omega
    -- what is left once a front part of it has been read as a step
    have further (step : Step) (read rest : List Char) (split : c :: after = read ++ rest)
        (some : read ≠ []) : scanFrom (front ++ c :: after) (done ++ [step]) false
          (byteCount front + byteCount read) =
        Option.some (((readFrom false (byteCount front + byteCount read) rest).map
          (step :: ·)).map (done ++ ·)) := by
      have shorter : rest.length < n := by
        have := congrArg List.length split
        have := List.length_pos_iff.2 some
        simp at *
        omega
      have behind : (done ++ [step]).isEmpty = false := by cases done <;> rfl
      have := ih _ shorter (front ++ read) rest (done ++ [step]) rfl
      rw [behind, byteCount_append, List.append_assoc, ← split] at this
      rw [this]
      cases readFrom false (byteCount front + byteCount read) rest <;> simp [Except.map]
    -- a field name behind a dot or at the very front
    have field (dot name : List Char) (split : c :: after = dot ++ name) :
        ((fieldAt? (byteCount front + byteCount dot) name).bind fun
          | .error e => some (.error e)
          | .ok (id, next) => scanFrom (front ++ c :: after) (done ++ [.field id]) false next) =
        some ((readField (byteCount front + byteCount dot) name >>= fun r =>
          (readFrom false r.2.1 r.2.2).map (.field r.1 :: ·)).map (done ++ ·)) := by
      rw [fieldAt?_eq, Option.bind_some]
      cases found : readField (byteCount front + byteCount dot) name with
      | error e => rfl
      | ok r =>
        obtain ⟨id, next, rest⟩ := r
        obtain ⟨readable, rfl, -, rfl⟩ := readField_eq_ok.1 found
        have whole := further (.field id) (dot ++ id.text.toList) rest (by simp [split])
          (by simp [readable.1])
        rw [byteCount_append, ← Nat.add_assoc] at whole
        exact whole
    rw [scanFrom_eq_bind, if_pos inside, cutAt?_append, readFrom_cons]
    simp only [Option.bind_some, List.head?_cons, Option.some.injEq, List.headD_cons]
    by_cases bracket : c = '['
    · subst bracket
      have opening : cutAt? 1 ('[' :: after) = some (['['], after) := cutAt?_append ['['] after
      rw [if_pos rfl, if_pos rfl, opening, Option.bind_some, indexAt?_eq, Option.bind_some]
      cases found : readIndex (byteCount front) after with
      | error e => rfl
      | ok r =>
        obtain ⟨i, next, rest⟩ := r
        obtain ⟨zeros, split, rfl⟩ := readIndex_eq_ok.1 found
        have whole := further (.index i)
          ('[' :: (List.replicate zeros '0' ++ Nat.toDigits 10 i.toNat ++ [']'])) rest
          (by simp [split]) (List.cons_ne_nil _ _)
        have size : byteCount front + byteCount
            ('[' :: (List.replicate zeros '0' ++ Nat.toDigits 10 i.toNat ++ [']'])) =
            byteCount front +
              byteCount (List.replicate zeros '0' ++ Nat.toDigits 10 i.toNat) + 2 := by
          have one : '['.utf8Size = 1 ∧ byteCount [']'] = 1 := ⟨rfl, rfl⟩
          rw [byteCount_cons, byteCount_append _ [']']]
          omega
        rw [size] at whole
        exact whole
    · rw [if_neg bracket, if_neg bracket]
      by_cases dot : c = '.' <;> by_cases start : done = []
      · simp [dot, start, Except.map]
      · subst dot
        have behind := cutAt?_append (front ++ ['.']) after
        rw [List.append_assoc, List.singleton_append, byteCount_append] at behind
        have whole := field ['.'] after rfl
        have size : byteCount ['.'] = 1 := rfl
        simp only [size] at behind whole
        simpa [start, behind] using whole
      · subst start
        have whole := field [] (c :: after) rfl
        have size : byteCount [] = 0 := rfl
        rw [size, Nat.add_zero] at whole
        simpa [dot, cutAt?_append] using whole
      · simp [dot, start, Except.map]

/-- The reader of paths: the written form of a path is read as the path just if its field names
are readable; a text is read as a path just if it spells it, with readable field names; every
other text is refused; and read by places, every text is cut only between two characters. -/
theorem read_spec (s : String) :
    (∀ p : Path, read p.text = .ok p ↔ p.Readable) ∧
      (∀ p : Path, read s = .ok p ↔ p.Readable ∧ p.Spells s) ∧
      ((∃ e, read s = .error e) ↔ ¬ ∃ p : Path, p.Readable ∧ p.Spells s) ∧
      scan s = some (read s) := by
  refine ⟨?_, fun p => read_eq_ok, ?_, ?_⟩
  · intro p
    rw [read_eq_ok, and_iff_left p.spells_text]
  · constructor
    · rintro ⟨e, refused⟩ ⟨p, spelled⟩
      rw [read_eq_ok.2 spelled] at refused
      cases refused
    · intro spellsNone
      cases outcome : read s with
      | ok p => exact absurd ⟨p, read_eq_ok.1 outcome⟩ spellsNone
      | error e => exact ⟨e, rfl⟩
  · have whole := scanFrom_eq [] s.toList []
    rw [List.nil_append] at whole
    refine whole.trans ?_
    simp only [List.nil_append, List.isEmpty_nil, byteCount, List.foldr_nil]
    rw [read]
    cases readFrom true 0 s.toList <;> rfl

/-- Zeros may stand in front of a position, and a character may take two bytes. -/
example : scan "é[007].b" = some (.ok [.field ⟨"é"⟩, .index 7, .field ⟨"b"⟩]) := by cbv

end Path

end TypedTree
