import TypedTree.Path
import TypedTree.Text.Decimal

/-!
# Reading paths

The reader of written paths. A field stands at the start or behind a dot and runs to the next
reserved character; a position is a decimal number in brackets and needs no dot. Errors name the
place of the fault in bytes.

## Main definitions

* `PathError`: why a text is not a path.
* `Path.read`: from text to path.
-/

namespace TypedTree

/-- Why a text is not a path. Places count bytes from the start of the text. -/
inductive PathError where
  /-- A character where none of its kind may stand. -/
  | unexpected (place : Nat) (found : Char)
  /-- An opening bracket without a closing one. -/
  | unterminatedIndex (place : Nat)
  /-- Brackets around something else than a 32-bit number. -/
  | badIndex (text : String)
  /-- No name where a field should be. -/
  | emptyField (place : Nat)
  deriving DecidableEq, Repr

/-- The sentence shown for an error. -/
def PathError.message : PathError → String
  | .unexpected place found =>
    "unexpected `" ++ found.toString ++ "` at byte " ++ toString place
  | .unterminatedIndex place => "unterminated index starting at byte " ++ toString place
  | .badIndex text => "invalid index `" ++ text ++ "`"
  | .emptyField place => "empty field name at byte " ++ toString place

namespace Path

/-- How many bytes a run of characters takes. -/
def byteCount (cs : List Char) : Nat :=
  cs.foldr (fun c n => c.utf8Size + n) 0

/-- A field name at the front of a text that begins at byte `place`, the place behind it, and what
is left there. -/
def readField (place : Nat) (cs : List Char) : Except PathError (Ident × Nat × List Char) :=
  match cs.takeWhile (!Name.isReserved ·) with
  | [] => .error (.emptyField place)
  | name =>
    .ok (⟨String.ofList name⟩, place + byteCount name, cs.dropWhile (!Name.isReserved ·))

/-- A position at the front of a text, its opening bracket at byte `place` already read, the place
behind the closing one, and what is left there. -/
def readIndex (place : Nat) (cs : List Char) : Except PathError (UInt32 × Nat × List Char) :=
  match cs.dropWhile (· != ']') with
  | [] => .error (.unterminatedIndex place)
  | _ :: rest =>
    let digits := cs.takeWhile (· != ']')
    match Text.Decimal.read? UInt32.size digits with
    | some i => .ok (.ofNat i, place + byteCount digits + 2, rest)
    | none => .error (.badIndex (String.ofList digits))

private theorem length_dropWhile_le {p : Char → Bool} (cs : List Char) :
    (cs.dropWhile p).length ≤ cs.length :=
  (List.dropWhile_sublist p).length_le

/-- A field that was read leaves a shorter text. -/
theorem length_lt_of_readField {place next : Nat} {cs rest : List Char} {id : Ident}
    (h : readField place cs = .ok (id, next, rest)) : rest.length < cs.length := by
  unfold readField at h
  split at h
  · cases h
  · rename_i name hne
    obtain ⟨-, -, rfl⟩ : _ ∧ _ ∧ _ = rest := by simpa using h
    have hsplit := congrArg List.length (List.takeWhile_append_dropWhile (p := (!Name.isReserved ·)) (l := cs))
    cases hname : cs.takeWhile (!Name.isReserved ·) with
    | nil => exact absurd hname hne
    | cons a as => rw [hname] at hsplit; simp at hsplit ⊢; omega

/-- A position that was read leaves a shorter text. -/
theorem length_lt_of_readIndex {place next : Nat} {cs rest : List Char} {i : UInt32}
    (h : readIndex place cs = .ok (i, next, rest)) : rest.length < cs.length := by
  unfold readIndex at h
  split at h
  · cases h
  · rename_i c rest' hdrop
    have hle := length_dropWhile_le (p := (· != ']')) cs
    rw [hdrop] at hle
    simp only at h
    split at h
    · obtain ⟨-, -, rfl⟩ : _ ∧ _ ∧ rest' = rest := by simpa using h
      exact hle
    · cases h

/-- The steps written in a text that begins at byte `place`. Only at the very start may a field
stand without a dot, and only there may no dot stand. -/
def readFrom (atStart : Bool) (place : Nat) (cs : List Char) : Except PathError Path :=
  match cs with
  | [] => .ok []
  | c :: after =>
    if c = '[' then
      match h : readIndex place after with
      | .error e => .error e
      | .ok (i, next, rest) =>
        have := length_lt_of_readIndex h
        (readFrom false next rest).map (.index i :: ·)
    else if c = '.' then
      if atStart then .error (.unexpected place c)
      else
        match h : readField (place + 1) after with
        | .error e => .error e
        | .ok (id, next, rest) =>
          have := length_lt_of_readField h
          (readFrom false next rest).map (.field id :: ·)
    else if atStart then
      match h : readField place (c :: after) with
      | .error e => .error e
      | .ok (id, next, rest) =>
        have := length_lt_of_readField h
        (readFrom false next rest).map (.field id :: ·)
    else .error (.unexpected place c)
  termination_by cs.length
  decreasing_by all_goals simp_all; try omega

/-- Read a written path. -/
def read (text : String) : Except PathError Path :=
  readFrom true 0 text.toList

end Path

end TypedTree
