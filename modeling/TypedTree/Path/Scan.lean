import TypedTree.Path.Reader

/-!
# Reading paths by places

The reader of written paths as a loop that keeps a place in the text, counted in bytes, and cuts
the text at such places. A text can only be cut between two characters, so a cut inside of one has
no result, and then neither has the loop. It ends because every round moves the place forward.

## Main definitions

* `Text.cutAt?`: the two sides of a cut.
* `Path.indexAt?`, `Path.fieldAt?`: one step of the loop.
* `Path.scan`: the loop.
-/

namespace TypedTree

/-- The two sides of a text around a place, unless the place is inside a character or behind the
end. -/
def Text.cutAt? : Nat → List Char → Option (List Char × List Char)
  | 0, cs => some ([], cs)
  | _ + 1, [] => none
  | n + 1, c :: cs =>
    if c.utf8Size ≤ n + 1 then
      (Text.cutAt? (n + 1 - c.utf8Size) cs).map fun sides => (c :: sides.1, sides.2)
    else none

namespace Path

open Text (cutAt?)

/-- The byte at which the first character of a class begins. -/
def findByte? (p : Char → Bool) (cs : List Char) : Option Nat :=
  if cs.any p then some (byteCount (cs.takeWhile (!p ·))) else none

/-- The position whose opening bracket is at a place and has some text behind it, and the place
behind the closing bracket. -/
def indexAt? (place : Nat) (inner : List Char) : Option (Except PathError (UInt32 × Nat)) :=
  match findByte? (· == ']') inner with
  | none => some (.error (.unterminatedIndex place))
  | some size => do
    let (digits, _) ← cutAt? size inner
    match Text.Decimal.read? UInt32.size digits with
    | some i => some (.ok (.ofNat i, place + size + 2))
    | none => some (.error (.badIndex (String.ofList digits)))

/-- The field name at the front of a text that begins at a place, and the place behind it. -/
def fieldAt? (place : Nat) (cs : List Char) : Option (Except PathError (Ident × Nat)) :=
  let size := (findByte? Name.isReserved cs).getD (byteCount cs)
  if size = 0 then some (.error (.emptyField place))
  else do
    let (name, _) ← cutAt? size cs
    let id ← (Ident.read (String.ofList name)).toOption
    some (.ok (id, place + size))

/-- A position that was read moves the place forward. -/
theorem lt_of_indexAt? {place next : Nat} {inner : List Char} {i : UInt32}
    (h : indexAt? place inner = some (.ok (i, next))) : place < next := by
  unfold indexAt? at h
  split at h
  · cases h
  · obtain ⟨sides, -, h⟩ := Option.bind_eq_some_iff.1 h
    simp only at h
    split at h
    · obtain ⟨-, rfl⟩ : _ ∧ _ = next := by simpa using h
      omega
    · cases h

/-- A field that was read moves the place forward. -/
theorem lt_of_fieldAt? {place next : Nat} {cs : List Char} {id : Ident}
    (h : fieldAt? place cs = some (.ok (id, next))) : place < next := by
  unfold fieldAt? at h
  simp only at h
  split at h
  · cases h
  · rename_i nonempty
    obtain ⟨sides, -, h⟩ := Option.bind_eq_some_iff.1 h
    obtain ⟨found, -, h⟩ := Option.bind_eq_some_iff.1 h
    obtain ⟨-, rfl⟩ : _ ∧ _ = next := by simpa using h
    omega

/-- Go on reading a text at a place, behind the steps that were read before; `mayBegin` says
whether a field may stand there without a dot. -/
def scanFrom (text : List Char) (done : Path) (mayBegin : Bool) (place : Nat) :
    Option (Except PathError Path) :=
  if _inside : place < byteCount text then do
    let (_, rest) ← cutAt? place text
    if rest.head? = some '[' then
      let (_, inner) ← cutAt? 1 rest
      match h : indexAt? place inner with
      | none => none
      | some (.error e) => some (.error e)
      | some (.ok (i, next)) =>
        have := lt_of_indexAt? h
        scanFrom text (done ++ [.index i]) false next
    else if rest.head? = some '.' ∧ done = [] then some (.error (.unexpected place '.'))
    else if rest.head? ≠ some '.' ∧ mayBegin = false then
      some (.error (.unexpected place (rest.headD ' ')))
    else
      let start := if rest.head? = some '.' then place + 1 else place
      let (_, tail) ← cutAt? start text
      match h : fieldAt? start tail with
      | none => none
      | some (.error e) => some (.error e)
      | some (.ok (id, next)) =>
        have := lt_of_fieldAt? h
        scanFrom text (done ++ [.field id]) false next
  else some (.ok done)
  termination_by byteCount text - place
  decreasing_by
    · omega
    · grind

/-- Read a written path by places. -/
def scan (text : String) : Option (Except PathError Path) :=
  scanFrom text.toList [] true 0

end Path

end TypedTree
