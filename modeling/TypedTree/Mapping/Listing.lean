import TypedTree.Document.Codec
import TypedTree.Value.Mapping

/-!
# Rule tables by positions

A rule table as one list of entries, whose edits count positions from its end. Nothing in the list
says that its last entry is a fallback or that the others are not, so a position may be asked for
that the list does not have: before the first entry of an empty list, or behind the end. Such an
operation has no result. An edit that is refused says what it leaves behind, as one that is carried
out does.

## Main definitions

* `Listing`: the list, with `Listing.ofFallback`, `Listing.ofEntries` and `Listing.decode?`.
* `Listing.rules?`, `Listing.fallback?`, `Listing.answer?`: what is read from it.
* `Listing.perform`, `Listing.run`: one edit, and edits one after the other.
* `Mapping.perform`, `Mapping.run`: the same for a mapping.
-/

namespace TypedTree

variable {α : Type}

/-- What an edit is answered: why it was refused, or the entry that it took out, if any. -/
abbrev Mapping.Reply (α : Type) :=
  Except MapError (Option (Entry α))

/-- A rule table as a list of entries. -/
structure Listing (α : Type) where
  entries : List (Entry α)
  deriving DecidableEq, Repr

namespace Listing

/-- The listing of a mapping. -/
def ofMapping (m : Mapping α) : Listing α :=
  ⟨m.entries⟩

/-- A table that is only a fallback. -/
def ofFallback (fallback : Target α) : Listing α :=
  ⟨[.ofFallback fallback]⟩

/-- Take a list of entries for a table, if it has the form of one. -/
def ofEntries (es : List (Entry α)) : Except MapError (Listing α) :=
  match es.getLast? with
  | none => .error .missingFallback
  | some last =>
    if es.dropLast.any Entry.isFallback then .error .fallbackMisplaced
    else if last.isFallback then .ok ⟨es⟩
    else .error .missingFallback

/-- Read a table that is kept as the list of its entries. -/
def decode? : Document → Option (Listing Value)
  | .list items => do
    let es ← Entry.decodeAll? items
    (ofEntries es).toOption
  | _ => none

/-! ## Positions -/

/-- The last position. -/
def last? (l : Listing α) : Option Nat :=
  if l.entries.length < 1 then none else some (l.entries.length - 1)

/-- Make room for an entry at a position and put it there. -/
def insertAt? (l : Listing α) (pos : Nat) (e : Entry α) : Option (Listing α) :=
  if pos ≤ l.entries.length then some ⟨l.entries.insertIdx pos e⟩ else none

/-- Take the entry at a position out and close the gap. -/
def removeAt? (l : Listing α) (pos : Nat) : Option (Entry α × Listing α) :=
  l.entries[pos]?.map fun e => (e, ⟨l.entries.eraseIdx pos⟩)

/-- Write an entry over the one at a position. -/
def writeAt? (l : Listing α) (pos : Nat) (e : Entry α) : Option (Entry α × Listing α) :=
  l.entries[pos]?.map fun old => (old, ⟨l.entries.set pos e⟩)

/-! ## Reading -/

/-- The entries before the last one. -/
def rules? (l : Listing α) : Option (List (Entry α)) := do
  let last ← l.last?
  if last ≤ l.entries.length then some (l.entries.take last) else none

/-- The last entry. -/
def fallback? (l : Listing α) : Option (Entry α) := do
  let last ← l.last?
  l.entries[last]?

/-- The answer of the first entry that is for an input, or of the last entry if none is. -/
def answer? (l : Listing Value) (input : Value) : Option Value := do
  let e ← (l.entries.find? (Entry.matches? (Pattern.hits input))).or l.fallback?
  some (e.target.produce input)

/-! ## Editing -/

/-- Put a rule before the entry at a position. -/
def insert (l : Listing α) (pos : Nat) (e : Entry α) : Option (Mapping.Reply α × Listing α) :=
  if e.isFallback then some (.error .fallbackMisplaced, l)
  else do
    let max ← l.last?
    if max < pos then some (.error (.positionOutOfRange pos max), l)
    else
      let next ← l.insertAt? pos e
      some (.ok none, next)

/-- Take out the rule at a position. -/
def remove (l : Listing α) (pos : Nat) : Option (Mapping.Reply α × Listing α) := do
  let last ← l.last?
  if pos = last then some (.error .cannotRemoveFallback, l)
  else if last < pos then some (.error (.positionOutOfRange pos last), l)
  else
    let (old, next) ← l.removeAt? pos
    some (.ok (some old), next)

/-- Put a rule in the place of the one at a position. The bound in the error is the last position
of a rule, and zero where there is no rule. -/
def replace (l : Listing α) (pos : Nat) (e : Entry α) : Option (Mapping.Reply α × Listing α) :=
  if e.isFallback then some (.error .fallbackMisplaced, l)
  else do
    let last ← l.last?
    if last ≤ pos then some (.error (.positionOutOfRange pos (last - 1)), l)
    else
      let (old, next) ← l.writeAt? pos e
      some (.ok (some old), next)

/-- Write another fallback over the last entry. -/
def setFallback (l : Listing α) (fallback : Target α) : Option (Mapping.Reply α × Listing α) := do
  let last ← l.last?
  let (_, next) ← l.writeAt? last (.ofFallback fallback)
  some (.ok none, next)

/-- Carry out an edit. -/
def perform (l : Listing α) : Mapping.Edit α → Option (Mapping.Reply α × Listing α)
  | .insert pos e => l.insert pos e
  | .remove pos => l.remove pos
  | .replace pos e => l.replace pos e
  | .setFallback t => l.setFallback t

/-- Carry out edits one after the other, also behind one that was refused. -/
def run (l : Listing α) : List (Mapping.Edit α) → Option (List (Mapping.Reply α) × Listing α)
  | [] => some ([], l)
  | e :: rest => do
    let (reply, next) ← l.perform e
    let (replies, final) ← next.run rest
    some (reply :: replies, final)

end Listing

namespace Mapping

/-- The answer to an edit and the mapping behind it. -/
def perform (m : Mapping α) : Edit α → Reply α × Mapping α
  | .insert pos e =>
    match m.insert pos e with
    | .ok next => (.ok none, next)
    | .error refusal => (.error refusal, m)
  | .remove pos =>
    match m.remove pos with
    | .ok (old, next) => (.ok (some old), next)
    | .error refusal => (.error refusal, m)
  | .replace pos e =>
    match m.replace pos e with
    | .ok (old, next) => (.ok (some old), next)
    | .error refusal => (.error refusal, m)
  | .setFallback t => (.ok none, m.setFallback t)

/-- Carry out edits one after the other. -/
def run (m : Mapping α) : List (Edit α) → List (Reply α) × Mapping α
  | [] => ([], m)
  | e :: rest =>
    let step := m.perform e
    let after := step.2.run rest
    (step.1 :: after.1, after.2)

end Mapping

end TypedTree
