/-!
# Rule tables

A `Mapping` answers an input by the first of its rules that matches it, and by its fallback when
none does. A rule matches one exact input or a range of them. The answer is a fixed result or the
input itself.

The fallback is a field of its own, so a mapping has exactly one. Where rules and fallback are
listed together, as `Entry` values, the fallback is the last of them: `Mapping.entries` lists a
mapping and `Mapping.ofEntries` reads such a list back. Positions in edits count in that list.

## Main definitions

* `Pattern`, `Target`, `Rule`, `Mapping`: the tables.
* `Entry`: a rule or a fallback in a list.
* `Mapping.insert`, `Mapping.remove`, `Mapping.replace`, `Mapping.setFallback`: the edits.
* `Mapping.apply`: the answer to an input.
-/

namespace TypedTree

/-- The inputs that a rule is for. -/
inductive Pattern (α : Type) where
  /-- One input. -/
  | exact (input : α)
  /-- The inputs between two bounds, both included. -/
  | range (min max : α)
  deriving DecidableEq, Repr

/-- The answer of a rule or of a fallback. -/
inductive Target (α : Type) where
  /-- The same answer for every input. -/
  | fixed (answer : α)
  /-- The input itself. -/
  | itself
  deriving DecidableEq, Repr

/-- The answer to one input. -/
def Target.produce {α : Type} : Target α → α → α
  | .fixed answer, _ => answer
  | .itself, input => input

/-- An answer for the inputs of a pattern. -/
structure Rule (α : Type) where
  pattern : Pattern α
  target : Target α
  deriving DecidableEq, Repr

/-- A line in the listing of a mapping. Without a pattern it is a fallback. -/
structure Entry (α : Type) where
  pattern : Option (Pattern α)
  target : Target α
  deriving DecidableEq, Repr

namespace Entry

variable {α : Type}

/-- The line of a rule. -/
def ofRule (r : Rule α) : Entry α :=
  ⟨some r.pattern, r.target⟩

/-- The line of a fallback. -/
def ofFallback (t : Target α) : Entry α :=
  ⟨none, t⟩

/-- The rule on a line that is no fallback. -/
def rule? (e : Entry α) : Option (Rule α) :=
  e.pattern.map (⟨·, e.target⟩)

/-- Whether a line is a fallback. -/
def isFallback (e : Entry α) : Bool :=
  e.pattern.isNone

/-- Whether a line is for an input, when `hits` tells whether a pattern is. -/
def matches? (hits : Pattern α → Bool) (e : Entry α) : Bool :=
  match e.pattern with
  | some p => hits p
  | none => true

end Entry

/-- Why a list or an edit of entries was refused. -/
inductive MapError where
  /-- A fallback before the end. -/
  | fallbackMisplaced
  /-- No fallback at the end. -/
  | missingFallback
  /-- The fallback was to be removed. -/
  | cannotRemoveFallback
  /-- A position above the largest one allowed. -/
  | positionOutOfRange (pos max : Nat)
  deriving DecidableEq, Repr

/-- The sentence shown for an error. -/
def MapError.message : MapError → String
  | .fallbackMisplaced => "only the final entry of a map may be a fallback"
  | .missingFallback => "map must end with exactly one fallback entry"
  | .cannotRemoveFallback => "the fallback entry cannot be removed"
  | .positionOutOfRange pos max =>
    "map entry position " ++ toString pos ++ " out of range (0..=" ++ toString max ++ ")"

/-- Ordered rules closed by a fallback. -/
structure Mapping (α : Type) where
  rules : List (Rule α)
  fallback : Target α
  deriving DecidableEq, Repr

namespace Mapping

variable {α : Type}

/-- A mapping without rules. -/
def ofFallback (fallback : Target α) : Mapping α :=
  ⟨[], fallback⟩

/-- The listing of a mapping: its rules in order, then the fallback. -/
def entries (m : Mapping α) : List (Entry α) :=
  m.rules.map .ofRule ++ [.ofFallback m.fallback]

/-- How many entries the listing has. -/
def size (m : Mapping α) : Nat :=
  m.rules.length + 1

/-- Read a listing. A fallback before the end is reported before a missing one at the end. -/
def ofEntries (es : List (Entry α)) : Except MapError (Mapping α) :=
  match es.getLast? with
  | none => .error .missingFallback
  | some last =>
    match es.dropLast.mapM Entry.rule? with
    | none => .error .fallbackMisplaced
    | some rules =>
      if last.isFallback then .ok ⟨rules, last.target⟩ else .error .missingFallback

/-- Put a rule before the entry at a position. -/
def insert (m : Mapping α) (pos : Nat) (e : Entry α) : Except MapError (Mapping α) :=
  match e.rule? with
  | none => .error .fallbackMisplaced
  | some r =>
    if pos ≤ m.rules.length then .ok { m with rules := m.rules.insertIdx pos r }
    else .error (.positionOutOfRange pos m.rules.length)

/-- Take out the rule at a position. -/
def remove (m : Mapping α) (pos : Nat) : Except MapError (Entry α × Mapping α) :=
  match m.rules[pos]? with
  | some r => .ok (.ofRule r, { m with rules := m.rules.eraseIdx pos })
  | none =>
    if pos = m.rules.length then .error .cannotRemoveFallback
    else .error (.positionOutOfRange pos m.rules.length)

/-- Put a rule in the place of the one at a position. -/
def replace (m : Mapping α) (pos : Nat) (e : Entry α) : Except MapError (Entry α × Mapping α) :=
  match e.rule? with
  | none => .error .fallbackMisplaced
  | some r =>
    match m.rules[pos]? with
    | some old => .ok (.ofRule old, { m with rules := m.rules.set pos r })
    | none => .error (.positionOutOfRange pos (m.rules.length - 1))

/-- Give the mapping another fallback. -/
def setFallback (m : Mapping α) (fallback : Target α) : Mapping α :=
  { m with fallback }

/-- The answer of the first rule that hits, else of the fallback. -/
def apply (m : Mapping α) (hits : Pattern α → Bool) (input : α) : α :=
  match m.rules.find? fun r => hits r.pattern with
  | some r => r.target.produce input
  | none => m.fallback.produce input

/-- One change to a mapping; a change that would break its form is refused. -/
inductive Edit (α : Type) where
  | insert (pos : Nat) (entry : Entry α)
  | remove (pos : Nat)
  | replace (pos : Nat) (entry : Entry α)
  | setFallback (fallback : Target α)

/-- Carry out a change. -/
def edit (m : Mapping α) : Edit α → Except MapError (Mapping α)
  | .insert pos e => m.insert pos e
  | .remove pos => (m.remove pos).map (·.2)
  | .replace pos e => (m.replace pos e).map (·.2)
  | .setFallback t => .ok (m.setFallback t)

end Mapping

end TypedTree
