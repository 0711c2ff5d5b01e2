import TypedTree.Holder
import TypedTree.Holder.Revision

/-!
# Shared holders in counted memory

Names share a value in two layers. A name refers to a box, which counts the names that refer to it
and holds one word; the word may refer to a cell, which counts the words that refer to it. Copying
a name touches the count of its box only. A write first moves the name to a box of its own and then
goes down through the cells of the value, each of which becomes its own in turn.

The counts are stored, and they alone decide what is shared and what is freed.

## Main definitions

* `Arena`: names, boxes and cells.
* `Arena.Source`, `Arena.make`: how values get into memory, whole or as parts of values there.
* `Arena.Command`, `Arena.perform`: the steps as data, and their effect.
* `Arena.value?`, `Arena.count`, `Arena.isUnique`, `Arena.isShared`: what can be seen.
-/

namespace TypedTree

/-- A word and the number of names that share it. -/
structure Box where
  count : Nat
  word : Word

/-- A box that nobody refers to. -/
def Box.free : Box :=
  ⟨0, .blank⟩

/-- Names that hold values in counted memory. -/
structure Arena (κ : Type) where
  /-- The box that each live name refers to; no name stands twice. -/
  names : List (κ × Nat)
  boxes : List Box
  cells : Cells

namespace Arena

variable {κ ε : Type} [DecidableEq κ]

/-- No names and no memory. -/
def empty : Arena κ := ⟨[], [], []⟩

/-- The box that a reference is about. -/
def box (a : Arena κ) (b : Nat) : Box :=
  a.boxes.getD b .free

/-- The box that a name refers to. -/
def box? (a : Arena κ) (name : κ) : Option Nat :=
  a.names.lookup name

/-- The value that a name holds. -/
def value? (a : Arena κ) (name : κ) : Option Value :=
  (a.box? name).map fun b => a.cells.read (a.box b).word

/-- The stored number of names that share the box of a name, the name itself included. -/
def count (a : Arena κ) (name : κ) : Nat :=
  match a.box? name with
  | some b => (a.box b).count
  | none => 0

/-- Whether a name is alone at its box. -/
def isUnique (a : Arena κ) (name : κ) : Bool :=
  a.count name == 1

/-- Whether two names refer to one box. -/
def isShared (a : Arena κ) (m n : κ) : Bool :=
  (a.box? m).isSome && a.box? m == a.box? n

/-! ## Boxes -/

/-- Let a name that refers to no box refer to one. -/
def bind (a : Arena κ) (name : κ) (b : Nat) : Arena κ :=
  { a with names := (name, b) :: a.names }

/-- Let a name refer to no box. -/
def unbind (a : Arena κ) (name : κ) : Arena κ :=
  { a with names := a.names.filter (·.1 != name) }

/-- A word in a new box. -/
def enclose (a : Arena κ) (w : Word) : Nat × Arena κ :=
  (a.boxes.length, { a with boxes := a.boxes ++ [⟨1, w⟩] })

/-- One more reference to a box. -/
def share (a : Arena κ) (b : Nat) : Arena κ :=
  { a with boxes := a.boxes.set b { a.box b with count := (a.box b).count + 1 } }

/-- Give up a reference to a box and keep the word. The last reference takes the word out and frees
the box; any other takes a copy. -/
def leave (a : Arena κ) (b : Nat) : Word × Arena κ :=
  let x := a.box b
  if x.count = 1 then (x.word, { a with boxes := a.boxes.set b .free })
  else (x.word,
    { a with
      boxes := a.boxes.set b { x with count := x.count - 1 }
      cells := a.cells.retain x.word })

/-- Give up words. -/
def discard (a : Arena κ) (ws : List Word) : Arena κ :=
  { a with cells := a.cells.release ws }

/-- Give up a reference to a box. -/
def abandon (a : Arena κ) (b : Nat) : Arena κ :=
  let (w, a) := a.leave b
  a.discard [w]

/-- Let a name refer to a box in place of the one that it refers to now. -/
def rebind (a : Arena κ) (name : κ) (b : Nat) : Arena κ :=
  match a.box? name with
  | some old => ((a.unbind name).bind name b).abandon old
  | none => a.bind name b

/-- Move a name from its box to one of its own, unless it is alone there already. -/
def detach (a : Arena κ) (name : κ) (b : Nat) : Nat × Arena κ :=
  if (a.box b).count = 1 then (b, a)
  else
    let (w, a) := (a.unbind name).leave b
    let (b, a) := a.enclose w
    (b, a.bind name b)

/-! ## Values from outside -/

/-- Where a value comes from. -/
inductive Source (κ : Type) where
  | scalar (s : Scalar)
  /-- A new payload. Its parts are values made before, counted from the one made last. -/
  | payload (p : Payload Nat)
  /-- A part of the value of a name, at the end of a path of positions. -/
  | part (name : κ) (path : List Nat)

/-- Make a value and put it in front of those made before. -/
def make (made : List Word × Arena κ) : Source κ → List Word × Arena κ
  | .scalar s => (.scalar s :: made.1, made.2)
  | .payload p =>
    let p := p.map (made.1.getD · .blank)
    let (w, cells) := (made.2.cells.retainAll p.parts).alloc p
    (w :: made.1, { made.2 with cells })
  | .part name path =>
    let w := ((made.2.box? name).bind fun b => made.2.cells.find? path (made.2.box b).word).getD
      .blank
    (w :: made.1, { made.2 with cells := made.2.cells.retain w })

/-- Make several values, the last of them in front. -/
def makeAll (a : Arena κ) (recipe : List (Source κ)) : List Word × Arena κ :=
  recipe.foldl make ([], a)

/-! ## Commands -/

/-- One step of a run. Its recipe makes the values that the step needs; the one made last is the
value to be held. -/
inductive Command (κ ε : Type) where
  | put (name : κ) (recipe : List (Source κ))
  | copy (name as : κ)
  | drop (name : κ)
  | take (name : κ)
  | replace (name : κ) (recipe : List (Source κ))
  | write (name : κ) (recipe : List (Source κ)) (misplaced : ε) (revision : Revision ε)

/-- A copy of the value made last, in a new box. -/
def encloseMade (a : Arena κ) (news : List Word) : Nat × Arena κ :=
  let w := news.headD .blank
  { a with cells := a.cells.retain w }.enclose w

/-- Let a name hold the value made last in a new box. -/
def put (a : Arena κ) (name : κ) (news : List Word) : Arena κ :=
  let (b, a) := a.encloseMade news
  a.rebind name b

/-- Let a name hold the value made last in a new box, and give up the old one. -/
def replace (a : Arena κ) (name : κ) (b : Nat) (news : List Word) : Value × Arena κ :=
  let (new, a) := a.encloseMade news
  let (w, a) := ((a.unbind name).bind name new).leave b
  (a.cells.read w, a.discard [w])

/-- Give up a name and its value. -/
def take (a : Arena κ) (name : κ) (b : Nat) : Value × Arena κ :=
  let (w, a) := (a.unbind name).leave b
  (a.cells.read w, a.discard [w])

/-- Change the value of a name in a box of its own. -/
def write (a : Arena κ) (name : κ) (b : Nat) (news : List Word) (misplaced : ε)
    (revision : Revision ε) : Except ε Unit × Arena κ :=
  let (b, a) := a.detach name b
  let (outcome, w, cells) := a.cells.revise misplaced news revision (a.box b).word
  (outcome, { a with boxes := a.boxes.set b { a.box b with word := w }, cells })

/-- Carry out a step. What it made beside is given up at its end. -/
def perform (a : Arena κ) : Command κ ε → Holders.Outcome ε × Arena κ
  | .put name recipe =>
    let (news, a) := a.makeAll recipe
    (.done, (a.put name news).discard news)
  | .copy name as =>
    match a.box? name with
    | some b => (.done, (a.share b).rebind as b)
    | none => (.missing, a)
  | .drop name =>
    match a.box? name with
    | some b => (.done, (a.unbind name).abandon b)
    | none => (.done, a)
  | .take name =>
    match a.box? name with
    | some b =>
      let (v, a) := a.take name b
      (.gave v, a)
    | none => (.missing, a)
  | .replace name recipe =>
    match a.box? name with
    | some b =>
      let (news, a) := a.makeAll recipe
      let (v, a) := a.replace name b news
      (.gave v, a.discard news)
    | none => (.missing, a)
  | .write name recipe misplaced revision =>
    match a.box? name with
    | some b =>
      let (news, a) := a.makeAll recipe
      let (outcome, a) := a.write name b news misplaced revision
      (.ofWrite outcome, a.discard news)
    | none => (.missing, a)

end Arena

end TypedTree
