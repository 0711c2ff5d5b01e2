import TypedTree.Holder.Cells

/-!
# Changes inside a value

A change goes down into a value through payloads of expected forms and ends by putting a prepared
value in place or by changing a payload as a whole. On plain values the result is a new value. In
memory every payload on the way is taken out of its cell, and so what is shared is copied. Payloads
that were copied on the way stay copies when the change is refused further down.

## Main definitions

* `Revision`: the changes.
* `Revision.apply`: a change of a value.
* `Cells.revise`: the same change in memory.
-/

namespace TypedTree

/-- A change inside a value. -/
inductive Revision (ε : Type) where
  /-- Put the prepared value at a position in place of the old one. -/
  | assign (i : Nat)
  /-- Change a payload of a form. The change sees the parts of the payload and the prepared values.
  It says by positions what is to stand in the places of the new payload: the parts are counted
  first, and the prepared values after them. -/
  | change (form : Form) (f : Payload Value → List Value → Except ε (Payload Nat))
  /-- Change the part at a position of a payload of a form. -/
  | inside (form : Form) (i : Nat) (rest : Revision ε)

variable {ε : Type}

/-- Change the payload of a value of a form. -/
def Value.within (misplaced : ε) (form : Form)
    (change : Payload Value → Except ε (Payload Value)) (v : Value) : Except ε Value :=
  match v.payload? with
  | some p => if p.form? = some form then (change p).map (·.value) else .error misplaced
  | none => .error misplaced

/-- Change a value. The error `misplaced` is for a place that the value does not have. -/
def Revision.apply (misplaced : ε) (news : List Value) : Revision ε → Value → Except ε Value
  | .assign i, _ => .ok (news.getD i .void)
  | .change form f, v => v.within misplaced form fun p =>
    (f p news).map fun q => q.map ((p.parts ++ news).getD · .void)
  | .inside form i rest, v => v.within misplaced form fun p =>
    match p.part? i with
    | some x => (rest.apply misplaced news x).map (p.setPart i ·)
    | none => .error misplaced

namespace Cells

/-- Change the payload of a word of a form, as the only one who refers to it. -/
def within (misplaced : ε) (form : Form)
    (change : Payload Word → Cells → Except ε Unit × Payload Word × Cells) (w : Word) (h : Cells) :
    Except ε Unit × Word × Cells :=
  match w with
  | .scalar _ => (.error misplaced, w, h)
  | .ref c =>
    if (h.cell c).payload.form? = some form then
      let (d, p, h) := h.lend c
      let (outcome, p, h) := change p h
      (outcome, .ref d, h.fill d p)
    else (.error misplaced, w, h)

/-- Change what a word stands for, and tell the word that stands for it then. -/
def revise (misplaced : ε) (news : List Word) :
    Revision ε → Word → Cells → Except ε Unit × Word × Cells
  | .assign i, w, h =>
    let new := news.getD i .blank
    (.ok (), new, (h.retain new).release [w])
  | .change form f, w, h => within misplaced form (fun p h =>
    match f (p.map h.read) (news.map h.read) with
    | .ok q =>
      let q := q.map ((p.parts ++ news).getD · .blank)
      (.ok (), q, (h.retainAll q.parts).release p.parts)
    | .error e => (.error e, p, h)) w h
  | .inside form i rest, w, h => within misplaced form (fun p h =>
    match p.part? i with
    | some x =>
      let (outcome, x, h) := revise misplaced news rest x h
      (outcome, p.setPart i x, h)
    | none => (.error misplaced, p, h)) w h

end Cells

end TypedTree
