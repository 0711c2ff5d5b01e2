import TypedTree.Holder.Payload
import Mathlib.Data.List.GetD

/-!
# Counted cells

A memory of payloads in which equal parts of values are kept once. A `Word` stands for a value: a
scalar stands directly, and everything else is a reference to a cell. A cell counts the references
to it. Giving up the last one frees the cell and gives up what it refers to.

A payload that is referred to twice is never changed. To be changed it is taken out of its cell
first: in place if the reference is the only one, as a copy for a new cell otherwise.

## Main definitions

* `Word`, `Cell`, `Cells`: the memory.
* `Cells.retain`, `Cells.release`: one more reference, and the end of some.
* `Cells.lend`, `Cells.fill`: take a payload out for a change, and put one in.
* `Cells.alloc`: a payload in a new cell.
* `Cells.read`, `Cells.find?`: the value of a word, and the words inside it.
-/

namespace TypedTree

/-- What stands for a value in memory. -/
inductive Word where
  | scalar (s : Scalar)
  /-- A reference to a cell. -/
  | ref (c : Nat)
  deriving DecidableEq

/-- The word of the void value. -/
def Word.blank : Word :=
  .scalar .void

/-- A payload and the number of references to it. -/
structure Cell where
  count : Nat
  payload : Payload Word

/-- A cell that is free or that waits for a payload. -/
def Cell.vacant : Cell :=
  ⟨0, .text ""⟩

@[simp] theorem Cell.parts_vacant : Cell.vacant.payload.parts = [] := rfl

/-- The cells of a memory. A reference counts from the first. -/
abbrev Cells := List Cell

namespace Cells

/-- The cell that a reference is about. Behind the last cell everything is vacant. -/
def cell (h : Cells) (c : Nat) : Cell :=
  h.getD c .vacant

/-- All references and scalars inside the cells. -/
def inner (h : Cells) : List Word :=
  h.flatMap (·.payload.parts)

/-- Set the count of a cell. -/
def recount (h : Cells) (c n : Nat) : Cells :=
  h.set c { h.cell c with count := n }

/-- One more reference. -/
def retain (h : Cells) : Word → Cells
  | .scalar _ => h
  | .ref c => h.recount c ((h.cell c).count + 1)

/-- One more reference for each of some words. -/
def retainAll (h : Cells) : List Word → Cells
  | [] => h
  | w :: ws => (h.retain w).retainAll ws

/-- Put a payload into a vacant cell and refer to it once. -/
def fill (h : Cells) (c : Nat) (p : Payload Word) : Cells :=
  h.set c ⟨1, p⟩

/-- A memory with one more cell, which is vacant. -/
def reserve (h : Cells) : Cells :=
  h ++ [.vacant]

/-- A payload in a new cell. -/
def alloc (h : Cells) (p : Payload Word) : Word × Cells :=
  (.ref h.length, h.reserve.fill h.length p)

/-! ## Lookups -/

theorem getD_set {α : Type} {xs : List α} {i j : Nat} {x y : α} (bound : i < xs.length) :
    (xs.set i x).getD j y = if j = i then x else xs.getD j y := by
  by_cases same : j = i
  · simp [same, bound]
  · simp [same, List.getD_eq_getElem?_getD, List.getElem?_set_ne (Ne.symm same)]

theorem getD_concat {α : Type} {xs : List α} {j : Nat} {x y : α} :
    (xs ++ [x]).getD j y = if j = xs.length then x else xs.getD j y := by
  rcases Nat.lt_trichotomy j xs.length with within | last | beyond
  · rw [List.getD_append _ _ _ _ within, if_neg (Nat.ne_of_lt within)]
  · simp [last]
  · rw [if_neg (Nat.ne_of_gt beyond), List.getD_eq_default _ _ (Nat.le_of_lt beyond),
      List.getD_eq_default _ _ (by rw [List.length_append]; exact beyond)]

variable {h : Cells} {c d : Nat} {x : Cell}

theorem cell_set (bound : c < h.length) :
    cell (h.set c x) d = if d = c then x else h.cell d :=
  getD_set bound

@[simp] theorem cell_reserve : h.reserve.cell c = h.cell c := by
  refine getD_concat.trans ?_
  split
  · rename_i last
    exact (List.getD_eq_default _ _ (Nat.le_of_eq last.symm)).symm
  · rfl

/-- A cell that is not vacant is one of the cells. -/
theorem lt_length_of_ne_vacant (h' : h.cell c ≠ .vacant) : c < h.length := by
  by_contra beyond
  exact h' (List.getD_eq_default _ _ (by omega))

theorem lt_length_of_count (h' : (h.cell c).count ≠ 0) : c < h.length :=
  lt_length_of_ne_vacant fun vacant => h' (by rw [vacant]; rfl)

/-- A word inside a cell is inside the memory. -/
theorem mem_inner {w : Word} (mem : w ∈ (h.cell c).payload.parts) : w ∈ h.inner := by
  have bound : c < h.length := lt_length_of_ne_vacant fun vacant => by simp [vacant] at mem
  have here : h.cell c = h[c] := List.getD_eq_getElem _ _ bound
  exact List.mem_flatMap.2 ⟨h[c], List.getElem_mem bound, here ▸ mem⟩

/-- Another payload in one cell exchanges the words inside that cell. -/
theorem inner_set_perm (bound : c < h.length) (x : Cell) :
    ((h.cell c).payload.parts ++ inner (h.set c x)).Perm (x.payload.parts ++ h.inner) := by
  have here : h.cell c = h[c] := List.getD_eq_getElem _ _ bound
  have before : h.inner.Perm (h[c].payload.parts ++ inner (h.eraseIdx c)) :=
    (List.getElem_cons_eraseIdx_perm bound).symm.flatMap_right _
  have after : (inner (h.set c x)).Perm (x.payload.parts ++ inner (h.eraseIdx c)) :=
    (List.set_perm_cons_eraseIdx bound x).flatMap_right _
  rw [here]
  refine (after.append_left _).trans (.trans ?_ (before.append_left _).symm)
  rw [← List.append_assoc, ← List.append_assoc]
  exact List.perm_append_comm.append_right _

theorem inner_recount_perm (h : Cells) (c n : Nat) : (h.recount c n).inner.Perm h.inner := by
  by_cases bound : c < h.length
  · exact (List.perm_append_left_iff _).1 (inner_set_perm bound { h.cell c with count := n })
  · rw [recount, List.set_eq_of_length_le (by omega)]

@[simp] theorem inner_reserve : h.reserve.inner = h.inner := by
  simp [inner, reserve]

/-! ## The end of references -/

/-- Give up references. The last reference to a cell frees the cell and gives up what is in it. -/
def release (h : Cells) : List Word → Cells
  | [] => h
  | .scalar _ :: ws => h.release ws
  | .ref c :: ws =>
    if last : (h.cell c).count = 1 then
      release (h.set c .vacant) ((h.cell c).payload.parts ++ ws)
    else (h.recount c ((h.cell c).count - 1)).release ws
termination_by ws => ws.length + h.inner.length
decreasing_by
  · simp
  -- the words of a freed cell are counted on the other side, and its own reference is gone
  · have bound := lt_length_of_count (h := h) (c := c) (by omega)
    have moved := (inner_set_perm bound .vacant).length_eq
    simp only [Cell.parts_vacant, List.length_append, List.length_nil] at moved
    simp only [List.length_append, List.length_cons]
    omega
  · simp [(inner_recount_perm ..).length_eq]

/-- Take the payload of a cell out for a change, and tell which cell to fill with it. The only
reference to a cell may change the payload in place. With more references the payload is copied
for a new cell and one reference to the old cell is given up. -/
def lend (h : Cells) (c : Nat) : Nat × Payload Word × Cells :=
  let p := (h.cell c).payload
  if (h.cell c).count = 1 then (c, p, h.set c .vacant)
  else
    let h := h.retainAll p.parts
    (h.length, p, (h.recount c ((h.cell c).count - 1)).reserve)

/-! ## Reading -/

/-- The value of a word, if no chain of references from it is longer than a bound. -/
def readWithin (h : Cells) : Nat → Word → Value
  | _, .scalar s => s.value
  | 0, .ref _ => .void
  | n + 1, .ref c => ((h.cell c).payload.map (h.readWithin n)).value

/-- The value of a word. No chain of references is longer than the memory. -/
def read (h : Cells) (w : Word) : Value :=
  h.readWithin h.length w

/-- The word inside another one at the end of a path of positions. -/
def find? (h : Cells) : List Nat → Word → Option Word
  | [], w => some w
  | i :: is, .ref c => (h.cell c).payload.parts[i]?.bind (h.find? is)
  | _ :: _, .scalar _ => none

end Cells
end TypedTree
