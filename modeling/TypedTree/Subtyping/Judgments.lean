import TypedTree.Inclusion

/-!
# Tables of judgments

A table of how pairs relate, to look up instead of working it out again. The pairs with the same
left side share a row, so that a look-up passes over whole rows.

## Main definitions

* `Judgments`: the tables.
* `Judgments.find?`, `Judgments.insert`: reading and extending one.
-/

namespace TypedTree

/-- How some pairs relate. -/
structure Judgments (κ : Type) where
  /-- For each left side, the right sides and the answers. -/
  rows : List (κ × List (κ × Inclusion))

namespace Judgments

variable {κ : Type}

/-- The table without judgments. -/
def empty : Judgments κ := ⟨[]⟩

/-- The number of judgments. -/
def size (t : Judgments κ) : Nat :=
  t.rows.foldr (fun row n => row.2.length + n) 0

variable [DecidableEq κ]

/-- How a pair relates, if the table says so. -/
def find? (t : Judgments κ) (a b : κ) : Option Inclusion :=
  (t.rows.lookup a).bind (·.lookup b)

/-- The rows with a judgment in front of the row for its left side. -/
def insertInto (a b : κ) (o : Inclusion) :
    List (κ × List (κ × Inclusion)) → List (κ × List (κ × Inclusion))
  | [] => [(a, [(b, o)])]
  | (c, row) :: rest =>
    if a = c then (c, (b, o) :: row) :: rest else (c, row) :: insertInto a b o rest

/-- The table with one more judgment. -/
def insert (t : Judgments κ) (a b : κ) (o : Inclusion) : Judgments κ :=
  ⟨insertInto a b o t.rows⟩

@[simp] theorem find?_empty (a b : κ) : (empty : Judgments κ).find? a b = none := rfl

/-- A new judgment is found for its pair, and all other pairs keep theirs. -/
theorem find?_insert (t : Judgments κ) (a b : κ) (o : Inclusion) (c d : κ) :
    (t.insert a b o).find? c d = if c = a ∧ d = b then some o else t.find? c d := by
  obtain ⟨rows⟩ := t
  simp only [find?, insert]
  induction rows with
  | nil => grind [insertInto]
  | cons row rows ih => grind [insertInto]

end Judgments

end TypedTree
