import TypedTree.Value

/-!
# Shared holders

Names can share a value without copying it. Each name points at a cell, and a cell holds the
value for every name that points at it. Copying a name shares its cell. Writing through a name
first moves the name to a cell of its own, so no other name sees the change; what is written may
still be refused after that move.

## Main definitions

* `Holders`: names and cells.
* `Holders.put`, `Holders.copy`, `Holders.drop`, `Holders.replace`, `Holders.write`: the steps.
* `Holders.Step`, `Holders.perform`: the steps as data.
* `Holders.value?`, `Holders.count`, `Holders.isUnique`, `Holders.isShared`: what can be seen.
-/

namespace TypedTree

/-- Names that hold values. -/
structure Holders (κ : Type) where
  /-- The cell that each live name points at; no name stands twice. -/
  cells : List (κ × Nat)
  /-- The values of the cells. -/
  values : Nat → Value
  /-- The next cell to be used. -/
  next : Nat

namespace Holders

variable {κ : Type} [DecidableEq κ]

/-- No names. -/
def empty : Holders κ := ⟨[], fun _ => .void, 0⟩

/-- The cell that a name points at. -/
def cell? (h : Holders κ) (name : κ) : Option Nat :=
  h.cells.lookup name

/-- The value that a name holds. -/
def value? (h : Holders κ) (name : κ) : Option Value :=
  (h.cell? name).map h.values

/-- How many names point at a cell. -/
def countCell (h : Holders κ) (cell : Nat) : Nat :=
  h.cells.countP (·.2 == cell)

/-- How many names share the cell of a name, the name itself included. -/
def count (h : Holders κ) (name : κ) : Nat :=
  match h.cell? name with
  | some cell => h.countCell cell
  | none => 0

/-- Whether a name is alone at its cell. -/
def isUnique (h : Holders κ) (name : κ) : Bool :=
  h.count name == 1

/-- Whether two names point at one cell. -/
def isShared (h : Holders κ) (a b : κ) : Bool :=
  (h.cell? a).isSome && h.cell? a == h.cell? b

/-- Give up a name. -/
def drop (h : Holders κ) (name : κ) : Holders κ :=
  { h with cells := h.cells.filter (·.1 != name) }

/-- Point a name at a cell. -/
def point (h : Holders κ) (name : κ) (cell : Nat) : Holders κ :=
  { h with cells := (name, cell) :: (h.drop name).cells }

/-- Let a name hold a value in a new cell. -/
def put (h : Holders κ) (name : κ) (v : Value) : Holders κ :=
  { h.point name h.next with
    values := fun c => if c = h.next then v else h.values c
    next := h.next + 1 }

/-- Let a second name share the cell of a first. -/
def copy? (h : Holders κ) (name as : κ) : Option (Holders κ) :=
  (h.cell? name).map (h.point as)

/-- Give up a name and keep its value. -/
def take? (h : Holders κ) (name : κ) : Option (Value × Holders κ) :=
  (h.value? name).map (·, h.drop name)

/-- Let a name hold another value in a new cell, and give back the old one. -/
def replace? (h : Holders κ) (name : κ) (v : Value) : Option (Value × Holders κ) :=
  (h.value? name).map (·, h.put name v)

/-- Move a name to a cell of its own, unless it is alone already. -/
def detach (h : Holders κ) (name : κ) : Holders κ :=
  match h.cell? name with
  | some cell => if h.countCell cell = 1 then h else h.put name (h.values cell)
  | none => h

/-- Write to the cell of a name. -/
def store (h : Holders κ) (name : κ) (v : Value) : Holders κ :=
  match h.cell? name with
  | some cell => { h with values := fun c => if c = cell then v else h.values c }
  | none => h

/-- Change the value of a name. The name is detached first, also if the change is then
refused. -/
def write {ε : Type} (h : Holders κ) (name : κ) (f : Value → Except ε Value) :
    Except ε Unit × Holders κ :=
  let h := h.detach name
  match h.value? name with
  | some v =>
    match f v with
    | .ok w => (.ok (), h.store name w)
    | .error e => (.error e, h)
  | none => (.ok (), h)

/-! ## Runs -/

/-- One step of a run. -/
inductive Step (κ ε : Type) where
  | put (name : κ) (v : Value)
  | copy (name as : κ)
  | drop (name : κ)
  | take (name : κ)
  | replace (name : κ) (v : Value)
  | write (name : κ) (f : Value → Except ε Value)

/-- What becomes of a step. -/
inductive Outcome (ε : Type) where
  | done
  /-- A value was given up. -/
  | gave (v : Value)
  /-- A name that the step is about holds nothing. -/
  | missing
  | refused (e : ε)

/-- What becomes of a write. -/
def Outcome.ofWrite {ε : Type} : Except ε Unit → Outcome ε
  | .ok () => .done
  | .error e => .refused e

/-- Carry out a step. -/
def perform {ε : Type} (h : Holders κ) : Step κ ε → Outcome ε × Holders κ
  | .put name v => (.done, h.put name v)
  | .copy name as =>
    match h.copy? name as with
    | some h' => (.done, h')
    | none => (.missing, h)
  | .drop name => (.done, h.drop name)
  | .take name =>
    match h.take? name with
    | some (v, h') => (.gave v, h')
    | none => (.missing, h)
  | .replace name v =>
    match h.replace? name v with
    | some (old, h') => (.gave old, h')
    | none => (.missing, h)
  | .write name f =>
    match h.cell? name with
    | some _ =>
      match h.write name f with
      | (.ok (), h') => (.done, h')
      | (.error e, h') => (.refused e, h')
    | none => (.missing, h)

end Holders

/-! ## Changes in place -/

/-- Why a change to a held value was refused. -/
inductive WriteError where
  /-- The value has another form than the change is for. -/
  | wrongKind
  | map (e : MapError)
  deriving DecidableEq, Repr

namespace Value

/-- Add an item to the end of an array or tuple. -/
def push (item : Value) : Value → Except WriteError Value
  | .array items => .ok (.array (items ++ [item]))
  | .tuple items => .ok (.tuple (items ++ [item]))
  | _ => .error .wrongKind

/-- Put content into the first slot of a record under a name, or into a new slot at the end. -/
def putField (id : Ident) (content : Option Value) : Value → Except WriteError Value
  | .record slots => .ok (.record (Slots.put slots id content))
  | _ => .error .wrongKind

/-- Give a variant another tag. -/
def setTag (tag : Ident) : Value → Except WriteError Value
  | .variant _ fields => .ok (.variant tag fields)
  | _ => .error .wrongKind

/-- Give a sum another index and leave its content. -/
def setIndex (index : UInt32) : Value → Except WriteError Value
  | .sum _ inner => .ok (.sum index inner)
  | _ => .error .wrongKind

/-- Give a sum another content and leave its index. -/
def setContent (inner : Value) : Value → Except WriteError Value
  | .sum index _ => .ok (.sum index inner)
  | _ => .error .wrongKind

/-- Add a binding to a generic value. -/
def addBinding (binding : TypeRef) : Value → Except WriteError Value
  | .generic bindings inner => .ok (.generic (bindings ++ [binding]) inner)
  | _ => .error .wrongKind

/-- Insert an entry into a mapping. -/
def insertEntry (pos : Nat) (e : Entry Value) : Value → Except WriteError Value
  | .map table => ((table.insert pos e).map .map).mapError .map
  | _ => .error .wrongKind

end Value

end TypedTree
