import TypedTree.Ident.Handle

/-!
# Interning

An `Interner` gives each distinct text a `Handle` for good. A function from texts to shards,
chosen when the interner is made, spreads the texts. A shard keeps its texts in order of arrival
and, for the way back, a table from each text to its slot, which is its place in that order.
Nothing is ever removed.

## Main definitions

* `Shard`: the texts of one shard and their slots.
* `Interner`: the shards, and how many texts they hold in all.
* `Interner.intern`: the handle of a text, adding the text if it is new.
* `Interner.get?`, `Interner.lookup`: from text to handle and back, adding nothing.
-/

namespace TypedTree

/-- A part of an interner. -/
structure Shard where
  /-- The slot of every text, the newest entry first. -/
  slots : List (String × UInt32)
  /-- The texts, by slot. -/
  texts : List String

namespace Shard

/-- A shard that holds nothing. -/
def empty : Shard := ⟨[], []⟩

/-- The slot of a text. -/
def slot? (s : Shard) (text : String) : Option UInt32 :=
  s.slots.lookup text

/-- Enter a new text under a slot. -/
def add (s : Shard) (text : String) (slot : UInt32) : Shard :=
  ⟨(text, slot) :: s.slots, s.texts ++ [text]⟩

end Shard

/-- A table of interned texts. -/
structure Interner where
  /-- The shard a text belongs to. -/
  shardOf : String → Fin Handle.shardCount
  shards : Vector Shard Handle.shardCount
  /-- How many texts there are in all. -/
  size : Nat

namespace Interner

/-- A shard that has no slot left for a new text. -/
structure ShardFull where
  shard : Nat
  held : Nat
  deriving DecidableEq, Repr

/-- The sentence shown for a full shard. -/
def ShardFull.message (e : ShardFull) : String :=
  "identifier shard " ++ toString e.shard ++ " is full (" ++ toString e.held ++
    " texts, at most " ++ toString Handle.maxSlot.toNat ++ ")"

/-- An interner that holds nothing. -/
def empty (shardOf : String → Fin Handle.shardCount) : Interner :=
  ⟨shardOf, .replicate _ .empty, 0⟩

/-- The handle of the text in a slot of a shard. -/
def handle (shard : Fin Handle.shardCount) (slot : UInt32) : Handle :=
  .pack (.ofNat shard.val) slot

/-- The shard of a text. -/
def shard (t : Interner) (text : String) : Shard :=
  t.shards[t.shardOf text]

/-- The handle of a text that was interned before. -/
def get? (t : Interner) (text : String) : Option Handle :=
  ((t.shard text).slot? text).map (handle (t.shardOf text))

/-- Enter a new text under a slot of its shard. -/
def enter (t : Interner) (text : String) (slot : UInt32) : Interner :=
  { t with
    shards := t.shards.set (t.shardOf text) ((t.shard text).add text slot)
    size := t.size + 1 }

/-- The handle of a text. A new text takes the next slot of its shard. -/
def intern (t : Interner) (text : String) : Except ShardFull (Handle × Interner) :=
  match t.get? text with
  | some h => .ok (h, t)
  | none =>
    let held := (t.shard text).texts.length
    if held ≤ Handle.maxSlot.toNat then
      let slot := UInt32.ofNat held
      .ok (handle (t.shardOf text) slot, t.enter text slot)
    else
      .error ⟨(t.shardOf text).val, held⟩

/-- The text of a handle, empty for a handle that was never given out. -/
def lookup (t : Interner) (h : Handle) : String :=
  if isShard : h.shard < Handle.shardCount then t.shards[h.shard].texts[h.slot]?.getD "" else ""

/-- Whether nothing was interned yet. -/
def isEmpty (t : Interner) : Bool :=
  t.size == 0

end Interner

end TypedTree
