/-!
# Packed handles

An interned text is known by a `Handle`: one 32-bit word whose top four bits name a shard and
whose other bits name a slot in it. Handles are ordered as words, so by shard first and then by
slot.

## Main definitions

* `Handle`: the word.
* `Handle.pack`, `Handle.shard`, `Handle.slot`: to the word and back.
-/

namespace TypedTree

/-- A packed reference to an interned text. -/
structure Handle where
  word : UInt32
  deriving DecidableEq, Repr

namespace Handle

/-- How many shards the top bits can name. -/
def shardCount : Nat := 16

/-- How many bits of the word name a slot. -/
def slotBits : UInt32 := 28

/-- The largest slot of a shard. -/
def maxSlot : UInt32 := 0x0fffffff

/-- Put a shard and a slot into one word. -/
def pack (shard slot : UInt32) : Handle :=
  ⟨(shard <<< slotBits) ||| slot⟩

/-- The shard a handle names. -/
def shard (h : Handle) : Nat :=
  (h.word >>> slotBits).toNat

/-- The slot a handle names. -/
def slot (h : Handle) : Nat :=
  (h.word &&& maxSlot).toNat

/-- Handles are ordered as words. -/
def cmp (a b : Handle) : Ordering :=
  compare a.word b.word

/-- How a handle is shown to a programmer. -/
def describe (h : Handle) : String :=
  "Name(" ++ toString h.shard ++ ":" ++ toString h.slot ++ ")"

end Handle

end TypedTree
