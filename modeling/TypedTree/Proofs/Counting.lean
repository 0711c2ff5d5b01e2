import TypedTree.Holder.Revision
import Mathlib.Data.Finset.Card
import Mathlib.Data.Finset.Range
import Mathlib.Data.List.Count
import Mathlib.Logic.Function.Basic

/-!
# Counted cells are sound

A memory is sound for the words that are held outside of it when every count is the number of words
that refer to the cell, inside and outside, and when the cells have values: a table of values in
which each cell has the value that its payload has there. The table is not stored. It is what
reading a word gives, and every operation on cells is shown to keep it for the words that are held.

## Main definitions

* `Word.value`: the value of a word by a table.
* `Cells.Sound`: the invariant.

## Main statements

* `Cells.Sound.retainAll`, `Cells.Sound.release`: references begin and end.
* `Cells.Sound.lend`, `Cells.Sound.fill`: payloads are taken out and put in.
* `Cells.Sound.read`: reading gives the value by the table.
-/

namespace TypedTree

/-- The value of a word, when the cells have values. -/
def Word.value (values : Nat → Value) : Word → Value
  | .scalar s => s.value
  | .ref c => values c

@[simp] theorem Word.value_scalar (values : Nat → Value) (s : Scalar) :
    (Word.scalar s).value values = s.value := rfl

@[simp] theorem Word.value_ref (values : Nat → Value) (c : Nat) :
    (Word.ref c).value values = values c := rfl

/-- The value of a payload, when the cells have values. -/
def Payload.valueBy (values : Nat → Value) (p : Payload Word) : Value :=
  (p.map (Word.value values)).value

namespace Cells

/-- A memory in order. The words held outside are `held`, and the cells in `lent` wait for a
payload. -/
structure Sound (h : Cells) (lent : List Nat) (held : List Word) (values : Nat → Value) : Prop where
  /-- A count is the number of words that refer to the cell. -/
  counted : ∀ c, (h.cell c).count = (held ++ h.inner).count (.ref c)
  valued : ∀ c, (h.cell c).count ≠ 0 → values c = (h.cell c).payload.valueBy values
  freed : ∀ c, (h.cell c).count = 0 → h.cell c = .vacant
  waiting : ∀ c ∈ lent, c < h.length ∧ h.cell c = .vacant
  lent_nodup : lent.Nodup

/-- A word that may be used: what it refers to is not free. -/
def Live (h : Cells) (w : Word) : Prop :=
  ∀ c, w = .ref c → (h.cell c).count ≠ 0

theorem live_blank (h : Cells) : h.Live .blank := by
  intro c is_ref
  cases is_ref

variable {h : Cells} {lent lent' : List Nat} {held held' : List Word} {values values' : Nat → Value}
  {w : Word} {c d n : Nat} {p : Payload Word}

/-! ## Counts -/

theorem cell_recount (bound : c < h.length) :
    (h.recount c n).cell d = if d = c then { h.cell c with count := n } else h.cell d :=
  cell_set bound

theorem sound_empty : Sound [] [] [] values where
  counted := fun c => rfl
  valued := fun c live => absurd rfl live
  freed := fun c _ => rfl
  waiting := by simp
  lent_nodup := .nil

namespace Sound

theorem perm (sound : h.Sound lent held values) (perm : held.Perm held') :
    h.Sound lent held' values where
  counted := fun c => by rw [sound.counted, (perm.append_right _).count_eq]
  valued := sound.valued
  freed := sound.freed
  waiting := sound.waiting
  lent_nodup := sound.lent_nodup

/-- Scalars are held or not without any difference. -/
theorem scalar_iff {s : Scalar} :
    h.Sound lent (.scalar s :: held) values ↔ h.Sound lent held values := by
  constructor <;> intro sound <;>
    exact ⟨fun c => by simpa using sound.counted c, sound.valued, sound.freed, sound.waiting,
      sound.lent_nodup⟩

theorem count_ne_zero (sound : h.Sound lent held values) (mem : .ref c ∈ held ++ h.inner) :
    (h.cell c).count ≠ 0 := by
  rw [sound.counted]
  exact Nat.pos_iff_ne_zero.1 (List.count_pos_iff.2 mem)

/-- A word that is held may be used. -/
theorem live (sound : h.Sound lent held values) (mem : w ∈ held) : h.Live w :=
  fun _ is_ref => sound.count_ne_zero (List.mem_append_left _ (is_ref ▸ mem))

/-- A word inside a cell may be used. -/
theorem live_of_mem_parts (sound : h.Sound lent held values)
    (mem : w ∈ (h.cell c).payload.parts) : h.Live w := fun _ is_ref =>
  sound.count_ne_zero (List.mem_append_right _ (is_ref ▸ mem_inner mem))

theorem not_mem_lent (sound : h.Sound lent held values) (live : (h.cell c).count ≠ 0) :
    c ∉ lent := by
  intro mem
  exact live (by rw [(sound.waiting c mem).2]; rfl)

/-- Another cell in one place. The counts stay exact when the words that come into the memory and
go out of it are made up for by the count of the cell. -/
theorem set {x : Cell} (sound : h.Sound lent held values) (bound : c < h.length)
    (counts : ∀ d, (if d = c then x.count else (h.cell d).count) +
        held.count (.ref d) + (h.cell c).payload.parts.count (.ref d) =
      (h.cell d).count + held'.count (.ref d) + x.payload.parts.count (.ref d))
    (here : x.count ≠ 0 → values' c = x.payload.valueBy values')
    (elsewhere : ∀ d, d ≠ c → (h.cell d).count ≠ 0 →
      values' d = (h.cell d).payload.valueBy values')
    (freed : x.count = 0 → x = .vacant)
    (waiting : ∀ d ∈ lent', d ≠ c ∧ d ∈ lent ∨ d = c ∧ x = .vacant) (nodup : lent'.Nodup) :
    Sound (h.set c x) lent' held' values' := by
  constructor
  · intro d
    have moved := (inner_set_perm bound x).count_eq (Word.ref d)
    have before := sound.counted d
    have balance := counts d
    simp only [List.count_append] at moved before
    rw [cell_set bound, apply_ite Cell.count, List.count_append]
    omega
  · intro d
    rw [cell_set bound]
    by_cases same : d = c
    · subst same
      simpa using here
    · simpa [same] using elsewhere d same
  · intro d
    rw [cell_set bound]
    by_cases same : d = c
    · simpa [same] using freed
    · simpa [same] using sound.freed d
  · intro d mem
    rw [cell_set bound, List.length_set]
    rcases waiting d mem with ⟨other, mem⟩ | ⟨rfl, vacant⟩
    · simpa [other] using sound.waiting d mem
    · simpa [vacant] using bound
  · exact nodup

/-- What was lent may as well stay vacant. -/
theorem forget (sound : h.Sound (c :: lent) held values) : h.Sound lent held values :=
  { sound with
    waiting := fun d mem => sound.waiting d (List.mem_cons_of_mem _ mem)
    lent_nodup := (List.nodup_cons.1 sound.lent_nodup).2 }

/-- Another count for a cell in use, with as many words referring to it. -/
theorem recount (sound : h.Sound lent held values) (live : (h.cell c).count ≠ 0) (some : n ≠ 0)
    (here : n + held.count (.ref c) = (h.cell c).count + held'.count (.ref c))
    (elsewhere : ∀ d, d ≠ c → held'.count (.ref d) = held.count (.ref d)) :
    (h.recount c n).Sound lent held' values := by
  refine sound.set (lt_length_of_count live) (fun d => ?_) (fun _ => sound.valued c live)
    (fun d _ => sound.valued d) (fun zero => absurd zero some) (fun d mem => .inl ⟨?_, mem⟩)
    sound.lent_nodup
  · by_cases same : d = c
    · subst same
      simp only [if_true]
      omega
    · simp only [same, if_false, elsewhere d same]
  · rintro rfl
    exact sound.not_mem_lent live mem

/-- One more reference to what is in use. -/
theorem retain (sound : h.Sound lent held values) (live : h.Live w) :
    (h.retain w).Sound lent (w :: held) values := by
  cases w with
  | scalar s => exact scalar_iff.2 sound
  | ref c =>
    refine sound.recount (live c rfl) (Nat.succ_ne_zero _) ?_ fun d other => ?_
    · simp
      omega
    · simp [Ne.symm other]

/-- Giving up a reference that is not the last. -/
theorem lower (sound : h.Sound lent (.ref c :: held) values) (more : (h.cell c).count ≠ 1) :
    (h.recount c ((h.cell c).count - 1)).Sound lent held values := by
  have live : (h.cell c).count ≠ 0 := sound.live (List.mem_cons_self ..) c rfl
  refine sound.recount live (by omega) ?_ fun d other => ?_
  · simp
    omega
  · simp [Ne.symm other]

theorem live_retain (live : h.Live w) {u : Word} (live' : h.Live u) : (h.retain w).Live u := by
  cases w with
  | scalar s => exact live'
  | ref c =>
    intro d is_ref
    rw [Cells.retain, cell_recount (lt_length_of_count (live c rfl))]
    split
    · exact Nat.succ_ne_zero _
    · exact live' d is_ref

/-- One more reference for each of some words in use. -/
theorem retainAll {ws : List Word} (sound : h.Sound lent held values)
    (live : ∀ w ∈ ws, h.Live w) : (h.retainAll ws).Sound lent (ws ++ held) values := by
  induction ws generalizing h held with
  | nil => exact sound
  | cons w ws ih =>
    have first := live w (List.mem_cons_self ..)
    have rest := ih (sound.retain first) fun u mem =>
      live_retain first (live u (List.mem_cons_of_mem _ mem))
    exact rest.perm List.perm_middle

/-! ## Payloads -/

/-- Taking the payload out of a cell with one reference. The parts are held instead. -/
theorem vacate (sound : h.Sound lent (.ref c :: held) values) (last : (h.cell c).count = 1) :
    Sound (h.set c .vacant) (c :: lent) ((h.cell c).payload.parts ++ held) values := by
  have live : (h.cell c).count ≠ 0 := by omega
  have fresh := sound.not_mem_lent live
  refine sound.set (lt_length_of_count live) (fun d => ?_) (fun some => absurd rfl some)
    (fun d _ => sound.valued d) (fun _ => rfl) (fun d mem => ?_)
    (List.nodup_cons.2 ⟨fresh, sound.lent_nodup⟩)
  · rw [Cell.parts_vacant, List.count_nil, List.count_append, List.count_cons]
    by_cases same : d = c
    · subst same
      simp [last, Cell.vacant]
      omega
    · simp [same, Ne.symm same]
      omega
  · rcases List.mem_cons.1 mem with rfl | mem
    · exact .inr ⟨rfl, rfl⟩
    · exact .inl ⟨fun same => fresh (same ▸ mem), mem⟩

/-- Giving up words. -/
theorem release (ws : List Word) (sound : h.Sound lent (ws ++ held) values) :
    (h.release ws).Sound lent held values := by
  -- along the release itself; the parts of a freed cell join the words to be given up
  induction h, ws using Cells.release.induct with
  | case1 h => rwa [Cells.release]
  | case2 h s ws ih =>
    rw [Cells.release]
    exact ih (scalar_iff.1 sound)
  | case3 h c ws last ih =>
    rw [Cells.release, dif_pos last]
    exact ih (by rw [List.append_assoc]; exact (sound.vacate last).forget)
  | case4 h c ws more ih =>
    rw [Cells.release, dif_neg more]
    exact ih (sound.lower more)

/-- A new cell waits for a payload. -/
theorem reserve (sound : h.Sound lent held values) :
    h.reserve.Sound (h.length :: lent) held values := by
  have longer : h.reserve.length = h.length + 1 := by simp [Cells.reserve]
  constructor
  · simpa using sound.counted
  · simpa using sound.valued
  · simpa using sound.freed
  · intro d mem
    rw [cell_reserve, longer]
    rcases List.mem_cons.1 mem with rfl | mem
    · exact ⟨Nat.lt_succ_self _, List.getD_eq_default _ _ (Nat.le_refl _)⟩
    · exact ⟨(sound.waiting d mem).1.trans (Nat.lt_succ_self _), (sound.waiting d mem).2⟩
  · exact List.nodup_cons.2 ⟨fun mem => (sound.waiting _ mem).1.false, sound.lent_nodup⟩

theorem count_le_retainAll (ws : List Word) :
    (h.cell c).count ≤ ((h.retainAll ws).cell c).count := by
  induction ws generalizing h with
  | nil => exact Nat.le_refl _
  | cons w ws ih =>
    refine Nat.le_trans ?_ ih
    cases w with
    | scalar s => exact Nat.le_refl _
    | ref d =>
      by_cases bound : d < h.length
      · rw [Cells.retain, cell_recount bound]
        by_cases same : c = d <;> simp [same]
      · rw [Cells.retain, Cells.recount, List.set_eq_of_length_le (by omega)]

/-- A lent payload is held part by part, and the cell that it is to go to waits for it. -/
theorem lend (sound : h.Sound lent (.ref c :: held) values) :
    (h.lend c).2.2.Sound ((h.lend c).1 :: lent) ((h.cell c).payload.parts ++ held) values := by
  unfold Cells.lend
  by_cases last : (h.cell c).count = 1
  · simp only [last, if_true]
    exact sound.vacate last
  · simp only [last, if_false]
    have live_parts : ∀ w ∈ (h.cell c).payload.parts, h.Live w := fun w mem =>
      sound.live_of_mem_parts mem
    -- the parts are retained first, so that they outlive the reference that is given up
    have copied := sound.retainAll live_parts
    have live : (h.cell c).count ≠ 0 := sound.live (List.mem_cons_self ..) c rfl
    have more : ((h.retainAll (h.cell c).payload.parts).cell c).count ≠ 1 := by
      have := count_le_retainAll (h := h) (c := c) (h.cell c).payload.parts
      omega
    have lowered := (copied.perm List.perm_middle).lower more
    have reserved := lowered.reserve
    rwa [Cells.recount, List.length_set] at reserved

@[simp] theorem lend_payload : (h.lend c).2.1 = (h.cell c).payload := by
  unfold Cells.lend
  split <;> rfl

/-- A new value for a cell that is not in use changes no word. -/
theorem value_update {v : Value} (sound : h.Sound lent held values) (vacant : h.cell c = .vacant)
    (mem : w ∈ held ++ h.inner) : w.value (Function.update values c v) = w.value values := by
  cases w with
  | scalar s => rfl
  | ref d =>
    have live := sound.count_ne_zero mem
    have other : d ≠ c := by
      rintro rfl
      exact live (by rw [vacant]; rfl)
    exact Function.update_of_ne other _ _

/-- Putting a payload into a cell that waits. A reference to the cell is held instead of the
parts. -/
theorem fill (sound : h.Sound (d :: lent) (p.parts ++ held) values) :
    (h.fill d p).Sound lent (.ref d :: held) (Function.update values d (p.valueBy values)) := by
  obtain ⟨bound, vacant⟩ := sound.waiting d (List.mem_cons_self ..)
  have same_by : ∀ q : Payload Word, (∀ w ∈ q.parts, w ∈ p.parts ++ held ++ h.inner) →
      q.valueBy (Function.update values d (p.valueBy values)) = q.valueBy values := fun q inside =>
    congrArg Payload.value (Payload.map_congr fun w mem => sound.value_update vacant (inside w mem))
  have nodup := List.nodup_cons.1 sound.lent_nodup
  refine sound.set bound (fun e => ?_) (fun _ => ?_) (fun e other live => ?_)
    (fun zero => absurd zero Nat.one_ne_zero) (fun e mem => .inl ⟨?_, ?_⟩) nodup.2
  · rw [vacant, Cell.parts_vacant, List.count_nil, List.count_append, List.count_cons]
    by_cases same : e = d
    · subst same
      simp [vacant, Cell.vacant]
      omega
    · simp [same, Ne.symm same]
      omega
  · rw [Function.update_self]
    exact (same_by p fun w mem => by simp [mem]).symm
  · rw [Function.update_of_ne other, same_by _ fun w mem => List.mem_append_right _ (mem_inner mem)]
    exact sound.valued e live
  · rintro rfl
    exact nodup.1 mem
  · exact List.mem_cons_of_mem _ mem

/-! ## Reading -/

/-- A part of a cell in use has a smaller value than the cell. -/
theorem sizeOf_lt (sound : h.Sound lent held values) (live : (h.cell c).count ≠ 0)
    (mem : w ∈ (h.cell c).payload.parts) :
    sizeOf (w.value values) < sizeOf (values c) := by
  rw [sound.valued c live]
  exact Payload.sizeOf_lt_of_mem_parts (by simpa using List.mem_map_of_mem mem)

/-- The cells whose values are at most as large as a value. -/
private noncomputable def upTo (h : Cells) (values : Nat → Value) (v : Value) : Finset Nat :=
  {c ∈ Finset.range h.length | sizeOf (values c) ≤ sizeOf v}

private theorem mem_upTo {v : Value} :
    c ∈ upTo h values v ↔ c < h.length ∧ sizeOf (values c) ≤ sizeOf v := by
  simp [upTo]

/-- Reading gives the value by the table, if the bound counts all values at most as large. The
cells on a chain of references have smaller and smaller values. -/
theorem readWithin (sound : h.Sound lent held values) (live : h.Live w)
    (enough : (upTo h values (w.value values)).card ≤ n) : h.readWithin n w = w.value values := by
  induction n generalizing w with
  | zero =>
    cases w with
    | scalar s => rfl
    | ref c =>
      have itself : c ∈ upTo h values (values c) :=
        mem_upTo.2 ⟨lt_length_of_count (live c rfl), Nat.le_refl _⟩
      exact absurd enough (Nat.not_le.2 (Finset.card_pos.2 ⟨c, itself⟩))
  | succ n ih =>
    cases w with
    | scalar s => rfl
    | ref c =>
      rw [Cells.readWithin, Word.value_ref, sound.valued c (live c rfl)]
      refine congrArg Payload.value (Payload.map_congr fun x mem => ?_)
      refine ih (sound.live_of_mem_parts mem) (Nat.le_of_lt_succ (Nat.lt_of_lt_of_le ?_ enough))
      have smaller := sound.sizeOf_lt (live c rfl) mem
      -- what is at most as large as the part lacks `c` itself, so one step less is enough
      refine Finset.card_lt_card ⟨fun e inside => ?_, fun all => ?_⟩
      · obtain ⟨bound, le⟩ := mem_upTo.1 inside
        exact mem_upTo.2 ⟨bound, le.trans smaller.le⟩
      · have itself : c ∈ upTo h values (values c) :=
          mem_upTo.2 ⟨lt_length_of_count (live c rfl), Nat.le_refl _⟩
        have small := (mem_upTo.1 (all itself)).2
        omega

/-- Reading gives the value by the table. -/
theorem read (sound : h.Sound lent held values) (live : h.Live w) : h.read w = w.value values := by
  refine sound.readWithin live ?_
  exact (Finset.card_filter_le _ _).trans (Finset.card_range _).le

end Sound

end Cells
end TypedTree
