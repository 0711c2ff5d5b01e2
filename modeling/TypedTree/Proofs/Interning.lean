import TypedTree.Ident.Interner
import TypedTree.Proofs.Outcome
import Mathlib.Algebra.Group.Nat.Defs
import Mathlib.Data.Finset.Card

/-!
# Names are for good

An interner takes requests one after the other: to intern a text, or to look whether one was
interned before. As long as no shard is asked for more texts than it has slots, every text that is
interned has one handle, no other text has the same, and what was once given out stays.

Within a shard the table of slots and the list of texts are inverse to each other, and this is kept
when a text is added to both. Handles of different shards differ in their top bits.

## Main definitions

* `Interner.Request`, `Interner.run`: what an interner is asked, and what it finds.
* `Interner.Holds`: whether an interner holds just the texts of a set.
* `Interner.Records`: what an interner knows after some requests.

## Main statements

* `Handle.toNat_pack`: packing puts the shard above the slot.
* `Interner.Holds.intern`: interning adds the text and leaves all handles as they are.
* `Interner.Records.request`: one more request.
* `Interner.interning_spec`: interning over whole runs.
-/

namespace TypedTree

/-! ## Packing -/

namespace Handle

variable {shard slot shard' slot' : UInt32}

/-- Whether a shard and a slot fit into one word. -/
def Fits (shard slot : UInt32) : Prop :=
  shard.toNat < shardCount ∧ slot ≤ maxSlot

theorem Fits.slot_lt (h : Fits shard slot) : slot.toNat < 2 ^ 28 :=
  Nat.lt_of_le_of_lt (UInt32.le_iff_toNat_le.1 h.2) (by decide)

/-- The shard stands above the slot. -/
theorem toNat_pack (h : Fits shard slot) :
    (pack shard slot).word.toNat = shard.toNat * 2 ^ 28 + slot.toNat := by
  have small : shard.toNat < 16 := h.1
  have shifted : (shard <<< slotBits).toNat = shard.toNat <<< 28 := by
    rw [UInt32.toNat_shiftLeft, show slotBits.toNat % 32 = 28 from rfl]
    refine Nat.mod_eq_of_lt ?_
    rw [Nat.shiftLeft_eq]
    omega
  rw [pack, UInt32.toNat_or, shifted, ← Nat.shiftLeft_add_eq_or_of_lt h.slot_lt, Nat.shiftLeft_eq]

theorem shard_pack (h : Fits shard slot) : (pack shard slot).shard = shard.toNat := by
  rw [Handle.shard, UInt32.toNat_shiftRight, show slotBits.toNat % 32 = 28 from rfl, toNat_pack h,
    Nat.shiftRight_eq_div_pow]
  have := h.slot_lt
  omega

theorem slot_pack (h : Fits shard slot) : (pack shard slot).slot = slot.toNat := by
  rw [Handle.slot, UInt32.toNat_and, show maxSlot.toNat = 2 ^ 28 - 1 from rfl, toNat_pack h,
    Nat.and_two_pow_sub_one_eq_mod]
  have := h.slot_lt
  omega

/-- Handles are ordered by shard first and then by slot. -/
theorem cmp_pack (h : Fits shard slot) (h' : Fits shard' slot') :
    (pack shard slot).cmp (pack shard' slot') =
      (compare shard shard').then (compare slot slot') := by
  have low := h.slot_lt
  have low' := h'.slot_lt
  rw [cmp, UInt32.compare_eq_toNat_compare_toNat, UInt32.compare_eq_toNat_compare_toNat,
    UInt32.compare_eq_toNat_compare_toNat, toNat_pack h, toNat_pack h']
  rcases Nat.lt_trichotomy shard.toNat shard'.toNat with less | same | more
  · rw [Nat.compare_eq_lt.2 less, Nat.compare_eq_lt.2 (by omega)]
    rfl
  · rw [same, Nat.compare_eq_eq.2 rfl, Nat.compare_eq_ite_lt, Nat.compare_eq_ite_lt]
    simp
  · rw [Nat.compare_eq_gt.2 more, Nat.compare_eq_gt.2 (by omega)]
    rfl

end Handle

/-! ## One shard -/

namespace Shard

variable {s : Shard} {text u : String} {slot : UInt32}

/-- Whether the table of a shard and its list of texts are inverse to each other. -/
def Inverse (s : Shard) : Prop :=
  ∀ text slot, s.slot? text = some slot ↔ s.texts[slot.toNat]? = some text

theorem slot?_add : (s.add text slot).slot? u = if u = text then some slot else s.slot? u := by
  rw [slot?, add, List.lookup_cons]
  by_cases same : u = text
  · simp [same]
  · have other : (u == text) = false := by simpa using same
    rw [other, if_neg same]
    rfl

theorem inverse_empty : empty.Inverse := fun text slot => by simp [empty, slot?]

/-- A new text takes the next slot. -/
theorem Inverse.add (h : s.Inverse) (new : s.slot? text = none)
    (room : s.texts.length < UInt32.size) :
    (s.add text (.ofNat s.texts.length)).Inverse := by
  intro u slot
  have last : (UInt32.ofNat s.texts.length).toNat = s.texts.length := UInt32.toNat_ofNat_of_lt' room
  have texts : (s.add text (.ofNat s.texts.length)).texts = s.texts ++ [text] := rfl
  rw [slot?_add, texts]
  rcases Nat.lt_trichotomy slot.toNat s.texts.length with before | here | beyond
  · rw [List.getElem?_append_left before, ← h u slot]
    split
    · rename_i same
      have other : UInt32.ofNat s.texts.length ≠ slot := by
        rintro rfl
        omega
      simp [same, new, other]
    · rfl
  · rw [here, List.getElem?_concat_length, Option.some.injEq]
    split
    · rename_i same
      have same_slot : UInt32.ofNat s.texts.length = slot := by
        rw [← UInt32.toNat_inj, last, here]
      simp [same, same_slot]
    · rename_i different
      have absent : s.slot? u ≠ some slot := by
        rw [Ne, h, here, List.getElem?_eq_none (Nat.le_refl _)]
        exact nofun
      simp [absent, Ne.symm different]
  · rw [List.getElem?_eq_none (by rw [List.length_append]; exact beyond)]
    have absent : s.slot? u ≠ some slot := by
      rw [Ne, h, List.getElem?_eq_none (Nat.le_of_lt beyond)]
      exact nofun
    have other : UInt32.ofNat s.texts.length ≠ slot := by
      rintro rfl
      omega
    split <;> simp [absent, other]

theorem Inverse.exists_slot? (h : s.Inverse) (few : s.texts.length ≤ UInt32.size) :
    (∃ slot, s.slot? text = some slot) ↔ text ∈ s.texts := by
  rw [List.mem_iff_getElem?]
  constructor
  · rintro ⟨slot, hs⟩
    exact ⟨_, (h text slot).1 hs⟩
  · rintro ⟨i, hi⟩
    have inside := (List.getElem?_eq_some_iff.1 hi).1
    refine ⟨.ofNat i, (h text _).2 ?_⟩
    rwa [UInt32.toNat_ofNat_of_lt' (Nat.lt_of_lt_of_le inside few)]

/-- No text has two slots. -/
theorem Inverse.nodup (h : s.Inverse) (few : s.texts.length ≤ UInt32.size) : s.texts.Nodup := by
  rw [List.nodup_iff_injective_getElem]
  intro i j same
  have slot (i : Fin s.texts.length) : s.slot? s.texts[i] = some (.ofNat i) := by
    rw [h, UInt32.toNat_ofNat_of_lt' (Nat.lt_of_lt_of_le i.2 few)]
    exact List.getElem?_eq_getElem i.2
  have slots : UInt32.ofNat i = UInt32.ofNat j := by
    rw [← Option.some.injEq, ← slot i, ← slot j]
    exact congrArg s.slot? same
  have numbers := congrArg UInt32.toNat slots
  rw [UInt32.toNat_ofNat_of_lt' (Nat.lt_of_lt_of_le i.2 few),
    UInt32.toNat_ofNat_of_lt' (Nat.lt_of_lt_of_le j.2 few)] at numbers
  exact Fin.ext numbers

end Shard

namespace Interner

variable {t t' : Interner} {held : Finset String} {s u : String} {h : Handle}

/-! ## One interner -/

/-- Whether an interner holds the texts of a set and no others. -/
structure Holds (t : Interner) (held : Finset String) : Prop where
  inverse : ∀ s, (t.shard s).Inverse
  texts : ∀ s, (t.shard s).texts.toFinset = {u ∈ held | t.shardOf u = t.shardOf s}
  few : ∀ s, (t.shard s).texts.length ≤ 2 ^ 28
  size : t.size = held.card

theorem shard_empty (shardOf : String → Fin Handle.shardCount) :
    (empty shardOf).shard s = .empty := by
  simp [empty, shard]

theorem holds_empty (shardOf : String → Fin Handle.shardCount) : (empty shardOf).Holds ∅ where
  inverse s := shard_empty shardOf ▸ Shard.inverse_empty
  texts s := by
    rw [shard_empty, Finset.filter_empty]
    rfl
  few s := by simp [shard_empty, Shard.empty]
  size := rfl

theorem shard_congr (same : t.shardOf u = t.shardOf s) : t.shard u = t.shard s := by
  simp only [shard, same]

theorem get?_eq_some :
    t.get? s = some h ↔ ∃ slot, (t.shard s).slot? s = some slot ∧ handle (t.shardOf s) slot = h :=
  Option.map_eq_some_iff

theorem Holds.mem_texts (H : t.Holds held) : s ∈ (t.shard s).texts ↔ s ∈ held := by
  rw [← List.mem_toFinset, H.texts]
  simp

theorem Holds.few_words (H : t.Holds held) : (t.shard s).texts.length ≤ UInt32.size :=
  Nat.le_trans (H.few s) (by decide)

/-- Just the texts that are held have handles. -/
theorem Holds.exists_get? (H : t.Holds held) : (∃ h, t.get? s = some h) ↔ s ∈ held := by
  rw [← H.mem_texts, ← (H.inverse s).exists_slot? H.few_words]
  simp [get?_eq_some]

/-- How many texts a shard holds. -/
theorem Holds.length_texts (H : t.Holds held) :
    (t.shard s).texts.length = {u ∈ held | t.shardOf u = t.shardOf s}.card := by
  rw [← H.texts, List.toFinset_card_of_nodup ((H.inverse s).nodup H.few_words)]

theorem lookup_eq : t.lookup h = (t.shards[h.shard]?.bind (·.texts[h.slot]?)).getD "" := by
  rw [lookup]
  split
  · rename_i inside
    rw [Vector.getElem?_eq_getElem inside, Option.bind_some]
  · rename_i outside
    rw [Vector.getElem?_eq_none (Nat.le_of_not_lt outside)]
    rfl

/-- A handle leads back to its text. -/
theorem Holds.lookup_of_get? (H : t.Holds held) (hs : t.get? s = some h) : t.lookup h = s := by
  obtain ⟨slot, found, rfl⟩ := get?_eq_some.1 hs
  have entry := (H.inverse s _ _).1 found
  have inside := (List.getElem?_eq_some_iff.1 entry).1
  have number : (UInt32.ofNat (t.shardOf s).val).toNat = t.shardOf s :=
    UInt32.toNat_ofNat_of_lt' (Nat.lt_trans (t.shardOf s).2 (by decide))
  have fits : Handle.Fits (.ofNat (t.shardOf s).val) slot := by
    refine ⟨number.symm ▸ (t.shardOf s).2, UInt32.le_iff_toNat_le.2 ?_⟩
    exact Nat.le_pred_of_lt (Nat.lt_of_lt_of_le inside (H.few s))
  rw [lookup_eq, handle, Handle.shard_pack fits, Handle.slot_pack fits, number,
    Vector.getElem?_eq_getElem (t.shardOf s).2, Option.bind_some]
  exact congrArg (·.getD "") entry

/-- Interning a text that is held finds its handle. -/
theorem intern_of_get? (hs : t.get? s = some h) : t.intern s = .ok (h, t) := by
  simp [intern, hs]

/-! ## A new text -/

/-- The slot the next new text of a text's shard takes. -/
def nextSlot (t : Interner) (s : String) : UInt32 :=
  .ofNat (t.shard s).texts.length

/-- Only the shard of the text is another. -/
theorem shard_enter {slot : UInt32} :
    (t.enter s slot).shard u =
      if t.shardOf u = t.shardOf s then (t.shard s).add s slot else t.shard u := by
  show (t.enter s slot).shards[t.shardOf u] = _
  by_cases same : t.shardOf u = t.shardOf s
  · rw [if_pos same]
    simp [enter, same]
  · rw [if_neg same]
    exact Vector.getElem_set_ne (t.shardOf s).2 (t.shardOf u).2 fun values =>
      same (Fin.ext values.symm)

/-- Only the text has another handle. -/
theorem get?_enter {slot : UInt32} :
    (t.enter s slot).get? u =
      if u = s then some (handle (t.shardOf s) slot) else t.get? u := by
  rw [get?, get?, shard_enter]
  by_cases same : u = s
  · subst same
    simp [Shard.slot?_add, enter]
  · rw [if_neg same]
    split
    · rename_i shard
      rw [Shard.slot?_add, if_neg same, ← shard_congr shard]
      rfl
    · rfl

/-- A text that is not held is entered, if its shard has a slot left. -/
theorem intern_of_get?_eq_none (new : t.get? s = none)
    (left : (t.shard s).texts.length < 2 ^ 28) :
    t.intern s = .ok (handle (t.shardOf s) (t.nextSlot s), t.enter s (t.nextSlot s)) := by
  rw [intern, new]
  exact if_pos (Nat.le_pred_of_lt left)

theorem Holds.enter (H : t.Holds held) (new : s ∉ held)
    (left : (t.shard s).texts.length < 2 ^ 28) :
    (t.enter s (t.nextSlot s)).Holds (insert s held) where
  inverse u := by
    rw [shard_enter]
    split
    · refine (H.inverse s).add ?_ (Nat.lt_trans left (by decide))
      rw [Option.eq_none_iff_forall_ne_some]
      intro slot found
      exact new (H.exists_get?.1 ⟨_, get?_eq_some.2 ⟨slot, found, rfl⟩⟩)
    · exact H.inverse u
  texts u := by
    show _ = {v ∈ insert s held | t.shardOf v = t.shardOf u}
    rw [shard_enter, Finset.filter_insert]
    split
    · rename_i same
      rw [if_pos same.symm, same, ← H.texts, Shard.add, List.toFinset_append, Finset.insert_eq,
        Finset.union_comm]
      rfl
    · rename_i other
      rw [if_neg (Ne.symm other), H.texts]
  few u := by
    rw [shard_enter]
    split
    · rw [Shard.add, List.length_append]
      exact left
    · exact H.few u
  size := by
    rw [Finset.card_insert_of_notMem new, ← H.size]
    rfl

/-- Interning adds the text and leaves all handles as they are, if the shard has room. -/
theorem Holds.intern (H : t.Holds held)
    (room : {u ∈ insert s held | t.shardOf u = t.shardOf s}.card ≤ 2 ^ 28) :
    ∃ h t', t.intern s = .ok (h, t') ∧ t'.shardOf = t.shardOf ∧ t'.Holds (insert s held) ∧
      t'.get? s = some h ∧ ∀ u g, t.get? u = some g → t'.get? u = some g := by
  by_cases known : s ∈ held
  · obtain ⟨h, hs⟩ := H.exists_get?.2 known
    rw [Finset.insert_eq_of_mem known]
    exact ⟨h, t, intern_of_get? hs, rfl, H, hs, fun _ _ => id⟩
  · have new : t.get? s = none :=
      Option.eq_none_iff_forall_ne_some.2 fun h hs => known (H.exists_get?.1 ⟨h, hs⟩)
    have left : (t.shard s).texts.length < 2 ^ 28 := by
      rw [H.length_texts]
      rw [Finset.filter_insert, if_pos rfl, Finset.card_insert_of_notMem (by simp [known])] at room
      exact room
    refine ⟨_, _, intern_of_get?_eq_none new left, rfl, H.enter known left, ?_, fun u g hu => ?_⟩
    · rw [get?_enter, if_pos rfl]
    · rw [get?_enter, if_neg, hu]
      rintro rfl
      rw [new] at hu
      cases hu

/-! ## Runs -/

/-- What an interner is asked. -/
inductive Request
  | intern (text : String)
  | get (text : String)
  deriving DecidableEq

/-- The handle a request finds. -/
def answer (t : Interner) : Request → Except ShardFull (Option Handle × Interner)
  | .intern s => do
    let (h, t) ← t.intern s
    return (some h, t)
  | .get s => return (t.get? s, t)

/-- The handles a list of requests finds, one after the other. -/
def run (t : Interner) : List Request → Except ShardFull (List (Option Handle) × Interner)
  | [] => return ([], t)
  | r :: rs => do
    let (first, t) ← t.answer r
    let (rest, t) ← t.run rs
    return (first :: rest, t)

/-- The text a request interns. -/
def Request.interned? : Request → Option String
  | intern s => some s
  | get _ => none

/-- The texts that are interned. -/
def interned (rs : List Request) : Finset String :=
  (rs.filterMap Request.interned?).toFinset

/-- Whether no shard is asked for more texts than it has slots. -/
def HasRoom (shardOf : String → Fin Handle.shardCount) (rs : List Request) : Prop :=
  ∀ shard, {s ∈ interned rs | shardOf s = shard}.card ≤ 2 ^ 28

/-- Whether a request interns a text and finds a handle. -/
def Gave (rs : List Request) (found : List (Option Handle)) (i : Nat) (s : String) (h : Handle) :
    Prop :=
  rs[i]? = some (.intern s) ∧ found[i]? = some (some h)

variable {shardOf : String → Fin Handle.shardCount} {r : Request} {rs rs' : List Request}
  {first : Option Handle} {found found' : List (Option Handle)} {i j : Nat}

theorem mem_interned : s ∈ interned rs ↔ Request.intern s ∈ rs := by
  simp only [interned, List.mem_toFinset, List.mem_filterMap]
  constructor
  · rintro ⟨_ | _, mem, ⟨⟩⟩
    exact mem
  · exact fun mem => ⟨_, mem, rfl⟩

theorem interned_concat_intern : interned (rs ++ [.intern s]) = insert s (interned rs) := by
  ext u
  simp [mem_interned, or_comm]

theorem interned_concat_get : interned (rs ++ [.get s]) = interned rs := by
  ext u
  simp [mem_interned]

/-- There was room for what came first. -/
theorem HasRoom.of_append (room : HasRoom shardOf (rs ++ rs')) : HasRoom shardOf rs := fun shard =>
  Nat.le_trans
    (Finset.card_le_card (Finset.filter_subset_filter _ fun _ hs =>
      mem_interned.2 (List.mem_append_left _ (mem_interned.1 hs))))
    (room shard)

/-- A run goes on where the run before it ended. -/
theorem run_append : run t (rs ++ rs') = do
    let (found, t) ← run t rs
    let (rest, t) ← run t rs'
    return (found ++ rest, t) := by
  induction rs generalizing t with
  | nil =>
    show run t rs' = run t rs' >>= fun rest => return ([] ++ rest.1, rest.2)
    cases run t rs' <;> rfl
  | cons r rs ih =>
    simp only [List.cons_append, run]
    cases t.answer r with
    | error e => rfl
    | ok first =>
      simp only [Outcome.ok_bind, ih]
      cases run first.2 rs with
      | error e => rfl
      | ok found =>
        simp only [Outcome.ok_bind, pure_bind]
        cases run found.2 rs' <;> rfl

/-- What an interner knows after some requests and what they found. -/
structure Records (t : Interner) (rs : List Request) (found : List (Option Handle)) : Prop where
  holds : t.Holds (interned rs)
  length : found.length = rs.length
  given : ∀ (i : Nat) (s : String), rs[i]? = some (.intern s) →
    ∃ h, found[i]? = some (some h) ∧ t.get? s = some h
  asked : ∀ (i : Nat) (s : String) (h : Handle), rs[i]? = some (.get s) →
    (found[i]? = some (some h) ↔ ∃ j < i, Gave rs found j s h)

theorem records_empty : (empty shardOf).Records [] [] where
  holds := holds_empty shardOf
  length := rfl
  given := nofun
  asked := nofun

/-- The handle of a text is the one that was given out for it. -/
theorem Records.get?_eq_some (R : t.Records rs found) :
    t.get? s = some h ↔ ∃ i, Gave rs found i s h := by
  constructor
  · intro hs
    obtain ⟨i, hi⟩ := List.mem_iff_getElem?.1 (mem_interned.1 (R.holds.exists_get?.1 ⟨h, hs⟩))
    obtain ⟨h', hf, hs'⟩ := R.given i s hi
    rw [hs, Option.some.injEq] at hs'
    exact ⟨i, hi, hs' ▸ hf⟩
  · rintro ⟨i, hi, hf⟩
    obtain ⟨h', hf', hs⟩ := R.given i s hi
    rw [hf, Option.some.injEq, Option.some.injEq] at hf'
    exact hf' ▸ hs

theorem Gave.lt (gave : Gave rs found i s h) : i < rs.length :=
  (List.getElem?_eq_some_iff.1 gave.1).1

/-- What earlier requests found does not depend on later ones. -/
theorem gave_append (length : found.length = rs.length) (before : i < rs.length) :
    Gave (rs ++ rs') (found ++ found') i s h ↔ Gave rs found i s h := by
  rw [Gave, Gave, List.getElem?_append_left before,
    List.getElem?_append_left (length.symm ▸ before)]

/-- The requests of a longer run. -/
theorem request_concat {q : Request} (hi : (rs ++ [r])[i]? = some q) :
    (i < rs.length ∧ rs[i]? = some q) ∨ (i = rs.length ∧ r = q) := by
  rcases Nat.lt_trichotomy i rs.length with before | here | beyond
  · rw [List.getElem?_append_left before] at hi
    exact .inl ⟨before, hi⟩
  · rw [here, List.getElem?_concat_length, Option.some.injEq] at hi
    exact .inr ⟨here, hi⟩
  · rw [List.getElem?_eq_none (by rw [List.length_append]; exact beyond)] at hi
    cases hi

/-- What is known grows with a request that leaves the handles as they are. -/
theorem Records.concat (R : t.Records rs found) (holds : t'.Holds (interned (rs ++ [r])))
    (kept : ∀ u g, t.get? u = some g → t'.get? u = some g)
    (given : ∀ s, r = .intern s → ∃ h, first = some h ∧ t'.get? s = some h)
    (asked : ∀ s, r = .get s → first = t.get? s) :
    t'.Records (rs ++ [r]) (found ++ [first]) where
  holds := holds
  length := by simp [R.length]
  given i s hi := by
    obtain ⟨before, hi⟩ | ⟨rfl, hr⟩ := request_concat hi
    · obtain ⟨h, hf, hs⟩ := R.given i s hi
      exact ⟨h, by rwa [List.getElem?_append_left (R.length.symm ▸ before)], kept s h hs⟩
    · obtain ⟨h, rfl, hs⟩ := given s hr
      exact ⟨h, by rw [← R.length, List.getElem?_concat_length], hs⟩
  asked i s h hi := by
    have earlier (within : i ≤ rs.length) :
        (∃ j < i, Gave (rs ++ [r]) (found ++ [first]) j s h) ↔ ∃ j < i, Gave rs found j s h :=
      exists_congr fun j => and_congr_right fun before =>
        gave_append R.length (Nat.lt_of_lt_of_le before within)
    obtain ⟨before, hi⟩ | ⟨rfl, hr⟩ := request_concat hi
    · rw [earlier (Nat.le_of_lt before), List.getElem?_append_left (R.length.symm ▸ before)]
      exact R.asked i s h hi
    · rw [earlier (Nat.le_refl _), ← R.length, List.getElem?_concat_length, asked s hr, R.length,
        Option.some.injEq, R.get?_eq_some]
      exact exists_congr fun j => ⟨fun gave => ⟨gave.lt, gave⟩, And.right⟩

/-- One more request. -/
theorem Records.request (R : t.Records rs found) (room : HasRoom t.shardOf (rs ++ [r])) :
    ∃ first t', t.answer r = .ok (first, t') ∧ t'.shardOf = t.shardOf ∧
      t'.Records (rs ++ [r]) (found ++ [first]) := by
  cases r with
  | intern s =>
    have slots := room (t.shardOf s)
    rw [interned_concat_intern] at slots
    obtain ⟨h, t', answered, shardOf, holds, own, kept⟩ := R.holds.intern slots
    refine ⟨some h, t', by simp [answer, answered], shardOf, ?_⟩
    refine R.concat (interned_concat_intern ▸ holds) kept ?_ nofun
    rintro u ⟨⟩
    exact ⟨h, rfl, own⟩
  | get s =>
    have holds : t.Holds (interned (rs ++ [.get s])) := by
      rw [interned_concat_get]
      exact R.holds
    refine ⟨t.get? s, t, rfl, rfl, R.concat holds (fun _ _ => id) nofun ?_⟩
    rintro u ⟨⟩
    rfl

/-- A run with room for all its texts goes through. -/
theorem exists_run (room : HasRoom shardOf rs) :
    ∃ found t, run (empty shardOf) rs = .ok (found, t) ∧ t.shardOf = shardOf ∧
      t.Records rs found := by
  induction rs using List.reverseRecOn with
  | nil => exact ⟨[], _, rfl, rfl, records_empty⟩
  | append_singleton rs r ih =>
    obtain ⟨found, t, ran, rfl, R⟩ := ih room.of_append
    obtain ⟨first, t', answered, same, R'⟩ := R.request room
    exact ⟨_, t', by simp [run_append, ran, run, answered], same, R'⟩

/-- What the first requests find is what a run of them alone finds. -/
theorem run_take {n : Nat} (room : HasRoom shardOf rs)
    (ran : run (empty shardOf) rs = .ok (found, t)) (hn : n ≤ rs.length) :
    ∃ t', run (empty shardOf) (rs.take n) = .ok (found.take n, t') ∧
      t'.Records (rs.take n) (found.take n) := by
  rw [← rs.take_append_drop n] at room
  obtain ⟨found', t', ran', -, R⟩ := exists_run room.of_append
  have whole := ran
  rw [← rs.take_append_drop n, run_append, ran', Outcome.ok_bind, Outcome.bind_eq_ok] at whole
  obtain ⟨⟨rest, _⟩, -, ends⟩ := whole
  have split : found = found' ++ rest := (congrArg Prod.fst (Except.ok.inj ends)).symm
  have prior : found.take n = found' := by
    rw [split, List.take_left' (R.length.trans (List.length_take_of_le hn))]
  rw [prior]
  exact ⟨t', ran', R⟩

/-- Handles are for good. Whatever is interned and looked for, as long as no shard runs out of
slots, two texts that are interned get the same handle just when they are the same; a look finds
the handle that an earlier request gave the text, if one did; and after any number of the requests,
the handles given out lead back to their texts, a look finds just them and changes nothing, and the
texts are counted once each. A shard and a slot can be read off their handle, and handles are
ordered by shard first and then by slot. -/
theorem interning_spec (shardOf : String → Fin Handle.shardCount) (rs : List Request)
    (room : HasRoom shardOf rs) :
    (∃ found t, run (empty shardOf) rs = .ok (found, t) ∧ found.length = rs.length ∧
      (∀ (i j : Nat) (s u : String), rs[i]? = some (.intern s) → rs[j]? = some (.intern u) →
        ∃ h h', found[i]? = some (some h) ∧ found[j]? = some (some h') ∧ (h = h' ↔ s = u)) ∧
      (∀ (i : Nat) (s : String) (h : Handle), rs[i]? = some (.get s) →
        (found[i]? = some (some h) ↔ ∃ j < i, Gave rs found j s h)) ∧
      ∀ n ≤ rs.length, ∃ t', run (empty shardOf) (rs.take n) = .ok (found.take n, t') ∧
        (∀ i < n, ∀ s h, Gave rs found i s h → t'.lookup h = s) ∧
        (∀ s h, t'.get? s = some h ↔ ∃ i < n, Gave rs found i s h) ∧
        (∀ s, t'.answer (.get s) = .ok (t'.get? s, t')) ∧
        t'.size = (interned (rs.take n)).card) ∧
    ∀ shard slot, Handle.Fits shard slot →
      (Handle.pack shard slot).shard = shard.toNat ∧ (Handle.pack shard slot).slot = slot.toNat ∧
        ∀ shard' slot', Handle.Fits shard' slot' →
          (Handle.pack shard slot).cmp (Handle.pack shard' slot') =
            (compare shard shard').then (compare slot slot') := by
  refine ⟨?_, fun shard slot fits =>
    ⟨Handle.shard_pack fits, Handle.slot_pack fits, fun _ _ => Handle.cmp_pack fits⟩⟩
  obtain ⟨found, t, ran, -, R⟩ := exists_run room
  refine ⟨found, t, ran, R.length, ?_, R.asked, ?_⟩
  · intro i j s u hi hj
    obtain ⟨h, hf, hs⟩ := R.given i s hi
    obtain ⟨h', hf', hu⟩ := R.given j u hj
    refine ⟨h, h', hf, hf', ?_, ?_⟩
    · rintro rfl
      rw [← R.holds.lookup_of_get? hs, R.holds.lookup_of_get? hu]
    · rintro rfl
      exact Option.some.inj (hs.symm.trans hu)
  · intro n hn
    obtain ⟨t', ran', R'⟩ := run_take room ran hn
    have gave (i : Nat) (s : String) (h : Handle) :
        Gave (rs.take n) (found.take n) i s h ↔ i < n ∧ Gave rs found i s h := by
      by_cases before : i < n
      · simp [Gave, List.getElem?_take_of_lt before, before]
      · refine iff_of_false (fun gave => before ?_) fun gave => before gave.1
        exact Nat.lt_of_lt_of_le gave.lt (List.length_take_le n rs)
    refine ⟨t', ran', ?_, ?_, fun s => rfl, R'.holds.size⟩
    · intro i before s h given
      exact R'.holds.lookup_of_get? (R'.get?_eq_some.2 ⟨i, (gave i s h).2 ⟨before, given⟩⟩)
    · intro s h
      rw [R'.get?_eq_some]
      exact exists_congr fun i => gave i s h

/-- Two texts of one shard, and a look at the second before and after it comes. -/
theorem interning_spec_two :
    HasRoom (fun _ => ⟨3, by decide⟩) [.intern "a", .get "b", .intern "b", .get "b"] ∧
      ∃ found t,
        run (empty fun _ => ⟨3, by decide⟩) [.intern "a", .get "b", .intern "b", .get "b"] =
          .ok (found, t) ∧
        ∃ h h', found[0]? = some (some h) ∧ found[2]? = some (some h') ∧ h ≠ h' ∧
          found[1]? ≠ some (some h') ∧ found[3]? = some (some h') ∧
          (Handle.pack 15 Handle.maxSlot).slot = Handle.maxSlot.toNat := by
  have room : HasRoom (fun _ => ⟨3, by decide⟩)
      [.intern "a", .get "b", .intern "b", .get "b"] :=
    fun shard => Nat.le_trans (Finset.card_filter_le _ _) (by decide)
  obtain ⟨⟨found, t, ran, -, same, asked, -⟩, packs⟩ := interning_spec _ _ room
  obtain ⟨h, h', first, second, differ⟩ := same 0 2 "a" "b" rfl rfl
  refine ⟨room, found, t, ran, h, h', first, second, ?_, ?_, ?_, ?_⟩
  · exact fun equal => absurd (differ.1 equal) (by decide)
  · intro early
    obtain ⟨j, before, gave, -⟩ := (asked 1 "b" h' rfl).1 early
    obtain rfl : j = 0 := by omega
    exact absurd gave (by decide)
  · exact (asked 3 "b" h' rfl).2 ⟨2, by decide, rfl, second⟩
  · exact (packs 15 Handle.maxSlot ⟨by decide, by decide⟩).2.1

end Interner

end TypedTree
