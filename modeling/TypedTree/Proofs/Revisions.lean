import TypedTree.Proofs.Counting

/-!
# Changes in memory are changes of values

A change inside a value is carried out in memory on cells that nobody else refers to. It is shown to
do to the value of a word what it does to a plain value, and to leave the value of every other word
that is held as it was. This also holds of changes that are refused, after which the word itself
has the value that it had.

## Main definitions

* `Leaves`: what a change that is carried out in place leaves behind.

## Main statements

* `Cells.Sound.within`: going into a payload.
* `Cells.Sound.revise`: changes in memory.
-/

namespace TypedTree

variable {ε : Type}

/-- The outcome and the result of a change in place, when the change as a function gives `result`.
A refused change leaves what was there before. -/
def Leaves {α : Type} (result : Except ε α) (old : α) (outcome : Except ε Unit) (new : α) : Prop :=
  match result with
  | .ok v => outcome = .ok () ∧ new = v
  | .error e => outcome = .error e ∧ new = old

theorem Leaves.map {α β : Type} {result : Except ε α} {old new : α} {outcome : Except ε Unit}
    (f : α → β) (leaves : Leaves result old outcome new) :
    Leaves (result.map f) (f old) outcome (f new) := by
  cases result with
  | ok v => exact ⟨leaves.1, congrArg f leaves.2⟩
  | error e => exact ⟨leaves.1, congrArg f leaves.2⟩

namespace Cells

variable {h : Cells} {lent : List Nat} {held news : List Word} {values : Nat → Value} {w : Word}
  {misplaced : ε}

/-- Going into the payload of a word. What is done to the payload is done to the value, if it is
done right to payloads that are held part by part. -/
theorem Sound.within {form : Form}
    {change : Payload Word → Cells → Except ε Unit × Payload Word × Cells}
    {change' : Payload Value → Except ε (Payload Value)}
    (right : ∀ {h lent p}, Sound h lent (p.parts ++ held) values → ∃ values',
      (change p h).2.2.Sound lent ((change p h).2.1.parts ++ held) values' ∧
      (∀ u ∈ held, u.value values' = u.value values) ∧
      Leaves (change' (p.map (Word.value values))) (p.map (Word.value values)) (change p h).1
        ((change p h).2.1.map (Word.value values')))
    (sound : h.Sound lent (w :: held) values) :
    let r := Cells.within misplaced form change w h
    ∃ values', r.2.2.Sound lent (r.2.1 :: held) values' ∧
      (∀ u ∈ held, u.value values' = u.value values) ∧
      Leaves ((w.value values).within misplaced form change') (w.value values) r.1
        (r.2.1.value values') := by
  cases w with
  | scalar s =>
    refine ⟨values, sound, fun u _ => rfl, ?_⟩
    simp [Value.within, Cells.within, Leaves]
  | ref c =>
    have live : (h.cell c).count ≠ 0 := sound.live (List.mem_cons_self ..) c rfl
    have payload : (values c).payload? = some ((h.cell c).payload.map (Word.value values)) := by
      rw [sound.valued c live, Payload.valueBy, Payload.payload?_value]
    simp only [Value.within, Cells.within, Word.value_ref, payload, Payload.form?_map]
    split
    · obtain ⟨values', changed, same, leaves⟩ := right sound.lend
      rw [Sound.lend_payload]
      refine ⟨_, changed.fill, fun u mem => ?_, ?_⟩
      · have vacant := (changed.waiting _ (List.mem_cons_self ..)).2
        rw [changed.value_update vacant (by simp [mem]), same u mem]
      · rw [sound.valued c live, Word.value_ref, Function.update_self]
        exact leaves.map _
    · exact ⟨values, sound, fun u _ => rfl, rfl, rfl⟩

/-- The word at a position, or a blank one, and its value. -/
theorem value_getD (ws : List Word) (i : Nat) :
    (ws.getD i .blank).value values = (ws.map (Word.value values)).getD i .void := by
  simp only [List.getD_eq_getElem?_getD, List.getElem?_map]
  cases ws[i]? <;> rfl

/-- A word from a list of words in use, or a blank one. -/
theorem Sound.live_getD (sound : h.Sound lent held values) {ws : List Word}
    (inside : ∀ u ∈ ws, u ∈ held) (i : Nat) : h.Live (ws.getD i .blank) := by
  by_cases bound : i < ws.length
  · rw [List.getD_eq_getElem _ _ bound]
    exact sound.live (inside _ (List.getElem_mem bound))
  · rw [List.getD_eq_default _ _ (by omega)]
    exact h.live_blank

/-- A change in memory does to the value of a word what it does to a value, and leaves the values
of all other words. -/
theorem Sound.revise (misplaced : ε) (revision : Revision ε) (inside : ∀ u ∈ news, u ∈ held)
    (sound : h.Sound lent (w :: held) values) :
    let r := Cells.revise misplaced news revision w h
    ∃ values', r.2.2.Sound lent (r.2.1 :: held) values' ∧
      (∀ u ∈ held, u.value values' = u.value values) ∧
      Leaves (revision.apply misplaced (news.map (Word.value values)) (w.value values))
        (w.value values) r.1 (r.2.1.value values') := by
  induction revision generalizing h lent held w with
  | assign i =>
    have live : h.Live (news.getD i .blank) :=
      sound.live_getD (fun u mem => List.mem_cons_of_mem _ (inside u mem)) i
    have retained := sound.retain live
    have released := Sound.release [w] (retained.perm (.swap ..))
    exact ⟨values, released, fun u _ => rfl, rfl, value_getD news i⟩
  | change form f =>
    refine sound.within fun {h lent p} lending => ?_
    have parts_read : p.map h.read = p.map (Word.value values) :=
      Payload.map_congr fun u mem => lending.read (lending.live (by simp [mem]))
    have news_read : news.map h.read = news.map (Word.value values) :=
      List.map_congr_left fun u mem => lending.read (lending.live (by simp [inside u mem]))
    simp only [parts_read, news_read]
    cases f (p.map (Word.value values)) (news.map (Word.value values)) with
    | error e => exact ⟨values, lending, fun u _ => rfl, rfl, rfl⟩
    | ok q =>
      have live : ∀ u ∈ (q.map ((p.parts ++ news).getD · .blank)).parts, h.Live u := by
        intro u mem
        rw [Payload.parts_map] at mem
        obtain ⟨i, -, rfl⟩ := List.mem_map.1 mem
        refine lending.live_getD (fun u mem => ?_) i
        exact (List.mem_append.1 mem).elim (List.mem_append_left _)
          fun mem => List.mem_append_right _ (inside u mem)
      have retained := lending.retainAll live
      have released := Sound.release p.parts (retained.perm (by
        rw [← List.append_assoc, ← List.append_assoc]
        exact List.perm_append_comm.append_right _))
      refine ⟨values, released, fun u _ => rfl, rfl, ?_⟩
      simp only [Payload.map_map, Payload.parts_map, ← List.map_append]
      exact Payload.map_congr fun i _ => value_getD _ i
  | inside form i rest ih =>
    refine sound.within fun {h lent p} lending => ?_
    simp only [Payload.part?_map]
    cases at_i : p.part? i with
    | none => exact ⟨values, lending, fun u _ => rfl, rfl, rfl⟩
    | some x =>
      obtain ⟨others, before, after⟩ := Payload.exists_perm_of_part? at_i
      have lending' : h.Sound lent (x :: (others ++ held)) values :=
        lending.perm (before.append_right _)
      obtain ⟨values', changed, same, leaves⟩ :=
        ih (fun u mem => List.mem_append_right _ (inside u mem)) lending'
      refine ⟨values', changed.perm ((after _).symm.append_right _),
        fun u mem => same u (List.mem_append_right _ mem), ?_⟩
      have as_before := Payload.setPart_congr at_i before fun u mem =>
        same u (List.mem_append_left _ mem)
      have leaves' := leaves.map fun y => (p.map (Word.value values)).setPart i y
      have old : (p.map (Word.value values)).setPart i (x.value values) =
          p.map (Word.value values) := Payload.setPart_self (by rw [Payload.part?_map, at_i]; rfl)
      simp only [Option.map_some, Payload.setPart_map, as_before]
      rwa [old] at leaves'

end Cells
end TypedTree
