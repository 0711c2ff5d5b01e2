import TypedTree.Holder.Arena
import TypedTree.Proofs.Revisions
import TypedTree.Proofs.Sharing

/-!
# Counted boxes stand for cells of holders

The names, boxes and cells of an arena are tied to holders: the boxes stand for the cells that
names point at, the stored counts are the numbers of names, and the words have the values. Each
operation on boxes is shown to keep the tie while references are on their way, that is, held by
nobody but the operation.

## Main definitions

* `Arena.Models`: the tie.

## Main statements

* `Arena.Models.leave`, `Arena.Models.enclose`, `Arena.Models.rebind`: the operations on boxes.
* `Arena.Models.detach`: moving a name to a box of its own.
* `Arena.Models.value?_eq`, `Arena.Models.count_eq`: what can be seen is the same.
-/

namespace TypedTree

namespace Holders

variable {κ : Type} [DecidableEq κ] {h : Holders κ} {name : κ} {b c : Nat}

/-- A name that is not live is dropped already. -/
theorem drop_eq_self (absent : h.cell? name = none) : h.drop name = h := by
  have other : ∀ entry ∈ h.cells, (entry.1 != name) = true := fun entry mem => by
    rw [bne_comm]
    exact List.lookup_eq_none_iff.1 absent entry mem
  rw [drop, List.filter_eq_self.2 other]

private theorem countP_drop {entries : List (κ × Nat)} (nodup : (entries.map (·.1)).Nodup)
    (at_b : entries.lookup name = some b) (c : Nat) :
    (entries.filter (·.1 != name)).countP (·.2 == c) + [b].count c =
      entries.countP (·.2 == c) := by
  induction entries with
  | nil => simp at at_b
  | cons entry rest ih =>
    rcases entry with ⟨k, d⟩
    rw [List.map_cons, List.nodup_cons] at nodup
    by_cases found : k = name
    · subst found
      have absent : ∀ e ∈ rest, (e.1 != k) = true := fun e mem => by
        have : e.1 ≠ k := fun same => nodup.1 (List.mem_map.2 ⟨e, mem, same⟩)
        simpa using this
      have same : d = b := by simpa using at_b
      rw [List.filter_cons_of_neg (by simp), List.filter_eq_self.2 absent, List.countP_cons, same,
        List.count_singleton]
    · rw [List.lookup_cons, beq_false_of_ne (Ne.symm found)] at at_b
      have before := ih nodup.2 at_b
      rw [List.filter_cons_of_pos (by simpa using found), List.countP_cons, List.countP_cons,
        ← before]
      omega

/-- Dropping a name takes one from the count of its cell. -/
theorem countCell_drop (nodup : h.names.Nodup) (at_b : h.cell? name = some b) (c : Nat) :
    (h.drop name).countCell c + [b].count c = h.countCell c :=
  countP_drop nodup at_b c

/-- A value in a new cell that no name points at. -/
def reserve (h : Holders κ) (v : Value) : Holders κ :=
  { h with
    values := fun c => if c = h.next then v else h.values c
    next := h.next + 1 }

omit [DecidableEq κ] in
theorem valid_reserve {v : Value} (hv : h.Valid) : (h.reserve v).Valid where
  nodup := hv.nodup
  fresh := fun entry mem => (hv.fresh entry mem).trans h.next.lt_succ_self

end Holders

namespace Arena

open Holders (Valid)

variable {κ : Type}

/-- An arena that stands for holders, while the references to boxes in `pending` and the words in
`temps` are on their way. -/
structure Models (a : Arena κ) (pending : List Nat) (temps : List Word) (values : Nat → Value)
    (h : Holders κ) : Prop where
  names : a.names = h.cells
  size : a.boxes.length = h.next
  /-- A count is the number of references by names and on their way. -/
  counted : ∀ b, (a.box b).count = h.countCell b + pending.count b
  freed : ∀ b, (a.box b).count = 0 → a.box b = .free
  valued : ∀ b, (a.box b).count ≠ 0 → (a.box b).word.value values = h.values b
  sound : a.cells.Sound [] (temps ++ a.boxes.map (·.word)) values

variable {a : Arena κ} {h : Holders κ} {pending pending' : List Nat} {temps temps' : List Word}
  {cells : Cells} {values values' valuesOf : Nat → Value} {name : κ} {b c : Nat} {w : Word}
  {x : Box}

/-! ## Lookups -/

theorem box_set (bound : b < a.boxes.length) :
    (a.boxes.set b x).getD c .free = if c = b then x else a.box c :=
  Cells.getD_set bound

theorem box_append (c : Nat) :
    (a.boxes ++ [x]).getD c .free = if c = a.boxes.length then x else a.box c :=
  Cells.getD_concat

theorem lt_length_of_count (live : (a.box b).count ≠ 0) : b < a.boxes.length := by
  by_contra beyond
  exact live (by rw [box, List.getD_eq_default _ _ (by omega)]; rfl)

/-- The word of a box in use is one of the words. -/
theorem mem_words (live : (a.box b).count ≠ 0) : (a.box b).word ∈ a.boxes.map (·.word) := by
  have bound := lt_length_of_count live
  have here : a.box b = a.boxes[b] := List.getD_eq_getElem _ _ bound
  exact List.mem_map.2 ⟨a.boxes[b], List.getElem_mem bound, by rw [here]⟩

/-- The words of all boxes but one. -/
def otherWords (a : Arena κ) (b : Nat) : List Word :=
  (a.boxes.eraseIdx b).map (·.word)

theorem words_perm (bound : b < a.boxes.length) :
    (a.boxes.map (·.word)).Perm ((a.box b).word :: a.otherWords b) := by
  have here : a.box b = a.boxes[b] := List.getD_eq_getElem _ _ bound
  rw [here]
  exact (List.getElem_cons_eraseIdx_perm bound).symm.map (·.word)

theorem words_set_perm (bound : b < a.boxes.length) (x : Box) :
    ((a.boxes.set b x).map (·.word)).Perm (x.word :: a.otherWords b) :=
  (List.set_perm_cons_eraseIdx bound x).map (·.word)

/-- The word of another box in use is one of the other words. -/
theorem mem_otherWords (live : (a.box c).count ≠ 0) (other : c ≠ b) :
    (a.box c).word ∈ a.otherWords b := by
  have bound := lt_length_of_count live
  have here : a.box c = a.boxes[c] := List.getD_eq_getElem _ _ bound
  have kept : a.boxes[c] ∈ a.boxes.eraseIdx b :=
    List.mem_eraseIdx_iff_getElem.2 ⟨c, bound, other, rfl⟩
  exact List.mem_map.2 ⟨a.boxes[c], kept, by rw [here]⟩

namespace Models

theorem perm_pending (models : a.Models pending temps values h) (perm : pending.Perm pending') :
    a.Models pending' temps values h :=
  { models with counted := fun b => by rw [models.counted, perm.count_eq] }

theorem live_of_mem (models : a.Models pending temps values h) (mem : b ∈ pending) :
    (a.box b).count ≠ 0 := by
  have := List.count_pos_iff.2 mem
  rw [models.counted]
  omega

/-! ## References to boxes -/

theorem bind (models : a.Models (b :: pending) temps values h) (name : κ) :
    (a.bind name b).Models pending temps values { h with cells := (name, b) :: h.cells } where
  names := congrArg ((name, b) :: ·) models.names
  size := models.size
  counted := fun c => by
    have before := models.counted c
    rw [Holders.countCell, List.count_cons] at before
    rw [Holders.countCell, List.countP_cons]
    change (a.box c).count = _
    change (a.box c).count = _ + (_ + if (b == c) = true then 1 else 0) at before
    change (a.box c).count = _ + (if (b == c) = true then 1 else 0) + _
    omega
  freed := models.freed
  valued := models.valued
  sound := models.sound

theorem unbind [DecidableEq κ] (models : a.Models pending temps values h) (nodup : h.names.Nodup)
    (at_b : h.cell? name = some b) :
    (a.unbind name).Models (b :: pending) temps values (h.drop name) where
  names := by rw [Arena.unbind, models.names, Holders.drop]
  size := models.size
  counted := fun c => by
    have before := models.counted c
    have dropped := Holders.countCell_drop nodup at_b c
    rw [List.count_cons]
    rw [List.count_singleton] at dropped
    change (a.box c).count = _
    omega
  freed := models.freed
  valued := models.valued
  sound := models.sound

/-- Another box in one place, and perhaps other cells and values. -/
theorem set (models : a.Models pending temps values h) (bound : b < a.boxes.length)
    (counts : ∀ c, (if c = b then x.count else (a.box c).count) + pending.count c =
      (a.box c).count + pending'.count c)
    (here : x.count ≠ 0 → x.word.value values' = valuesOf b)
    (elsewhere : ∀ c, c ≠ b → (a.box c).count ≠ 0 → (a.box c).word.value values' = valuesOf c)
    (freed : x.count = 0 → x = .free)
    (sound : cells.Sound [] (temps' ++ x.word :: a.otherWords b) values') :
    Models { a with boxes := a.boxes.set b x, cells } pending' temps' values'
      { h with values := valuesOf } := by
  have box_new : ∀ c, box { a with boxes := a.boxes.set b x, cells } c =
      if c = b then x else a.box c := fun c => box_set bound
  constructor
  · exact models.names
  · rw [← models.size]
    exact List.length_set
  · intro c
    have before := models.counted c
    have balance := counts c
    rw [box_new, apply_ite Box.count]
    change _ = h.countCell c + _
    omega
  · intro c
    rw [box_new]
    by_cases same : c = b
    · simpa [same] using freed
    · simpa [same] using models.freed c
  · intro c
    rw [box_new]
    by_cases same : c = b
    · subst same
      simpa using here
    · simpa [same] using elsewhere c same
  · exact sound.perm ((words_set_perm bound x).symm.append_left _)

/-- The words around the word of one box. -/
theorem sound_apart (models : a.Models pending temps values h) (bound : b < a.boxes.length) :
    a.cells.Sound [] (temps ++ (a.box b).word :: a.otherWords b) values :=
  models.sound.perm ((words_perm bound).append_left _)

/-- Another count for a box in use, with as many references on their way. -/
theorem recount {n : Nat} (models : a.Models pending temps values h)
    (live : (a.box b).count ≠ 0) (some : n ≠ 0)
    (here : n + pending.count b = (a.box b).count + pending'.count b)
    (elsewhere : ∀ c, c ≠ b → pending'.count c = pending.count c) :
    Models { a with boxes := a.boxes.set b { a.box b with count := n } } pending' temps values
      h := by
  have bound := lt_length_of_count live
  refine models.set bound (fun c => ?_) (fun _ => models.valued b live) (fun c _ => models.valued c)
    (fun zero => absurd zero some) (models.sound_apart bound)
  by_cases same : c = b
  · subst same
    simp only [if_true]
    omega
  · simp only [same, if_false, elsewhere c same]

theorem share (models : a.Models pending temps values h) (live : (a.box b).count ≠ 0) :
    (a.share b).Models (b :: pending) temps values h := by
  refine models.recount live (Nat.succ_ne_zero _) ?_ fun c other => ?_
  · simp
    omega
  · simp [Ne.symm other]

/-- A word in a new box, which no name refers to yet. -/
theorem enclose (models : a.Models pending (w :: temps) values h) :
    (a.enclose w).2.Models (h.next :: pending) temps values (h.reserve (w.value values)) := by
  have new_box : ∀ c, (a.enclose w).2.box c = if c = h.next then ⟨1, w⟩ else a.box c := fun c => by
    rw [← models.size]
    exact box_append c
  have unused : h.countCell h.next + pending.count h.next = 0 := by
    rw [← models.counted, box, List.getD_eq_default _ _ (Nat.le_of_eq models.size)]
    rfl
  constructor
  · exact models.names
  · rw [Arena.enclose, List.length_append, models.size]
    rfl
  · intro c
    have before := models.counted c
    rw [new_box, List.count_cons]
    change _ = h.countCell c + _
    by_cases same : c = h.next
    · subst same
      simp
      omega
    · have other : (h.next == c) = false := beq_false_of_ne (Ne.symm same)
      simp [same, other, before]
  · intro c
    rw [new_box]
    by_cases same : c = h.next
    · simp [same]
    · simpa [same] using models.freed c
  · intro c
    rw [new_box]
    by_cases same : c = h.next
    · simp [same, Holders.reserve]
    · simpa [same, Holders.reserve] using models.valued c
  · rw [Arena.enclose, List.map_append]
    refine models.sound.perm ?_
    rw [← List.append_assoc]
    exact (List.perm_append_singleton w _).symm

/-- Giving up a reference to a box and keeping the word. -/
theorem leave (models : a.Models (b :: pending) temps values h) :
    (a.leave b).2.Models pending ((a.leave b).1 :: temps) values h ∧
      (a.leave b).1.value values = h.values b := by
  have live := models.live_of_mem (List.mem_cons_self ..)
  unfold Arena.leave
  by_cases last : (a.box b).count = 1
  · simp only [last, if_true]
    refine ⟨?_, models.valued b live⟩
    have bound := lt_length_of_count live
    -- the word moves out and a scalar takes its place
    have blank : a.cells.Sound [] (.blank :: (temps ++ (a.box b).word :: a.otherWords b)) values :=
      Cells.Sound.scalar_iff.2 (models.sound_apart bound)
    refine models.set bound (fun c => ?_) (fun some => absurd rfl some) (fun c _ => models.valued c)
      (fun _ => rfl) (blank.perm ?_)
    · rw [List.count_cons]
      by_cases same : c = b
      · subst same
        simp [last, Box.free]
        omega
      · simp [same, Ne.symm same]
    · exact ((List.perm_middle.cons _).trans (.swap ..)).trans (List.perm_middle.symm.cons _)
  · simp only [last, if_false]
    refine ⟨?_, models.valued b live⟩
    have here : (a.box b).count - 1 + (b :: pending).count b =
        (a.box b).count + pending.count b := by
      simp
      omega
    have lowered := models.recount live (by omega) here fun c other => by simp [Ne.symm other]
    have usable : a.cells.Live (a.box b).word :=
      models.sound.live (List.mem_append_right temps (mem_words live))
    exact { lowered with sound := lowered.sound.retain usable }

theorem discard (ws : List Word) (models : a.Models pending (ws ++ temps) values h) :
    (a.discard ws).Models pending temps values h :=
  { models with sound := Cells.Sound.release ws (by rw [← List.append_assoc]; exact models.sound) }

theorem discard_all (models : a.Models pending temps values h) :
    (a.discard temps).Models pending [] values h :=
  discard temps (by rwa [List.append_nil])

theorem abandon (models : a.Models (b :: pending) temps values h) :
    (a.abandon b).Models pending temps values h :=
  discard [(a.leave b).1] models.leave.1

/-- One more reference to a word in use. -/
theorem retain (models : a.Models pending temps values h) (live : a.cells.Live w) :
    Models { a with cells := a.cells.retain w } pending (w :: temps) values h :=
  { models with sound := models.sound.retain live }

section Names

variable [DecidableEq κ]

theorem box?_eq (models : a.Models pending temps values h) : a.box? name = h.cell? name := by
  rw [box?, models.names, Holders.cell?]

/-- The box of a name is in use. -/
theorem live_of_cell? (models : a.Models pending temps values h) (hv : h.Valid)
    (at_b : h.cell? name = some b) : (a.box b).count ≠ 0 := by
  have listed : (name, b) ∈ h.cells := (Holders.mem_cells_iff hv.nodup).2 at_b
  have some_name : 0 < h.countCell b := List.countP_pos_iff.2 ⟨(name, b), listed, by simp⟩
  rw [models.counted]
  omega

/-- Without references on their way, stored counts are counts of names. -/
theorem count_eq (models : a.Models [] temps values h) (name : κ) :
    a.count name = h.count name := by
  simp only [Arena.count, Holders.count, models.box?_eq]
  cases h.cell? name with
  | none => rfl
  | some b => simpa using models.counted b

theorem isUnique_eq (models : a.Models [] temps values h) (name : κ) :
    a.isUnique name = h.isUnique name := by
  rw [isUnique, models.count_eq, Holders.isUnique]

theorem isShared_eq (models : a.Models pending temps values h) (m n : κ) :
    a.isShared m n = h.isShared m n := by
  simp only [isShared, models.box?_eq, Holders.isShared]

theorem value?_eq (models : a.Models pending temps values h) (hv : h.Valid) (name : κ) :
    a.value? name = h.value? name := by
  simp only [value?, models.box?_eq, Holders.value?]
  cases at_b : h.cell? name with
  | none => rfl
  | some b =>
    have live := models.live_of_cell? hv at_b
    have usable := models.sound.live (List.mem_append_right temps (mem_words live))
    simp only [Option.map_some, models.sound.read usable, models.valued b live]

theorem rebind (models : a.Models (b :: pending) temps values h) (hv : h.Valid) (name : κ) :
    (a.rebind name b).Models pending temps values (h.point name b) := by
  unfold Arena.rebind
  rw [models.box?_eq]
  cases at_old : h.cell? name with
  | none =>
    have bound := models.bind name
    rwa [← Holders.drop_eq_self at_old] at bound
  | some old =>
    have unbound := (models.unbind hv.nodup at_old).perm_pending (.swap ..)
    exact (unbound.bind name).abandon

/-- Moving a name to a box of its own. -/
theorem detach (models : a.Models pending temps values h) (hv : h.Valid)
    (none_pending : pending = []) (at_b : h.cell? name = some b) :
    (a.detach name b).2.Models pending temps values (h.detach name) ∧
      (h.detach name).cell? name = some (a.detach name b).1 := by
  subst none_pending
  have counts : (a.box b).count = h.countCell b := by simpa using models.counted b
  simp only [Arena.detach, Holders.detach, at_b, ← counts]
  by_cases one : (a.box b).count = 1
  · simp only [one, if_true]
    exact ⟨models, at_b⟩
  · simp only [one, if_false]
    obtain ⟨left, value⟩ := (models.unbind hv.nodup at_b).leave
    have number : ((a.unbind name).leave b).2.boxes.length = h.next := left.size
    have bound := left.enclose.bind name
    rw [value] at bound
    simp only [Arena.enclose, number] at bound ⊢
    exact ⟨bound, by simp [Holders.cell?_put]⟩

end Names

end Models
end Arena
end TypedTree
