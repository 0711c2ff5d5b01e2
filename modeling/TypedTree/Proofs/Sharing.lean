import TypedTree.Holder
import Mathlib.Data.Set.Card
import Mathlib.Logic.Function.Basic

/-!
# Sharing without interference

Holders are compared with a store in which every name owns its own copy of its value. Both are
taken through the same steps. The outcomes and the values are the same, so nothing that is done
through one name shows through another. What sharing there is can be told from the history alone:
two names share a cell when both of them come, by copies, from the same step that made a cell.

## Main definitions

* `Copies`, `Copies.perform`: the store of independent values.
* `Holders.Lineage`: which step each name has its cell from.
* `Holders.Valid`: what holds of all holders that runs lead to.

## Main statements

* `Holders.perform_copies`: a step has the same effect as on independent values.
* `Holders.follows_perform`: a step keeps sharing and lineage together.
* `Holders.countCell_eq_encard`: a count is a number of names.
-/

namespace TypedTree

/-! ## Independent values -/

/-- A store in which every name owns its value. -/
abbrev Copies (κ : Type) := κ → Option Value

namespace Copies

variable {κ ε : Type} [DecidableEq κ]

/-- Carry out a step. -/
def perform (s : Copies κ) : Holders.Step κ ε → Holders.Outcome ε × Copies κ
  | .put name v => (.done, Function.update s name (some v))
  | .copy name as =>
    match s name with
    | some v => (.done, Function.update s as (some v))
    | none => (.missing, s)
  | .drop name => (.done, Function.update s name none)
  | .take name =>
    match s name with
    | some v => (.gave v, Function.update s name none)
    | none => (.missing, s)
  | .replace name v =>
    match s name with
    | some old => (.gave old, Function.update s name (some v))
    | none => (.missing, s)
  | .write name f =>
    match s name with
    | some v =>
      match f v with
      | .ok w => (.done, Function.update s name (some w))
      | .error e => (.refused e, s)
    | none => (.missing, s)

end Copies

namespace Holders

variable {κ ε : Type} [DecidableEq κ]

/-- The live names. -/
def names (h : Holders κ) : List κ :=
  h.cells.map (·.1)

/-- No name stands twice, and the cells behind the used ones are new. -/
structure Valid (h : Holders κ) : Prop where
  nodup : h.names.Nodup
  fresh : ∀ entry ∈ h.cells, entry.2 < h.next

variable {h : Holders κ} {name m : κ} {c : Nat} {v : Value}

/-! ## Cells of names -/

private theorem lookup_cons_ne {k m : κ} (ne : m ≠ k) (c : Nat) (entries : List (κ × Nat)) :
    List.lookup m ((k, c) :: entries) = entries.lookup m := by
  rw [List.lookup_cons, beq_false_of_ne ne]

private theorem lookup_filter (entries : List (κ × Nat)) (name m : κ) :
    (entries.filter (·.1 != name)).lookup m = if m = name then none else entries.lookup m := by
  induction entries with
  | nil => simp
  | cons entry rest ih =>
    rcases entry with ⟨k, c⟩
    by_cases dropped : k = name
    · subst dropped
      rw [List.filter_cons_of_neg (by simp), ih]
      by_cases same : m = k
      · simp [same]
      · simp [same, lookup_cons_ne same]
    · rw [List.filter_cons_of_pos (by simpa using dropped)]
      by_cases found : m = k
      · simp [found, dropped]
      · simp [lookup_cons_ne found, ih]

theorem cell?_drop : (h.drop name).cell? = Function.update h.cell? name none := by
  funext m
  simp only [cell?, drop, lookup_filter, Function.update_apply]

theorem cell?_point : (h.point name c).cell? = Function.update h.cell? name (some c) := by
  funext m
  by_cases same : m = name
  · simp [cell?, point, same]
  · have dropped : (h.drop name).cell? m = _ := congrFun cell?_drop m
    rw [Function.update_of_ne same] at dropped ⊢
    rw [← dropped]
    exact lookup_cons_ne same c _

theorem cell?_put : (h.put name v).cell? = Function.update h.cell? name (some h.next) :=
  cell?_point

/-- A name refers to the cell that it is listed with. -/
theorem mem_cells_iff (nodup : h.names.Nodup) : (m, c) ∈ h.cells ↔ h.cell? m = some c := by
  unfold names at nodup
  unfold cell?
  generalize h.cells = entries at nodup
  induction entries with
  | nil => simp
  | cons entry rest ih =>
    rcases entry with ⟨k, d⟩
    rw [List.map_cons, List.nodup_cons] at nodup
    by_cases found : m = k
    · subst found
      have absent : (m, c) ∉ rest := fun mem =>
        nodup.1 (List.mem_map.2 ⟨(m, c), mem, rfl⟩)
      simp [absent, eq_comm]
    · simp [lookup_cons_ne found, found, ih nodup.2]

theorem Valid.lt_next (hv : h.Valid) (at_c : h.cell? name = some c) : c < h.next :=
  hv.fresh (name, c) ((mem_cells_iff hv.nodup).2 at_c)

omit [DecidableEq κ] in
theorem valid_empty : (empty : Holders κ).Valid :=
  ⟨List.nodup_nil, by simp [empty]⟩

theorem valid_drop (hv : h.Valid) : (h.drop name).Valid where
  nodup := hv.nodup.sublist (List.filter_sublist.map _)
  fresh := fun entry mem => hv.fresh entry (List.mem_of_mem_filter mem)

theorem valid_point (hv : h.Valid) (bound : c < h.next) : (h.point name c).Valid where
  nodup := by
    have absent : name ∉ (h.drop name).names := by simp [names, drop]
    exact List.nodup_cons.2 ⟨absent, (valid_drop hv).nodup⟩
  fresh := by
    intro entry mem
    rcases List.mem_cons.1 mem with rfl | mem
    · exact bound
    · exact (valid_drop hv).fresh entry mem

theorem valid_put (hv : h.Valid) : (h.put name v).Valid where
  nodup := (valid_point (h := { h with next := h.next + 1 }) ⟨hv.nodup, fun entry mem =>
    (hv.fresh entry mem).trans h.next.lt_succ_self⟩ h.next.lt_succ_self).nodup
  fresh := by
    intro entry mem
    rcases List.mem_cons.1 mem with rfl | mem
    · exact h.next.lt_succ_self
    · exact ((valid_drop hv).fresh entry mem).trans h.next.lt_succ_self

/-- A count is the number of names that refer to the cell. -/
theorem countCell_eq_encard (hv : h.Valid) (c : Nat) :
    (h.countCell c : ℕ∞) = {m | h.cell? m = some c}.encard := by
  have listed : {m | h.cell? m = some c} = ((h.cells.filter (·.2 == c)).map (·.1)).toFinset := by
    ext m
    simp [← mem_cells_iff hv.nodup]
  have nodup : ((h.cells.filter (·.2 == c)).map (·.1)).Nodup :=
    hv.nodup.sublist (List.filter_sublist.map _)
  rw [listed, Set.encard_coe_eq_coe_finsetCard, List.toFinset_card_of_nodup nodup,
    List.length_map, countCell, List.countP_eq_length_filter]

/-- With a count of one, no other name is at the cell. -/
theorem eq_of_countCell_eq_one (hv : h.Valid) (one : h.countCell c = 1)
    (at_c : h.cell? name = some c) (also : h.cell? m = some c) : m = name := by
  have single : {m | h.cell? m = some c}.encard = 1 := by rw [← countCell_eq_encard hv, one]; rfl
  obtain ⟨only, is_only⟩ := Set.encard_eq_one.1 single
  have first : name ∈ ({only} : Set κ) := is_only ▸ at_c
  have second : m ∈ ({only} : Set κ) := is_only ▸ also
  rw [Set.mem_singleton_iff.1 first, Set.mem_singleton_iff.1 second]

/-- With another count, some other name is at the cell. -/
theorem exists_ne_of_countCell_ne_one (hv : h.Valid) (more : h.countCell c ≠ 1)
    (at_c : h.cell? name = some c) : ∃ other, other ≠ name ∧ h.cell? other = some c := by
  by_contra alone
  push Not at alone
  have only : {m | h.cell? m = some c} = {name} := by
    ext m
    rw [Set.mem_ofPred_eq, Set.mem_singleton_iff]
    exact ⟨fun also => by_contra fun ne => alone m ne also, fun same => same ▸ at_c⟩
  have single : (h.countCell c : ℕ∞) = 1 := by
    rw [countCell_eq_encard hv, only, Set.encard_singleton]
  exact more (by exact_mod_cast single)

/-! ## Values of names -/

theorem value?_eq_none : h.value? name = none ↔ h.cell? name = none := by
  simp [value?]

@[simp] theorem values_drop : (h.drop name).values = h.values := rfl

@[simp] theorem values_point : (h.point name c).values = h.values := rfl

theorem value?_drop : (h.drop name).value? = Function.update h.value? name none := by
  funext m
  simp only [value?, cell?_drop, values_drop, Function.update_apply]
  split <;> rfl

theorem value?_point :
    (h.point name c).value? = Function.update h.value? name (some (h.values c)) := by
  funext m
  simp only [value?, cell?_point, values_point, Function.update_apply]
  split <;> rfl

theorem value?_put (hv : h.Valid) :
    (h.put name v).value? = Function.update h.value? name (some v) := by
  have values : ∀ d, (h.put name v).values d = if d = h.next then v else h.values d := fun _ => rfl
  funext m
  simp only [value?, cell?_put, Function.update_apply]
  by_cases same : m = name
  · simp [same, values]
  · cases at_m : h.cell? m with
    | none => simp [same]
    | some c => simp [same, values, (hv.lt_next at_m).ne]

/-- Writing to a cell where a name is alone changes the value of that name only. -/
theorem value?_store (at_c : h.cell? name = some c)
    (alone : ∀ m, h.cell? m = some c → m = name) :
    (h.store name v).value? = Function.update h.value? name (some v) := by
  have cells : (h.store name v).cell? = h.cell? := by simp only [store, at_c]; rfl
  have values : ∀ d, (h.store name v).values d = if d = c then v else h.values d := fun d => by
    simp only [store, at_c]
  funext m
  simp only [value?, cells, Function.update_apply]
  by_cases same : m = name
  · simp [same, at_c, values]
  · cases at_m : h.cell? m with
    | none => simp [same]
    | some d =>
      have elsewhere : d ≠ c := fun there => same (alone m (there ▸ at_m))
      simp [same, values, elsewhere]

/-- Moving a name to a cell of its own changes no value. -/
theorem value?_detach (hv : h.Valid) (name : κ) : (h.detach name).value? = h.value? := by
  cases at_c : h.cell? name with
  | none => simp only [detach, at_c]
  | some c =>
    simp only [detach, at_c]
    split
    · rfl
    · have held : h.value? name = some (h.values c) := by simp [value?, at_c]
      rw [value?_put hv, ← held, Function.update_eq_self]

/-- A name that is moved to a cell of its own is alone there. -/
theorem exists_alone_detach (hv : h.Valid) (live : h.cell? name ≠ none) :
    ∃ c, (h.detach name).cell? name = some c ∧
      ∀ m, (h.detach name).cell? m = some c → m = name := by
  obtain ⟨c, at_c⟩ := Option.ne_none_iff_exists'.1 live
  simp only [detach, at_c]
  split
  · rename_i one
    exact ⟨c, at_c, fun m also => eq_of_countCell_eq_one hv one at_c also⟩
  · refine ⟨h.next, by simp [cell?_put], fun m also => ?_⟩
    by_contra ne
    rw [cell?_put, Function.update_of_ne ne] at also
    exact (hv.lt_next also).false

theorem valid_detach (hv : h.Valid) : (h.detach name).Valid := by
  unfold detach
  split
  · split
    · exact hv
    · exact valid_put hv
  · exact hv

theorem cells_store : (h.store name v).cells = h.cells := by
  unfold store
  split <;> rfl

theorem next_store : (h.store name v).next = h.next := by
  unfold store
  split <;> rfl

theorem valid_store (hv : h.Valid) : (h.store name v).Valid where
  nodup := by
    rw [names, cells_store]
    exact hv.nodup
  fresh := by
    rw [cells_store, next_store]
    exact hv.fresh

/-! ## Steps -/

section Effects

variable {f : Value → Except ε Value}

theorem perform_copy {as : κ} (at_c : h.cell? name = some c) :
    h.perform (.copy name as : Step κ ε) = (.done, h.point as c) := by
  simp only [perform, copy?, at_c, Option.map_some]

theorem perform_take (at_c : h.cell? name = some c) :
    h.perform (.take name : Step κ ε) = (.gave (h.values c), h.drop name) := by
  simp only [perform, take?, value?, at_c, Option.map_some]

theorem perform_replace (at_c : h.cell? name = some c) :
    h.perform (.replace name v : Step κ ε) = (.gave (h.values c), h.put name v) := by
  simp only [perform, replace?, value?, at_c, Option.map_some]

theorem perform_write (at_c : h.cell? name = some c) :
    h.perform (.write name f) = (.ofWrite (h.write name f).1, (h.write name f).2) := by
  simp only [perform, at_c]
  rcases h.write name f with ⟨⟨⟩ | e, h'⟩ <;> rfl

/-- Steps that need a live name. -/
inductive Needs (name : κ) : Step κ ε → Prop
  | copy (as : κ) : Needs name (.copy name as)
  | take : Needs name (.take name)
  | replace (v : Value) : Needs name (.replace name v)
  | write (f : Value → Except ε Value) : Needs name (.write name f)

/-- Without the name nothing happens. -/
theorem perform_absent {step : Step κ ε} (needs : Needs name step) (absent : h.cell? name = none) :
    h.perform step = (.missing, h) := by
  cases needs <;> simp only [perform, copy?, take?, replace?, value?, absent, Option.map_none]

/-- What a write does, by what becomes of the value. -/
theorem write_of_cell? (hv : h.Valid) (at_c : h.cell? name = some c) :
    h.write name f =
      match f (h.values c) with
      | .ok w => (.ok (), (h.detach name).store name w)
      | .error e => (.error e, h.detach name) := by
  have held : h.value? name = some (h.values c) := by simp only [value?, at_c, Option.map_some]
  cases result : f (h.values c) <;> simp only [write, value?_detach hv name, held, result]

end Effects

theorem valid_perform (hv : h.Valid) (step : Step κ ε) : (h.perform step).2.Valid := by
  cases step with
  | put name v => exact valid_put hv
  | drop name => exact valid_drop hv
  | copy name as =>
    cases at_c : h.cell? name with
    | none => rwa [perform_absent (.copy as) at_c]
    | some c =>
      rw [perform_copy at_c]
      exact valid_point hv (hv.lt_next at_c)
  | take name =>
    cases at_c : h.cell? name with
    | none => rwa [perform_absent .take at_c]
    | some c =>
      rw [perform_take at_c]
      exact valid_drop hv
  | replace name v =>
    cases at_c : h.cell? name with
    | none => rwa [perform_absent (.replace v) at_c]
    | some c =>
      rw [perform_replace at_c]
      exact valid_put hv
  | write name f =>
    cases at_c : h.cell? name with
    | none => rwa [perform_absent (.write f) at_c]
    | some c =>
      rw [perform_write at_c, write_of_cell? hv at_c]
      cases f (h.values c) with
      | ok w => exact valid_store (valid_detach hv)
      | error e => exact valid_detach hv

/-- Without the name nothing happens to independent values either. -/
theorem copies_absent {s : Copies κ} {step : Step κ ε} (needs : Needs name step)
    (absent : s name = none) : Copies.perform s step = (.missing, s) := by
  cases needs <;> simp only [Copies.perform, absent]

/-- A step has the same outcome as on independent values, and leaves the same values. -/
theorem perform_copies (hv : h.Valid) (step : Step κ ε) :
    Copies.perform h.value? step = ((h.perform step).1, (h.perform step).2.value?) := by
  have held : ∀ {name c}, h.cell? name = some c → h.value? name = some (h.values c) :=
      fun at_c => by
    simp only [value?, at_c, Option.map_some]
  have absent : ∀ {name} {step : Step κ ε}, Needs name step → h.cell? name = none →
      Copies.perform h.value? step = ((h.perform step).1, (h.perform step).2.value?) := by
    intro name step needs at_none
    rw [copies_absent needs (value?_eq_none.2 at_none), perform_absent needs at_none]
  cases step with
  | put name v => exact Prod.ext rfl (value?_put hv).symm
  | drop name => exact Prod.ext rfl value?_drop.symm
  | copy name as =>
    cases at_c : h.cell? name with
    | none => exact absent (.copy as) at_c
    | some c => simp only [Copies.perform, held at_c, perform_copy at_c, value?_point]
  | take name =>
    cases at_c : h.cell? name with
    | none => exact absent .take at_c
    | some c => simp only [Copies.perform, held at_c, perform_take at_c, value?_drop]
  | replace name v =>
    cases at_c : h.cell? name with
    | none => exact absent (.replace v) at_c
    | some c => simp only [Copies.perform, held at_c, perform_replace at_c, value?_put hv]
  | write name f =>
    cases at_c : h.cell? name with
    | none => exact absent (.write f) at_c
    | some c =>
      rw [perform_write at_c, write_of_cell? hv at_c]
      simp only [Copies.perform, held at_c]
      cases f (h.values c) with
      | ok w =>
        have live : h.cell? name ≠ none := by simp [at_c]
        obtain ⟨d, at_d, alone⟩ := exists_alone_detach hv live
        have stored : ((h.detach name).store name w).value? =
            Function.update h.value? name (some w) := by
          rw [value?_store at_d alone, value?_detach hv name]
        exact Prod.ext rfl stored.symm
      | error e => exact Prod.ext rfl (value?_detach hv name).symm

/-! ## Lineage -/

/-- For each live name, the number of the step that made its cell. -/
abbrev Lineage (κ : Type) := κ → Option Nat

/-- Whether a name shares its lineage with another one. -/
def Lineage.Common (o : Lineage κ) (name : κ) : Prop :=
  ∃ other, other ≠ name ∧ o name ≠ none ∧ o other = o name

open Classical in
/-- The lineages after a step with a number. New cells come from putting, from replacing and from
writing through a name that shares its cell. Copying passes the lineage on. -/
noncomputable def Lineage.after (o : Lineage κ) (t : Nat) : Step κ ε → Lineage κ
  | .put name _ => Function.update o name (some t)
  | .copy name as => if o name = none then o else Function.update o as (o name)
  | .drop name => Function.update o name none
  | .take name => Function.update o name none
  | .replace name _ => if o name = none then o else Function.update o name (some t)
  | .write name _ => if o.Common name then Function.update o name (some t) else o

/-- The lineages after a run whose first step has a number. -/
noncomputable def Lineage.afterAll (o : Lineage κ) (t : Nat) : List (Step κ ε) → Lineage κ
  | [] => o
  | step :: steps => (o.after t step).afterAll (t + 1) steps

/-- Two assignments that have nothing at the same names and are equal at the same pairs of names. -/
structure Alike (f g : κ → Option Nat) : Prop where
  none_iff : ∀ m, f m = none ↔ g m = none
  eq_iff : ∀ m n, f m = f n ↔ g m = g n

namespace Alike

variable {f g : κ → Option Nat} {x y : Nat}

theorem update_fresh (alike : Alike f g) (new_x : ∀ m, f m ≠ some x) (new_y : ∀ m, g m ≠ some y)
    (name : κ) : Alike (Function.update f name (some x)) (Function.update g name (some y)) where
  none_iff := fun m => by
    by_cases same : m = name <;> simp [same, alike.none_iff]
  eq_iff := fun m n => by
    by_cases same : m = name <;> by_cases same' : n = name <;>
      simp [same, same', alike.eq_iff, new_x, new_y, Ne.symm (new_x _), Ne.symm (new_y _)]

theorem update_none (alike : Alike f g) (name : κ) :
    Alike (Function.update f name none) (Function.update g name none) where
  none_iff := fun m => by
    by_cases same : m = name <;> simp [same, alike.none_iff]
  eq_iff := fun m n => by
    by_cases same : m = name <;> by_cases same' : n = name <;>
      simp [same, same', alike.eq_iff, alike.none_iff, eq_comm (a := none)]

theorem update_as (alike : Alike f g) (name as : κ) :
    Alike (Function.update f as (f name)) (Function.update g as (g name)) where
  none_iff := fun m => by
    by_cases same : m = as <;> simp [same, alike.none_iff]
  eq_iff := fun m n => by
    by_cases same : m = as <;> by_cases same' : n = as <;>
      simp [same, same', alike.eq_iff]

end Alike

/-- Lineages that tell which names share a cell, all from steps before a number. -/
structure Follows (o : Lineage κ) (t : Nat) (h : Holders κ) : Prop where
  alike : Alike o h.cell?
  past : ∀ m x, o m = some x → x < t

section Follows

variable {o : Lineage κ} {t : Nat}

theorem cell?_store : (h.store name v).cell? = h.cell? := by
  funext m
  rw [cell?, cells_store, cell?]

/-- The past of a step, with one more name at some lineage of the past or of the step. -/
theorem Follows.past_update (follows : Follows o t h) {x : Option Nat}
    (past : ∀ y, x = some y → y < t + 1) (m : κ) (y : Nat)
    (at_y : Function.update o name x m = some y) : y < t + 1 := by
  by_cases same : m = name
  · subst same
    rw [Function.update_self] at at_y
    exact past y at_y
  · rw [Function.update_of_ne same] at at_y
    exact (follows.past m y at_y).trans t.lt_succ_self

theorem Follows.put (hv : h.Valid) (follows : Follows o t h) (name : κ) (v : Value) :
    Follows (Function.update o name (some t)) (t + 1) (h.put name v) where
  alike := by
    rw [cell?_put]
    exact follows.alike.update_fresh (fun m at_t => (follows.past m t at_t).false)
      (fun m at_next => (hv.lt_next at_next).false) name
  past := follows.past_update fun y at_y => by cases at_y; exact t.lt_succ_self

theorem Follows.drop (follows : Follows o t h) (name : κ) :
    Follows (Function.update o name none) (t + 1) (h.drop name) where
  alike := by
    rw [cell?_drop]
    exact follows.alike.update_none name
  past := follows.past_update fun y at_y => by cases at_y

theorem Follows.succ (follows : Follows o t h) : Follows o (t + 1) h where
  alike := follows.alike
  past := fun m x at_x => (follows.past m x at_x).trans t.lt_succ_self

/-- A name shares its lineage when it is not alone at its cell. -/
theorem Follows.common_iff (hv : h.Valid) (follows : Follows o t h) (at_c : h.cell? name = some c) :
    o.Common name ↔ h.countCell c ≠ 1 := by
  constructor
  · rintro ⟨other, ne, -, same⟩ one
    have also : h.cell? other = some c := at_c ▸ (follows.alike.eq_iff other name).1 same
    exact ne (eq_of_countCell_eq_one hv one at_c also)
  · intro more
    obtain ⟨other, ne, also⟩ := exists_ne_of_countCell_ne_one hv more at_c
    have live : o name ≠ none := fun unset => by
      rw [(follows.alike.none_iff name).1 unset] at at_c
      cases at_c
    exact ⟨other, ne, live, (follows.alike.eq_iff other name).2 (also.trans at_c.symm)⟩

/-- Without the name the lineages stay. -/
theorem after_absent {step : Step κ ε} (needs : Needs name step) (absent : o name = none) :
    o.after t step = o := by
  have alone : ¬ o.Common name := fun ⟨_, _, live, _⟩ => live absent
  cases needs with
  | copy | replace => exact if_pos absent
  | take => rw [Lineage.after, ← absent, Function.update_eq_self]
  | write => exact if_neg alone

/-- A step keeps the lineages in line with the cells. -/
theorem follows_perform (hv : h.Valid) (follows : Follows o t h) (step : Step κ ε) :
    Follows (o.after t step) (t + 1) (h.perform step).2 := by
  have live : ∀ {name c}, h.cell? name = some c → o name ≠ none := fun {name c} at_c unset => by
    rw [(follows.alike.none_iff name).1 unset] at at_c
    cases at_c
  have absent : ∀ {name} {step : Step κ ε}, Needs name step → h.cell? name = none →
      Follows (o.after t step) (t + 1) (h.perform step).2 := by
    intro name step needs at_none
    rw [after_absent needs ((follows.alike.none_iff name).2 at_none), perform_absent needs at_none]
    exact follows.succ
  cases step with
  | put name v => exact follows.put hv name v
  | drop name => exact follows.drop name
  | copy name as =>
    cases at_c : h.cell? name with
    | none => exact absent (.copy as) at_c
    | some c =>
      rw [perform_copy at_c, Lineage.after, if_neg (live at_c)]
      refine ⟨?_, follows.past_update fun y at_y => (follows.past name y at_y).trans t.lt_succ_self⟩
      rw [cell?_point, ← at_c]
      exact follows.alike.update_as name as
  | take name =>
    cases at_c : h.cell? name with
    | none => exact absent .take at_c
    | some c =>
      rw [perform_take at_c]
      exact follows.drop name
  | replace name v =>
    cases at_c : h.cell? name with
    | none => exact absent (.replace v) at_c
    | some c =>
      rw [perform_replace at_c, Lineage.after, if_neg (live at_c)]
      exact follows.put hv name v
  | write name f =>
    cases at_c : h.cell? name with
    | none => exact absent (.write f) at_c
    | some c =>
      -- the name moves before the change is tried, and it has moved when the change is refused
      have moved : Follows (o.after t (.write name f)) (t + 1) (h.detach name) := by
        simp only [detach, at_c, Lineage.after, follows.common_iff hv at_c]
        by_cases one : h.countCell c = 1
        · simpa [one] using follows.succ
        · simpa [one] using follows.put hv name (h.values c)
      rw [perform_write at_c, write_of_cell? hv at_c]
      cases f (h.values c) with
      | ok w =>
        refine ⟨?_, moved.past⟩
        rw [cell?_store]
        exact moved.alike
      | error e => exact moved

end Follows

end Holders

/-! ## Runs -/

/-- Carry out steps one after another, and tell what becomes of each. -/
def through {σ τ ω : Type} (perform : σ → τ → ω × σ) (s : σ) : List τ → List ω × σ
  | [] => ([], s)
  | t :: ts =>
    let (o, s) := perform s t
    let (os, s) := through perform s ts
    (o :: os, s)

/-- All that can be seen of names that hold values. -/
structure Appearance (κ : Type) where
  value? : κ → Option Value
  count : κ → Nat
  isUnique : κ → Bool
  isShared : κ → κ → Bool

variable {κ ε : Type} [DecidableEq κ]

/-- Carry out steps on a store that is empty at first. -/
def Copies.run (steps : List (Holders.Step κ ε)) : List (Holders.Outcome ε) × Copies κ :=
  through Copies.perform (fun _ => none) steps

namespace Holders

/-- Carry out steps on holders without any names at first. -/
def run (steps : List (Step κ ε)) : List (Outcome ε) × Holders κ :=
  through perform empty steps

/-- The lineages after a run. -/
noncomputable def lineage (steps : List (Step κ ε)) : Lineage κ :=
  Lineage.afterAll (fun _ => none) 0 steps

/-- All that can be seen of holders. -/
def appearance (h : Holders κ) : Appearance κ :=
  ⟨h.value?, h.count, h.isUnique, h.isShared⟩

/-- What is promised after a run: outcomes and values as if every name owned its value, counts that
are numbers of names, and sharing by lineage. -/
structure Behaves (steps : List (Step κ ε)) (outcomes : List (Outcome ε)) (seen : Appearance κ) :
    Prop where
  outcomes_eq : outcomes = (Copies.run steps).1
  value_eq : ∀ name, seen.value? name = (Copies.run steps).2 name
  count_eq : ∀ name, (seen.count name : ℕ∞) = {other | seen.isShared name other}.encard
  unique_iff : ∀ name, seen.isUnique name ↔ {other | seen.isShared name other}.encard = 1
  shared_iff : ∀ m n, seen.isShared m n ↔ lineage steps m ≠ none ∧ lineage steps m = lineage steps n

theorem valid_through {h : Holders κ} (hv : h.Valid) (steps : List (Step κ ε)) :
    (through perform h steps).2.Valid := by
  induction steps generalizing h with
  | nil => exact hv
  | cons step steps ih => exact ih (valid_perform hv step)

/-- A run has the same outcomes as on independent values, and leads to the same values. -/
theorem through_copies {h : Holders κ} (hv : h.Valid) (steps : List (Step κ ε)) :
    through Copies.perform h.value? steps =
      ((through perform h steps).1, (through perform h steps).2.value?) := by
  induction steps generalizing h with
  | nil => rfl
  | cons step steps ih => simp only [through, perform_copies hv, ih (valid_perform hv step)]

/-- A run keeps the lineages in line with the cells. -/
theorem follows_through {h : Holders κ} (hv : h.Valid) {o : Lineage κ} {t : Nat}
    (follows : Follows o t h) (steps : List (Step κ ε)) :
    Follows (o.afterAll t steps) (t + steps.length) (through perform h steps).2 := by
  induction steps generalizing h o t with
  | nil => exact follows
  | cons step steps ih =>
    have next := ih (valid_perform hv step) (follows_perform hv follows step)
    rwa [Nat.add_assoc, Nat.add_comm 1] at next

theorem isShared_iff {h : Holders κ} {m n : κ} :
    h.isShared m n ↔ h.cell? m ≠ none ∧ h.cell? m = h.cell? n := by
  simp [isShared, Option.isSome_iff_ne_none]

/-- The count of a name is the number of names that share its cell. -/
theorem count_eq_encard {h : Holders κ} (hv : h.Valid) (name : κ) :
    (h.count name : ℕ∞) = {other | h.isShared name other}.encard := by
  simp only [isShared_iff, count]
  cases at_c : h.cell? name with
  | none => simp
  | some c => simpa [eq_comm] using countCell_eq_encard hv c

/-- What is promised holds of holders. -/
theorem behaves_run (steps : List (Step κ ε)) :
    Behaves steps (run steps).1 (run steps).2.appearance := by
  have hv : (run steps).2.Valid := valid_through valid_empty steps
  have copies := through_copies valid_empty steps
  have start : Follows (fun _ => none) 0 (empty : Holders κ) :=
    ⟨⟨fun _ => Iff.rfl, fun _ _ => Iff.rfl⟩, fun _ _ at_x => by cases at_x⟩
  have follows := follows_through valid_empty start steps
  constructor
  · exact (congrArg Prod.fst copies).symm
  · exact fun name => (congrFun (congrArg Prod.snd copies) name).symm
  · exact count_eq_encard hv
  · intro name
    have count := count_eq_encard hv name
    change (run steps).2.isUnique name = true ↔
      {other | (run steps).2.isShared name other}.encard = 1
    rw [isUnique, beq_iff_eq, ← count]
    norm_cast
  · intro m n
    rw [lineage, ne_eq, follows.alike.none_iff, follows.alike.eq_iff]
    exact isShared_iff

/-- A write that is refused changes no value. -/
theorem value?_of_refused {h : Holders κ} (hv : h.Valid) {name : κ} {f : Value → Except ε Value}
    {e : ε} (refused : (h.perform (.write name f)).1 = .refused e) :
    (h.perform (.write name f)).2.value? = h.value? := by
  have copies := perform_copies hv (.write name f)
  have values : (h.perform (.write name f)).2.value? = _ := (congrArg Prod.snd copies).symm
  have outcome : (h.perform (.write name f)).1 = _ := (congrArg Prod.fst copies).symm
  rw [values]
  rw [outcome] at refused
  simp only [Copies.perform] at refused ⊢
  cases held : h.value? name with
  | none => rfl
  | some v =>
    cases result : f v with
    | ok w => simp [held, result] at refused
    | error e => simp [result]

end Holders
end TypedTree
