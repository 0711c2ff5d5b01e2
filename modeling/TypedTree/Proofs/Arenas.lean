import TypedTree.Proofs.Boxes
import TypedTree.Value.Equality

/-!
# Runs of holders and of counted memory

Holders and counted memory are taken through runs of any length, over any number of names. At every
moment both show what a store of independent values shows, their counts are numbers of names, and
two names share exactly when they have a common lineage. The counted memory gets there with stored
counts in two layers, on which alone it decides what to copy and what to free.

## Main definitions

* `Arena.Source.value`, `Arena.Command.step`: what commands mean for values.
* `Holders.run`, `Copies.run`, `Arena.run`: runs.
* `Holders.Behaves`: what is promised at every moment of a run.

## Main statements

* `Arena.Models.perform`: a step in counted memory is a step of holders.
* `Holders.sharing_spec`: the promise is kept.
-/

namespace TypedTree

/-- The value inside another one at the end of a path of positions. -/
def Value.find? : List Nat → Value → Option Value
  | [], v => some v
  | i :: is, v => v.payload?.bind fun p => p.parts[i]?.bind (Value.find? is)

namespace Arena

variable {κ ε : Type}

/-- The value that a source makes from values made before. -/
def Source.value (s : Copies κ) (news : List Value) : Source κ → Value
  | .scalar x => x.value
  | .payload p => (p.map (news.getD · .void)).value
  | .part name path => ((s name).bind (Value.find? path)).getD .void

/-- The values that a recipe makes after others, the last of them in front. -/
def Source.valuesAfter (s : Copies κ) (news : List Value) (recipe : List (Source κ)) : List Value :=
  recipe.foldl (fun news source => source.value s news :: news) news

/-- The values that a recipe makes, the last of them in front. -/
def Source.values (s : Copies κ) (recipe : List (Source κ)) : List Value :=
  Source.valuesAfter s [] recipe

/-- What a command does, when names have values. -/
def Command.step (s : Copies κ) : Command κ ε → Holders.Step κ ε
  | .put name recipe => .put name ((Source.values s recipe).headD .void)
  | .copy name as => .copy name as
  | .drop name => .drop name
  | .take name => .take name
  | .replace name recipe => .replace name ((Source.values s recipe).headD .void)
  | .write name recipe misplaced revision =>
    .write name (revision.apply misplaced (Source.values s recipe))

/-! ## Making values -/

variable {a : Arena κ} {h : Holders κ} {pending : List Nat} {temps news held : List Word}
  {values : Nat → Value} {name : κ} {b : Nat} {w : Word}

/-- Words inside words in use are in use, and stand for the values inside the values. -/
theorem find?_spec {cells : Cells} {lent : List Nat} (sound : cells.Sound lent held values)
    (live : cells.Live w) (path : List Nat) :
    (cells.find? path w).map (Word.value values) = (w.value values).find? path ∧
      ∀ u, cells.find? path w = some u → cells.Live u := by
  induction path generalizing w with
  | nil => exact ⟨rfl, fun u found => by cases found; exact live⟩
  | cons i is ih =>
    cases w with
    | scalar s => simp [Cells.find?, Value.find?]
    | ref c =>
      have payload : (values c).payload? =
          some ((cells.cell c).payload.map (Word.value values)) := by
        rw [sound.valued c (live c rfl), Payload.valueBy, Payload.payload?_value]
      simp only [Cells.find?, Value.find?, Word.value_ref, payload, Option.bind_some,
        Payload.parts_map, List.getElem?_map]
      cases at_i : (cells.cell c).payload.parts[i]? with
      | none => simp
      | some x => simpa using ih (sound.live_of_mem_parts (List.mem_of_getElem? at_i))

namespace Models

/-- A new cell for a payload of words that are in use. -/
theorem alloc (models : a.Models pending temps values h) {p : Payload Word}
    (live : ∀ u ∈ p.parts, a.cells.Live u) :
    ∃ values', Models { a with cells := ((a.cells.retainAll p.parts).alloc p).2 } pending
        (((a.cells.retainAll p.parts).alloc p).1 :: temps) values' h ∧
      ((a.cells.retainAll p.parts).alloc p).1.value values' = p.valueBy values ∧
      ∀ u ∈ temps, u.value values' = u.value values := by
  have reserved := (models.sound.retainAll live).reserve
  have vacant := (reserved.waiting _ (List.mem_cons_self ..)).2
  have same : ∀ u ∈ temps ++ a.boxes.map (·.word), u.value (Function.update values
      (a.cells.retainAll p.parts).length (p.valueBy values)) = u.value values := fun u mem =>
    reserved.value_update vacant (by
      rw [List.append_assoc]
      exact List.mem_append_right _ (List.mem_append_left _ mem))
  refine ⟨_, { models with valued := fun c inUse => ?_, sound := reserved.fill }, ?_,
    fun u mem => ?_⟩
  · rw [← models.valued c inUse]
    exact same _ (List.mem_append_right _ (mem_words inUse))
  · exact Function.update_self ..
  · exact same u (List.mem_append_left _ mem)

variable [DecidableEq κ]

/-- Making a value in memory. -/
theorem make (models : a.Models [] news values h) (hv : h.Valid) (source : Source κ) :
    let made := Arena.make (news, a) source
    ∃ values', made.2.Models [] made.1 values' h ∧ made.1.map (Word.value values') =
      source.value h.value? (news.map (Word.value values)) :: news.map (Word.value values) := by
  cases source with
  | scalar s =>
    exact ⟨values, { models with sound := Cells.Sound.scalar_iff.2 models.sound }, rfl⟩
  | payload p =>
    have live : ∀ u ∈ (p.map (news.getD · .blank)).parts, a.cells.Live u := by
      intro u mem
      rw [Payload.parts_map] at mem
      obtain ⟨i, -, rfl⟩ := List.mem_map.1 mem
      exact models.sound.live_getD (fun u mem => List.mem_append_left _ mem) i
    obtain ⟨values', made, value, same⟩ := models.alloc live
    refine ⟨values', made, ?_⟩
    simp only [Arena.make, Source.value, List.map_cons]
    rw [value, List.map_congr_left same, Payload.valueBy, Payload.map_map]
    refine congrArg (· :: _) (congrArg Payload.value (Payload.map_congr fun i _ => ?_))
    exact Cells.value_getD news i
  | part name path =>
    simp only [Arena.make, Source.value, models.box?_eq, Holders.value?]
    cases at_b : h.cell? name with
    | none => exact ⟨values, models.retain (Cells.live_blank _), rfl⟩
    | some b =>
      have inUse := models.live_of_cell? hv at_b
      have usable := models.sound.live (List.mem_append_right news (mem_words inUse))
      obtain ⟨value, live⟩ := find?_spec models.sound usable path
      rw [models.valued b inUse] at value
      simp only [Option.bind_some, Option.map_some, ← value]
      cases found : a.cells.find? path (a.box b).word with
      | none => exact ⟨values, models.retain (Cells.live_blank _), rfl⟩
      | some u => exact ⟨values, models.retain (live u found), rfl⟩

/-- Making several values in memory. -/
theorem makeAll (models : a.Models [] [] values h) (hv : h.Valid) (recipe : List (Source κ)) :
    ∃ values', (a.makeAll recipe).2.Models [] (a.makeAll recipe).1 values' h ∧
      (a.makeAll recipe).1.map (Word.value values') = Source.values h.value? recipe := by
  suffices after : ∀ (news : List Word) (a : Arena κ) (values : Nat → Value),
      a.Models [] news values h → ∃ values',
        (recipe.foldl Arena.make (news, a)).2.Models [] (recipe.foldl Arena.make (news, a)).1
          values' h ∧
        (recipe.foldl Arena.make (news, a)).1.map (Word.value values') =
          Source.valuesAfter h.value? (news.map (Word.value values)) recipe by
    exact after [] a values models
  clear models
  induction recipe with
  | nil => exact fun news a values models => ⟨values, models, rfl⟩
  | cons source rest ih =>
    intro news a values models
    obtain ⟨between, made, value⟩ := models.make hv source
    obtain ⟨values', made', value'⟩ := ih _ _ _ made
    rw [value] at value'
    exact ⟨values', made', value'⟩

/-! ## Commands -/

omit [DecidableEq κ] in
/-- The value made last, in a new box. -/
theorem encloseMade (models : a.Models pending news values h) :
    (a.encloseMade news).1 = h.next ∧
      (a.encloseMade news).2.Models (h.next :: pending) news values
        (h.reserve ((news.map (Word.value values)).headD .void)) := by
  have live : a.cells.Live (news.headD .blank) := by
    cases news with
    | nil => exact a.cells.live_blank
    | cons w rest => exact models.sound.live (by simp)
  have value : (news.headD .blank).value values = (news.map (Word.value values)).headD .void := by
    cases news <;> rfl
  rw [← value]
  exact ⟨models.size, (models.retain live).enclose⟩

theorem put (models : a.Models [] news values h) (hv : h.Valid) (name : κ) :
    (a.put name news).Models [] news values
      (h.put name ((news.map (Word.value values)).headD .void)) := by
  obtain ⟨number, enclosed⟩ := models.encloseMade
  simp only [Arena.put, number]
  exact enclosed.rebind (Holders.valid_reserve hv) name

theorem take (models : a.Models [] temps values h) (hv : h.Valid) (at_b : h.cell? name = some b) :
    (a.take name b).1 = h.values b ∧ (a.take name b).2.Models [] temps values (h.drop name) := by
  obtain ⟨left, value⟩ := (models.unbind hv.nodup at_b).leave
  have usable := left.sound.live (List.mem_append_left _ (List.mem_cons_self ..))
  refine ⟨?_, left.discard [_]⟩
  rw [← Holders.values_drop, ← value]
  exact left.sound.read usable

theorem replace (models : a.Models [] news values h) (hv : h.Valid) (at_b : h.cell? name = some b) :
    (a.replace name b news).1 = h.values b ∧
      (a.replace name b news).2.Models [] news values
        (h.put name ((news.map (Word.value values)).headD .void)) := by
  obtain ⟨number, enclosed⟩ := models.encloseMade
  have unbound := (enclosed.unbind (Holders.valid_reserve hv).nodup at_b).perm_pending (.swap ..)
  obtain ⟨left, value⟩ := (unbound.bind name).leave
  have usable := left.sound.live (List.mem_append_left _ (List.mem_cons_self ..))
  have old : (h.reserve ((news.map (Word.value values)).headD .void)).values b = h.values b :=
    if_neg (hv.lt_next at_b).ne
  simp only [Arena.replace, number]
  refine ⟨?_, left.discard [_]⟩
  rw [← old]
  exact (left.sound.read usable).trans value

omit [DecidableEq κ] in
/-- A change inside the value of a box in use. -/
theorem revise (models : a.Models [] temps values h) (inUse : (a.box b).count ≠ 0)
    (inside : ∀ u ∈ news, u ∈ temps) (misplaced : ε) (revision : Revision ε) :
    let r := Cells.revise misplaced news revision (a.box b).word a.cells
    ∃ values', Models
        { a with boxes := a.boxes.set b { a.box b with word := r.2.1 }, cells := r.2.2 } [] temps
        values' { h with values := fun c => if c = b then r.2.1.value values' else h.values c } ∧
      Leaves (revision.apply misplaced (news.map (Word.value values)) (h.values b)) (h.values b) r.1
        (r.2.1.value values') := by
  have bound := lt_length_of_count inUse
  obtain ⟨values', revised, same, leaves⟩ :=
    ((models.sound_apart bound).perm List.perm_middle).revise misplaced revision
      fun u mem => List.mem_append_left _ (inside u mem)
  rw [models.valued b inUse] at leaves
  refine ⟨values', ?_, leaves⟩
  refine models.set bound (fun c => ?_) (fun _ => (if_pos rfl).symm) (fun c other live => ?_)
    (fun zero => absurd zero inUse) (revised.perm List.perm_middle.symm)
  · by_cases at_b : c = b <;> simp [at_b]
  · rw [if_neg other, ← models.valued c live]
    exact same _ (List.mem_append_right _ (mem_otherWords live other))

/-- A write in memory is a write of holders. -/
theorem write (models : a.Models [] temps values h) (hv : h.Valid) (at_b : h.cell? name = some b)
    (inside : ∀ u ∈ news, u ∈ temps) (misplaced : ε) (revision : Revision ε) :
    let f := revision.apply misplaced (news.map (Word.value values))
    (a.write name b news misplaced revision).1 = (h.write name f).1 ∧
      ∃ values', (a.write name b news misplaced revision).2.Models [] temps values'
        (h.write name f).2 := by
  intro f
  obtain ⟨moved, at_new⟩ := models.detach hv rfl at_b
  have held : h.value? name = some (h.values b) := by
    simp only [Holders.value?, at_b, Option.map_some]
  have kept : (h.detach name).values (a.detach name b).1 = h.values b := by
    have detached := congrFun (Holders.value?_detach hv name) name
    rw [held, Holders.value?, at_new] at detached
    exact Option.some.inj detached
  have inUse := moved.live_of_cell? (Holders.valid_detach hv) at_new
  obtain ⟨values', revised, leaves⟩ := moved.revise inUse inside misplaced revision
  rw [kept] at leaves
  rw [Holders.write_of_cell? hv at_b]
  change Leaves (f (h.values b)) _ _ _ at leaves
  cases result : f (h.values b) with
  | ok v =>
    rw [result] at leaves
    rw [leaves.2] at revised
    refine ⟨leaves.1, values', ?_⟩
    simp only [Holders.store, at_new]
    exact revised
  | error e =>
    rw [result] at leaves
    -- the name stays in its new box, with the value that it had in the old one
    have unchanged : (fun c => if c = (a.detach name b).1 then h.values b
        else (h.detach name).values c) = (h.detach name).values := by
      funext c
      split
      · rename_i at_new
        rw [at_new, kept]
      · rfl
    rw [leaves.2, unchanged] at revised
    exact ⟨leaves.1, values', revised⟩

/-- A step in counted memory is a step of holders. -/
theorem perform (models : a.Models [] [] values h) (hv : h.Valid) (command : Command κ ε) :
    let step := command.step h.value?
    (a.perform command).1 = (h.perform step).1 ∧
      ∃ values', (a.perform command).2.Models [] [] values' (h.perform step).2 := by
  have absent : ∀ {name} {step : Holders.Step κ ε}, Holders.Needs name step →
      h.cell? name = none → Holders.Outcome.missing = (h.perform step).1 ∧
        ∃ values', a.Models [] [] values' (h.perform step).2 := by
    intro name step needs at_none
    rw [Holders.perform_absent needs at_none]
    exact ⟨rfl, values, models⟩
  cases command with
  | put name recipe =>
    obtain ⟨values', made, news⟩ := models.makeAll hv recipe
    have put := made.put hv name
    rw [news] at put
    exact ⟨rfl, values', put.discard_all⟩
  | copy name as =>
    simp only [Arena.perform, Command.step, models.box?_eq]
    cases at_b : h.cell? name with
    | none => exact absent (.copy as) at_b
    | some b =>
      rw [Holders.perform_copy at_b]
      exact ⟨rfl, values, (models.share (models.live_of_cell? hv at_b)).rebind hv as⟩
  | drop name =>
    simp only [Arena.perform, Command.step, Holders.perform, models.box?_eq]
    cases at_b : h.cell? name with
    | none => exact ⟨rfl, values, by rwa [Holders.drop_eq_self at_b]⟩
    | some b => exact ⟨rfl, values, (models.unbind hv.nodup at_b).abandon⟩
  | take name =>
    simp only [Arena.perform, Command.step, models.box?_eq]
    cases at_b : h.cell? name with
    | none => exact absent .take at_b
    | some b =>
      obtain ⟨value, taken⟩ := models.take hv at_b
      rw [Holders.perform_take at_b]
      exact ⟨congrArg Holders.Outcome.gave value, values, taken⟩
  | replace name recipe =>
    simp only [Arena.perform, Command.step, models.box?_eq]
    cases at_b : h.cell? name with
    | none => exact absent (.replace _) at_b
    | some b =>
      obtain ⟨values', made, news⟩ := models.makeAll hv recipe
      obtain ⟨value, replaced⟩ := made.replace hv at_b
      rw [news] at replaced
      rw [Holders.perform_replace at_b]
      exact ⟨congrArg Holders.Outcome.gave value, values', replaced.discard_all⟩
  | write name recipe misplaced revision =>
    simp only [Arena.perform, Command.step, models.box?_eq]
    cases at_b : h.cell? name with
    | none => exact absent (.write _) at_b
    | some b =>
      obtain ⟨values', made, news⟩ := models.makeAll hv recipe
      obtain ⟨outcome, values'', written⟩ :=
        made.write hv at_b (fun u mem => mem) misplaced revision
      rw [news] at outcome written
      rw [Holders.perform_write at_b]
      exact ⟨congrArg Holders.Outcome.ofWrite outcome, values'', written.discard_all⟩

end Models

/-! ## Recipes -/

theorem Source.valuesAfter_append (s : Copies κ) (news : List Value)
    (recipe more : List (Source κ)) : Source.valuesAfter s news (recipe ++ more) =
      Source.valuesAfter s (Source.valuesAfter s news recipe) more :=
  List.foldl_append

/-- If each of some values has a recipe, then one recipe makes them all. -/
private theorem exists_recipe_all {vs : List Value}
    (each : ∀ v ∈ vs, ∃ (recipe : List (Source κ)) (out : List Value), v ∈ out ∧
      ∀ s news, Source.valuesAfter s news recipe = out ++ news) :
    ∃ (recipe : List (Source κ)) (out : List Value), (∀ v ∈ vs, v ∈ out) ∧
      ∀ s news, Source.valuesAfter s news recipe = out ++ news := by
  induction vs with
  | nil => exact ⟨[], [], by simp, fun s news => rfl⟩
  | cons v vs ih =>
    obtain ⟨first, out, mem, makes⟩ := each v (List.mem_cons_self ..)
    obtain ⟨rest, out', mem', makes'⟩ := ih fun u hu => each u (List.mem_cons_of_mem _ hu)
    refine ⟨first ++ rest, out' ++ out, fun u hu => ?_, fun s news => ?_⟩
    · rcases List.mem_cons.1 hu with rfl | hu
      · exact List.mem_append_right _ mem
      · exact List.mem_append_left _ (mem' u hu)
    · rw [Source.valuesAfter_append, makes, makes', List.append_assoc]

/-- Every value can be made. -/
theorem exists_recipe (v : Value) : ∃ recipe : List (Source κ), ∀ s : Copies κ,
    (Source.values s recipe).headD .void = v := by
  suffices makes : ∃ (recipe : List (Source κ)) (out : List Value),
      ∀ s news, Source.valuesAfter s news recipe = v :: out ++ news by
    obtain ⟨recipe, out, makes⟩ := makes
    exact ⟨recipe, fun s => by rw [Source.values, makes]; rfl⟩
  induction size : sizeOf v using Nat.strongRecOn generalizing v with
  | ind n ih =>
    subst size
    obtain ⟨x, rfl⟩ | ⟨p, rfl⟩ := v.scalar_or_payload
    · exact ⟨[.scalar x], [], fun s news => rfl⟩
    · have each : ∀ v ∈ p.parts, ∃ (recipe : List (Source κ)) (out : List Value), v ∈ out ∧
          ∀ s news, Source.valuesAfter s news recipe = out ++ news := fun v hv => by
        obtain ⟨recipe, out, makes⟩ := ih _ (Payload.sizeOf_lt_of_mem_parts hv) v rfl
        exact ⟨recipe, v :: out, List.mem_cons_self .., makes⟩
      obtain ⟨recipe, out, inside, makes⟩ := exists_recipe_all each
      -- a part is taken from where it first stands among what the recipe has made
      refine ⟨recipe ++ [.payload (p.map out.idxOf)], out, fun s news => ?_⟩
      rw [Source.valuesAfter_append, makes]
      have made : (p.map out.idxOf).map ((out ++ news).getD · .void) = p := by
        rw [Payload.map_map]
        refine (Payload.map_congr fun v hv => ?_).trans p.map_id
        have bound := List.idxOf_lt_length_iff.2 (inside v hv)
        rw [Function.comp_apply, List.getD_append _ _ _ _ bound, List.getD_eq_getElem _ _ bound,
          List.getElem_idxOf bound, id]
      exact congrArg (fun q : Payload Value => q.value :: (out ++ news)) made

/-! ## Runs -/

variable [DecidableEq κ]

/-- Carry out commands on a memory that is empty at first. -/
def run (commands : List (Command κ ε)) : List (Holders.Outcome ε) × Arena κ :=
  through perform empty commands

/-- All that can be seen of an arena. -/
def appearance (a : Arena κ) : Appearance κ :=
  ⟨a.value?, a.count, a.isUnique, a.isShared⟩

/-- What commands do one after another, when names have values. -/
def Command.steps (s : Copies κ) : List (Command κ ε) → List (Holders.Step κ ε)
  | [] => []
  | command :: commands =>
    command.step s :: Command.steps (Copies.perform s (command.step s)).2 commands

omit [DecidableEq κ] in
theorem models_empty : (empty : Arena κ).Models [] [] (fun _ => .void) Holders.empty where
  names := rfl
  size := rfl
  counted := fun _ => rfl
  freed := fun _ _ => rfl
  valued := fun _ live => absurd rfl live
  sound := Cells.sound_empty

/-- Memory that stands for holders shows what they show. -/
theorem Models.appearance_eq (models : a.Models [] [] values h) (hv : h.Valid) :
    a.appearance = h.appearance := by
  rw [appearance, Holders.appearance, funext (models.value?_eq hv), funext models.count_eq,
    funext models.isUnique_eq, funext fun m => funext (models.isShared_eq m)]

/-- A run in counted memory is a run of holders. -/
theorem models_through (models : a.Models [] [] values h) (hv : h.Valid)
    (commands : List (Command κ ε)) :
    let steps := Command.steps h.value? commands
    (through Arena.perform a commands).1 = (through Holders.perform h steps).1 ∧
      ∃ values', (through Arena.perform a commands).2.Models [] [] values'
        (through Holders.perform h steps).2 := by
  induction commands generalizing a h values with
  | nil => exact ⟨rfl, values, models⟩
  | cons command commands ih =>
    obtain ⟨outcome, between, performed⟩ := models.perform hv command
    obtain ⟨outcomes, values', models'⟩ := ih performed (Holders.valid_perform hv _)
    have store := congrArg Prod.snd (Holders.perform_copies hv (command.step h.value?))
    simp only [through, Command.steps, store, outcome, outcomes]
    exact ⟨trivial, values', models'⟩

theorem models_run (commands : List (Command κ ε)) :
    let steps := Command.steps (fun _ => none) commands
    (run commands).1 = (Holders.run steps).1 ∧
      ∃ values, (run commands).2.Models [] [] values (Holders.run steps).2 :=
  models_through models_empty Holders.valid_empty commands

/-- What is promised holds of an arena, and a write that is refused changes no value. -/
theorem behaves_run (commands : List (Command κ ε)) :
    let steps := Command.steps (fun _ => none) commands
    Holders.Behaves steps (run commands).1 (run commands).2.appearance ∧
      ∀ name recipe revision (misplaced e : ε),
        ((run commands).2.perform (.write name recipe misplaced revision)).1 = .refused e →
        ((run commands).2.perform (.write name recipe misplaced revision)).2.value? =
          (run commands).2.value? := by
  intro steps
  obtain ⟨outcomes, values, models⟩ := models_run commands
  have hv : (Holders.run steps).2.Valid := Holders.valid_through Holders.valid_empty steps
  constructor
  · rw [outcomes, models.appearance_eq hv]
    exact Holders.behaves_run steps
  · intro name recipe revision misplaced e refused
    obtain ⟨outcome, values', written⟩ :=
      models.perform hv (.write name recipe misplaced revision)
    have hv' := Holders.valid_perform hv
      ((Command.write name recipe misplaced revision).step (Holders.run steps).2.value?)
    rw [funext (models.value?_eq hv)]
    have refused' := outcome.symm.trans refused
    exact (funext (written.value?_eq hv')).trans (Holders.value?_of_refused hv refused')

end Arena

/-- Holders behave as independent values, and so do names in counted memory. After any run from the
start the outcomes and values are those of a store in which every name owns its value, a count is
the number of names that share, a name is unique when that number is one, and two names share when
they have a common lineage. A write that is then refused changes no value. Every value can be made
for the steps in counted memory. -/
theorem Holders.sharing_spec (κ ε : Type) [DecidableEq κ] :
    (∀ steps : List (Step κ ε), Behaves steps (run steps).1 (run steps).2.appearance ∧
      ∀ name f (e : ε), ((run steps).2.perform (.write name f)).1 = .refused e →
        ((run steps).2.perform (.write name f)).2.value? = (run steps).2.value?) ∧
    (∀ commands : List (Arena.Command κ ε),
      Behaves (Arena.Command.steps (fun _ => none) commands) (Arena.run commands).1
        (Arena.run commands).2.appearance ∧
      ∀ name recipe revision (misplaced e : ε),
        ((Arena.run commands).2.perform (.write name recipe misplaced revision)).1 = .refused e →
        ((Arena.run commands).2.perform (.write name recipe misplaced revision)).2.value? =
          (Arena.run commands).2.value?) ∧
    ∀ v, ∃ recipe : List (Arena.Source κ), ∀ s : Copies κ,
      (Arena.Source.values s recipe).headD .void = v :=
  ⟨fun steps => ⟨behaves_run steps, fun _ _ _ =>
    value?_of_refused (valid_through valid_empty steps)⟩, Arena.behaves_run, Arena.exists_recipe⟩

end TypedTree
