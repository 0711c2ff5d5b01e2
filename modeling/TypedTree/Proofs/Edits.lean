import TypedTree.Proofs.Independence

/-!
# Edits lead from accepted values to accepted values

An edit checks a part of what the check of its result would: a size but no items, a position but not
the other entries, a binding but not the others. The rest it takes from the value that it changes
and from defaults, both of which are accepted. So the result of an edit that a type offers is
accepted by the type, and the check of a changed node never refuses it.

## Main statements

* `ArrayEdit.holds_apply`, `MapEdit.holds_apply`, `Ty.holds_selectTag`, …: one for each sort of
  edit.
* `Registry.accepts_edit?`: the result of an edit is accepted.
* `Tree.edits_closed`: in a tree, an edit fails only where the edit itself does.
-/

namespace TypedTree

section

variable {o : Oracle} {name : String} {v w : Value}

theorem Attempt.answer_succeeds {α : Type} (x : Attempt α) :
    x.succeeds.answer o = .ok (x.answer o).isOk := by
  rw [succeeds, answer, answer, ExceptT.run_lift]
  simp only [Inquiry.answer_map]
  cases (ExceptT.run x).answer o <;> rfl

/-! ## Arrays -/

theorem ArrayEdit.holds_apply {e : ArrayEdit} {element : Ty} {size : SizeBounds}
    (suits : element.Suits o Ty.default) (hv : (Kind.array element size).Holds o v)
    (h : (e.apply name element size v).answer o = .ok w) :
    (Kind.array element size).Holds o w := by
  obtain ⟨items, rfl⟩ : ∃ items, v = .array items := by cases v <;> simp [Kind.Holds] at hv ⊢
  obtain ⟨allowed, items_fit⟩ := hv
  cases e with
  | resize n =>
    rw [apply, Attempt.answer_bind, Attempt.answer_ofExcept, Outcome.seq_eq_ok,
      SizeBounds.check_eq_ok] at h
    obtain ⟨within, h⟩ := h
    simp only [Attempt.answer_ite] at h
    split at h
    · obtain rfl : Value.array items = w := by simpa using h
      exact ⟨allowed, items_fit⟩
    split at h
    · rename_i shorter
      obtain rfl : Value.array (items.take n.toNat) = w := by simpa using h
      refine ⟨?_, fun x mem => items_fit x (List.mem_of_mem_take mem)⟩
      rwa [List.length_take, Nat.min_eq_left (Nat.le_of_lt shorter), saturate_toNat]
    · rename_i other longer
      obtain ⟨item, made, rfl⟩ := Attempt.bind_pure_eq_ok.1 h
      refine ⟨?_, fun x mem => ?_⟩
      · rwa [List.length_append, List.length_replicate, Nat.add_sub_of_le (by omega),
          saturate_toNat]
      · rcases List.mem_append.1 mem with old | new
        · exact items_fit x old
        · obtain rfl := List.eq_of_mem_replicate new
          exact suits x made
  | insert pos =>
    simp only [apply, Attempt.answer_ite, Attempt.answer_invalid] at h
    split at h
    · cases h
    · rename_i inside
      rw [Attempt.answer_bind, Attempt.answer_ofExcept, Outcome.seq_eq_ok,
        SizeBounds.check_eq_ok] at h
      obtain ⟨within, h⟩ := h
      obtain ⟨item, made, rfl⟩ := Attempt.bind_pure_eq_ok.1 h
      refine ⟨?_, fun x mem => ?_⟩
      · rwa [List.length_insertIdx, if_pos (by omega)]
      · rcases (List.mem_insertIdx (by omega)).1 mem with rfl | old
        · exact suits x made
        · exact items_fit x old
  | remove pos =>
    simp only [apply, Attempt.answer_ite, Attempt.answer_invalid] at h
    split at h
    · cases h
    · rename_i inside
      obtain ⟨within, rfl⟩ : size.Allows (saturate (items.length - 1)) ∧
          Value.array (items.eraseIdx pos) = w := by
        simpa [SizeBounds.check_eq_ok] using h
      refine ⟨?_, fun x mem => items_fit x (List.mem_of_mem_eraseIdx mem)⟩
      rwa [List.length_eraseIdx, if_pos (by omega)]

/-! ## Mappings -/

theorem Mapping.fits_insert {table changed : Mapping Value} {source target : Ty} {pos : Nat}
    {e : Entry Value} (ht : table.Fits o source target)
    (he : (e.checkAt name source target pos).answer o = .ok ())
    (h : table.insert pos e = .ok changed) : changed.Fits o source target := by
  obtain ⟨_ | p, t⟩ := e
  · simp [insert, Entry.rule?] at h
  obtain ⟨pattern, answer⟩ : p.Fits o source ∧ t.Fits o source target := by
    simpa only [Entry.checkAt, Attempt.answer_bind, Outcome.seq_eq_ok, Pattern.answer_checkAt,
      Target.answer_checkAt] using he
  simp only [insert, Entry.rule?, Option.map_some] at h
  split at h
  · rename_i inside
    obtain rfl := Except.ok.inj h
    refine ⟨fun rule mem => ?_, ht.2⟩
    rcases (List.mem_insertIdx inside).1 mem with rfl | old
    · exact ⟨pattern, answer⟩
    · exact ht.1 rule old
  · cases h

theorem Mapping.fits_remove {table : Mapping Value} {source target : Ty} {pos : Nat}
    {taken : Entry Value × Mapping Value} (ht : table.Fits o source target)
    (h : table.remove pos = .ok taken) : taken.2.Fits o source target := by
  unfold remove at h
  split at h
  · obtain rfl := Except.ok.inj h
    exact ⟨fun rule mem => ht.1 rule (List.mem_of_mem_eraseIdx mem), ht.2⟩
  · split at h <;> cases h

theorem MapEdit.holds_apply {e : MapEdit} {source target : Ty}
    (hv : (Kind.map source target).Holds o v)
    (h : (e.apply name source target v).answer o = .ok w) :
    (Kind.map source target).Holds o w := by
  obtain ⟨table, rfl⟩ : ∃ table, v = .map table := by cases v <;> simp [Kind.Holds] at hv ⊢
  cases e with
  | insert pos e =>
    simp only [apply, Attempt.ofMapping, Attempt.answer_bind, Outcome.seq_eq_ok] at h
    obtain ⟨checked, h⟩ := h
    cases changed : table.insert pos e with
    | error e => simp [changed] at h
    | ok table' =>
      obtain rfl : Value.map table' = w := by simpa [changed] using h
      exact Mapping.fits_insert hv checked changed
  | remove pos =>
    simp only [apply, Attempt.ofMapping] at h
    cases changed : table.remove pos with
    | error e => simp [changed, Except.map] at h
    | ok taken =>
      obtain rfl : Value.map taken.2 = w := by simpa [changed, Except.map] using h
      exact Mapping.fits_remove hv changed
  | setFallback t =>
    obtain ⟨fits, rfl⟩ : t.Fits o source target ∧ Value.map (table.setFallback t) = w := by
      simpa only [apply, Attempt.ofMapping, Attempt.answer_bind, Outcome.seq_eq_ok,
        Target.answer_checkAt, Attempt.answer_pure, Except.ok.injEq] using h
    exact ⟨hv.1, fits⟩

/-! ## Records -/

/-- New content that fits the first field under a name fits in the first slot under that name. -/
theorem Slots.fits_set {slots : Slots} {fields : List (Field Ty)} {f : Field Ty} {id : Ident}
    {content : Option Value} (h : List.Forall₂ (fun s f => Field.Fits o f s) slots fields)
    (first : fields.find? (·.id == id) = some f) (hf : f.Fits o (id, content)) :
    List.Forall₂ (fun s f => Field.Fits o f s) (slots.set id content) fields := by
  induction h with
  | nil => simp at first
  | @cons s g slots fields fits rest ih =>
    by_cases here : s.1 = id
    · obtain rfl : g = f := by
        simpa [List.find?_cons, fits.1.trans here] using first
      simp only [set, here, if_true]
      exact .cons hf rest
    · have other : (g.id == id) = false := by
        simpa [fits.1] using here
      rw [List.find?_cons, other] at first
      simp only [set, here, if_false]
      exact .cons fits (ih first)

namespace Ty

theorem holds_setActive {fields : List (Field Ty)} {id : Ident} {active : Bool}
    (suits : ∀ f ∈ fields, f.type.Suits o Ty.default) (hv : (Kind.record fields).Holds o v)
    (h : (setActive name fields v id active).answer o = .ok w) :
    (Kind.record fields).Holds o w := by
  obtain ⟨slots, rfl⟩ : ∃ slots, v = .record slots := by cases v <;> simp [Kind.Holds] at hv ⊢
  unfold setActive at h
  split at h
  · cases h
  rename_i f first
  obtain rfl : f.id = id := by simpa using List.find?_some first
  simp only [Attempt.answer_ite, Attempt.answer_invalid] at h
  split at h
  · cases h
  rename_i allowed
  split at h
  · obtain rfl : Value.record slots = w := by simpa using h
    exact hv
  split at h
  · obtain ⟨content, made, rfl⟩ := Attempt.bind_pure_eq_ok.1 h
    exact Slots.fits_set hv first ⟨rfl, suits f (List.mem_of_find?_eq_some first) content made⟩
  · rename_i inactive
    obtain rfl : Value.record (Slots.set f.id none slots) = w := by simpa using h
    refine Slots.fits_set hv first ⟨rfl, ?_⟩
    simpa [inactive] using allowed

/-! ## Sums -/

theorem holds_selectSummand {summands : List Ty} {initial index : UInt32}
    (suits : ∀ s ∈ summands, s.Suits o Ty.default) (hv : (Kind.sum summands initial).Holds o v)
    (h : (selectSummand name summands v index).answer o = .ok w) :
    (Kind.sum summands initial).Holds o w := by
  obtain ⟨current, inner, rfl⟩ : ∃ current inner, v = .sum current inner := by
    cases v <;> simp [Kind.Holds] at hv ⊢
  unfold selectSummand at h
  split at h
  · cases h
  rename_i s found
  simp only [Attempt.answer_ite] at h
  split at h
  · obtain rfl : Value.sum current inner = w := by simpa using h
    exact hv
  · obtain ⟨x, made, rfl⟩ := Attempt.bind_pure_eq_ok.1 h
    exact ⟨s, found, suits s (List.mem_of_getElem? found) x made⟩

/-! ## Generics -/

theorem holds_bindVariable {body : TypeRef} {inner : Ty} {vars index : UInt32}
    {bound : List (TypeRef × Ty)} {binding : TypeRef}
    (suits : ∀ bindings t, body.HasInstance o vars bindings t → t.Suits o Ty.default)
    (hv : (Kind.generic body inner vars bound).Holds o v)
    (h : (bindVariable name body vars v index binding).answer o = .ok w) :
    (Kind.generic body inner vars bound).Holds o w := by
  obtain ⟨current, content, rfl⟩ : ∃ current content, v = .generic current content := by
    cases v <;> simp [Kind.Holds] at hv ⊢
  obtain ⟨count, closed, -⟩ := hv
  unfold bindVariable at h
  simp only [Attempt.answer_ite, Attempt.answer_invalid] at h
  split at h
  · cases h
  obtain ⟨b, checked, t, expanded, h⟩ : ∃ b, (Attempt.checkBinding binding).answer o = .ok b ∧
      ∃ t, (Attempt.expand body vars (current.set index.toNat binding)).answer o = .ok t ∧ _ := by
    simpa only [Attempt.answer_bind, Outcome.bind_eq_ok] using h
  have own := Attempt.answer_expand.1 expanded
  have closed' : ∀ r ∈ current.set index.toNat binding, r.Closed o := by
    intro r mem
    rcases List.mem_or_eq_of_mem_set mem with old | rfl
    · exact closed r old
    · exact ⟨b, Attempt.answer_checkBinding.1 checked⟩
  -- The old content stays only where the new instance accepts it.
  obtain ⟨x, accepted, rfl⟩ : ∃ x, t.Accepts o x ∧
      Value.generic (current.set index.toNat binding) x = w := by
    simp only [Attempt.answer_succeeds, Attempt.answer_ite, Except.ok.injEq, exists_eq_left'] at h
    split at h
    · rename_i kept
      obtain rfl : Value.generic (current.set index.toNat binding) content = w := by simpa using h
      refine ⟨content, ?_, rfl⟩
      cases accepted : (t.check content).answer o with
      | ok _ => exact accepted
      | error e => simp [accepted, Except.isOk, Except.toBool] at kept
    · obtain ⟨x, made, rfl⟩ := Attempt.bind_pure_eq_ok.1 h
      exact ⟨x, suits _ t own x made, rfl⟩
  exact ⟨by rw [List.length_set, count], closed', t, own, accepted⟩

/-! ## Variants -/

/-- Fields that are kept are accepted at the new tag, since both tags list the same declared
field. -/
theorem accepts_kept {declared : List (Ident × Ty)} {tags : List Tag} {initial : Tag} {tag : Ident}
    {fields : Fields} (formed : Kind.VariantFormed declared tags initial)
    (hv : (Kind.variant declared tags initial).Holds o (.variant tag fields))
    {d : Ident × Ty} (declares : d ∈ declared) (kept : Fields.get? fields d.1 = some w) :
    d.2.Accepts o w := by
  obtain ⟨old, found, count, each⟩ := hv
  have listed := formed.positions_lt old (List.mem_of_find?_eq_some found)
  rw [← length_tagFields listed] at count
  obtain ⟨front, back, rfl, -⟩ := List.lookup_eq_some_iff.1 kept
  have place : (front ++ (d.1, w) :: back)[front.length]? = some (d.1, w) := by simp
  obtain ⟨e, he, named, accepted⟩ := Fields.accepts_field each count place
  obtain rfl : e = d :=
    List.inj_on_of_nodup_map formed.fields_nodup (mem_of_mem_tagFields he) declares named
  exact accepted

theorem holds_selectTag {declared : List (Ident × Ty)} {tags : List Tag} {initial : Tag}
    {tag : Ident} (formed : Kind.VariantFormed declared tags initial)
    (suits : ∀ d ∈ declared, d.2.Suits o Ty.default)
    (hv : (Kind.variant declared tags initial).Holds o v)
    (h : (selectTag name declared tags v tag).answer o = .ok w) :
    (Kind.variant declared tags initial).Holds o w := by
  obtain ⟨current, fields, rfl⟩ : ∃ current fields, v = .variant current fields := by
    cases v <;> simp [Kind.Holds] at hv ⊢
  unfold selectTag at h
  split at h
  · cases h
  rename_i d found
  simp only [Attempt.answer_ite] at h
  split at h
  · obtain rfl : Value.variant current fields = w := by simpa using h
    exact hv
  · exact holds_fill formed (List.mem_of_find?_eq_some found) suits
      (fun d declares x kept => accepts_kept formed hv declares kept) h

end Ty

end

namespace Registry

variable {home : Nat} {t : Ty} {v w : Value} {e : Edit} {x : Attempt Value}

/-- The result of an edit that an owned type offers for an accepted value is accepted. -/
theorem accepts_edit? (h : (core home).Owns t) (hv : t.Accepts (core home).oracle v)
    (offered : t.edit? v e = some x) (done : x.answer (core home).oracle = .ok w) :
    t.Accepts (core home).oracle w := by
  have forms := forms_of_owns h
  have suits (s : Ty) (hs : (core home).Owns s) : s.Suits (core home).oracle Ty.default :=
    fun _ made => accepts_default hs made
  have parts (s : Ty) (hs : s ∈ t.kind.parts) := suits s (forms.owns_parts s hs)
  rw [Ty.accepts_iff] at hv ⊢
  obtain ⟨_, ref, name, kind⟩ := t
  cases kind with
  | array element size =>
    cases e with
    | array e =>
      obtain rfl := Option.some.inj offered
      exact e.holds_apply (parts element List.mem_cons_self) hv done
    | _ => cases offered
  | variant declared tags initial =>
    cases e with
    | selectTag tag =>
      obtain rfl := Option.some.inj offered
      exact Ty.holds_selectTag forms.kind (fun d hm => parts _ (List.mem_map_of_mem hm)) hv done
    | _ => cases offered
  | sum summands initial =>
    cases e with
    | selectSummand index =>
      obtain rfl := Option.some.inj offered
      exact Ty.holds_selectSummand parts hv done
    | _ => cases offered
  | record fields =>
    cases e with
    | setActive field active =>
      obtain rfl := Option.some.inj offered
      exact Ty.holds_setActive (fun f hf => parts _ (List.mem_map_of_mem hf)) hv done
    | _ => cases offered
  | generic body inner vars bound =>
    cases e with
    | bindVariable index binding =>
      obtain rfl := Option.some.inj offered
      exact Ty.holds_bindVariable
        (fun _ s ⟨_, _, resolves⟩ => suits s (owns_of_resolve resolves)) hv done
    | _ => cases offered
  | map source target =>
    cases e with
    | map e =>
      obtain rfl := Option.some.inj offered
      exact e.holds_apply hv done
    | _ => cases offered
  | _ => cases e <;> cases offered

end Registry

namespace Node

variable {r : Registry} {n : Node} {p whole : Path} {f : Node → Except TreeError Value}

/-- If every new value passes the check, a change fails only on the way to the node or where the new
value is made. -/
theorem modifyAt_outcome (admitted : ∀ m w, n.descend r whole p = .ok m → f m = .ok w →
    m.admits r w = .ok ()) :
    (n.modifyAt r f whole p).map (fun _ => ()) = (do
      let m ← n.descend r whole p
      (f m).map fun _ => ()) := by
  induction p generalizing n with
  | nil =>
    cases made : f n with
    | error e => simp [modifyAt, descend, made, Except.map]
    | ok w => simp [modifyAt, descend, made, admitted n w rfl made, Except.map]
  | cons s p ih =>
    cases found : n.step r whole s with
    | error e => simp [modifyAt, descend, found, Except.map]
    | ok im =>
      obtain ⟨i, m⟩ := im
      have below : n.descend r whole (s :: p) = m.descend r whole p := by simp [descend, found]
      rw [below] at admitted ⊢
      rw [← ih admitted]
      cases changed : m.modifyAt r f whole p with
      | error e => simp [modifyAt, found, changed, Except.map]
      | ok w =>
        obtain ⟨v, written⟩ := exists_setChild?_of_step found w
        simp [modifyAt, found, changed, withChild_eq_ok.2 written, Except.map]

end Node

namespace Tree

variable {home : Nat} {p : Path} {e : Edit}

/-- The check of a changed node passes whatever an edit makes of it. -/
theorem admits_edit {n : Node} {w : Value} (valid : n.Valid (.core home))
    (done : (Change.edit e).apply (.core home) p n = .ok w) : n.admits (.core home) w = .ok () := by
  rw [Node.admits_eq_ok]
  unfold Change.apply at done
  cases offered : n.type.edit? n.value e with
  | none => simp [offered] at done
  | some x =>
    refine Registry.accepts_edit? valid.owned valid.accepted offered ?_
    simpa [offered] using done

/-- What an edit makes of an accepted value is accepted, whatever the type. So in a tree the check
of the changed node never refuses an edit: it fails where the path does not lead to a node or the
edit itself fails, with the same error, and nowhere else. -/
theorem edits_closed {home : Nat} :
    (∀ policy ref t v e x w, (Registry.core home).resolveBy policy ref = .ok t →
      t.Accepts (Registry.core home).oracle v → t.edit? v e = some x →
      x.answer (Registry.core home).oracle = .ok w → t.Accepts (Registry.core home).oracle w) ∧
    ∀ t, Reachable (.core home) t → ∀ p e,
      (∀ n w, t.node (.core home) p = .ok n → (Change.edit e).apply (.core home) p n = .ok w →
        n.admits (.core home) w = .ok ()) ∧
      (t.perform (.core home) (.change p (.edit e))).1 = (do
        let n ← t.node (.core home) p
        ((Change.edit e).apply (.core home) p n).map fun _ => ()) := by
  refine ⟨fun policy ref t v e x w resolved accepted offered done => ?_,
    fun t reachable p e => ?_⟩
  · exact Registry.accepts_edit? (owns_of_accepts resolved accepted) accepted offered done
  have admitted (n : Node) (w : Value) (found : t.node (.core home) p = .ok n)
      (done : (Change.edit e).apply (.core home) p n = .ok w) : n.admits (.core home) w = .ok () :=
    admits_edit (reachable.valid.descend found) done
  refine ⟨admitted, ?_⟩
  rw [node, ← Node.modifyAt_outcome admitted]
  cases changed : t.rootNode.modifyAt (.core home)
      (fun n => (Change.edit e).apply (.core home) p n) p p with
  | error e => rw [perform_change_of_error changed, Except.map]
  | ok v => rw [perform_change_of_ok changed, Except.map]

/-- A mapping of truth values takes a rule in front of its fallback. -/
theorem edits_closed_map :
    let before := Value.map (.ofFallback (.fixed (.bool true)))
    let rule : Rule Value := ⟨.exact (.bool true), .fixed (.bool false)⟩
    ∃ t x, (Registry.core 0).resolveBy .strict (.map .bool .bool) = .ok t ∧
      t.Accepts (Registry.core 0).oracle before ∧
      t.edit? before (.map (.insert 0 (.ofRule rule))) = some x ∧
      x.answer (Registry.core 0).oracle = .ok (.map ⟨[rule], .fixed (.bool true)⟩) ∧
      t.Accepts (Registry.core 0).oracle (.map ⟨[rule], .fixed (.bool true)⟩) := by
  intro before rule
  have resolved : (Registry.core 0).resolveBy .strict (.map .bool .bool) = .ok _ := rfl
  refine ⟨_, _, resolved, rfl, rfl, rfl, ?_⟩
  exact edits_closed.1 .strict (.map .bool .bool) _ before (.map (.insert 0 (.ofRule rule))) _ _
    resolved rfl rfl rfl

end Tree

end TypedTree
