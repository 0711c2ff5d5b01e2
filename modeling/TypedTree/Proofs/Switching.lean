import TypedTree.Proofs.Edits

/-!
# Switching tags

The tags of a variant share its declared fields, each tag listing some of them in an order of its
own. A value has the fields of its tag. When the tag is switched, a field that both tags list keeps
what it holds, wherever it stands, and every other field starts from the default of its type.

What was not carried along by one switch is not brought back by the next. So after any number of
switches a field holds what it held at first if all tags on the way list it, the first one
included, and its default otherwise.

## Main definitions

* `Ty.Turned`: a value in which some declared fields hold what they held and the others defaults.
* `Ty.selectTags`: several switches in turn.

## Main statements

* `Ty.Turned.selectTag`: one switch.
* `Ty.Turned.selectTags`: any number of them.
* `Registry.selectTag_spec`: for accepted values of resolved types.
-/

namespace TypedTree

/-! ## Fields in the order of a declaration -/

namespace Fields

variable {R : Ident × Ty → Ident × Value → Prop} {declared : List (Ident × Ty)} {fields : Fields}
  {d : Ident × Ty}

theorem get?_of_mem {f : Ident × Value} (names : (fields.map (·.1)).Nodup) (hf : f ∈ fields) :
    get? fields f.1 = some f.2 := by
  rw [get?, List.lookup_eq_some_iff]
  obtain ⟨front, back, rfl⟩ := List.append_of_mem hf
  refine ⟨front, back, rfl, fun e he => ?_⟩
  rw [List.map_append, List.map_cons] at names
  rw [bne_iff_ne]
  exact fun same => (List.disjoint_of_nodup_append names) (List.mem_map_of_mem he)
    (same ▸ List.mem_cons_self)

section Aligned

variable (aligned : List.Forall₂ R declared fields) (named : ∀ d f, R d f → f.1 = d.1)
include aligned named

theorem names_of_forall₂ : fields.map (·.1) = declared.map (·.1) := by
  rw [← List.forall₂_eq_eq_eq, List.forall₂_map_left_iff, List.forall₂_map_right_iff]
  exact aligned.flip.imp fun f d => named d f

/-- A declared field is found under its name. -/
theorem exists_get?_of_forall₂ (names : (declared.map (·.1)).Nodup) (hd : d ∈ declared) :
    ∃ f ∈ fields, get? fields d.1 = some f.2 ∧ R d f := by
  obtain ⟨f, hf, held⟩ := exists_mem_of_forall₂ aligned hd
  rw [← names_of_forall₂ aligned named] at names
  exact ⟨f, hf, named d f held ▸ get?_of_mem names hf, held⟩

/-- Nothing is found under a name that is not declared. -/
theorem get?_eq_none_of_forall₂ (undeclared : d.1 ∉ declared.map (·.1)) :
    get? fields d.1 = none := by
  rw [← names_of_forall₂ aligned named] at undeclared
  rw [get?, List.lookup_eq_none_iff]
  intro f hf
  rw [bne_iff_ne]
  exact fun same => undeclared (same ▸ List.mem_map_of_mem hf)

end Aligned

end Fields

namespace Ty

variable {o : Oracle} {default : Ty → Attempt Value} {name : String} {v w : Value}
  {declared : List (Ident × Ty)} {tags path : List Tag} {initial tag next : Tag}
  {previous old fields : Fields} {kept kept' : Ident × Ty → Prop}

/-! ## Switching once -/

/-- A tag can be filled if its fields have defaults. -/
theorem exists_fill_of_defaults
    (defaults : ∀ d ∈ tagFields declared tag, ∃ v, (default d.2).answer o = .ok v) :
    ∃ w, (fill default declared tag previous).answer o = .ok w := by
  rw [fill, Attempt.exists_bind_pure, Attempt.exists_each]
  intro d hd
  cases Fields.get? previous d.1 with
  | some v => exact ⟨_, rfl⟩
  | none => exact Attempt.exists_bind_pure.2 (defaults d hd)

/-- Whether a value is what a variant with some old fields turns into at a tag: it has exactly the
fields of the tag in their order, those that were kept hold what they held and the others the
defaults of their types. -/
def Turned (o : Oracle) (declared : List (Ident × Ty)) (old : Fields) (kept : Ident × Ty → Prop)
    (tag : Tag) (w : Value) : Prop :=
  ∃ fields, w = .variant tag.id fields ∧ List.Forall₂ (fun d f => f.1 = d.1 ∧
    (kept d → Fields.get? old d.1 = some f.2) ∧ (¬ kept d → d.2.default.answer o = .ok f.2))
      (tagFields declared tag) fields

/-- Only what is said of the fields of the tag matters. -/
theorem Turned.congr (turned : Turned o declared old kept tag w)
    (same : ∀ d ∈ tagFields declared tag, kept d ↔ kept' d) :
    Turned o declared old kept' tag w := by
  obtain ⟨fields, rfl, aligned⟩ := turned
  refine ⟨fields, rfl, ((List.forall₂_and_left _ _).2 ⟨same, aligned⟩).imp ?_⟩
  rintro d f ⟨same, named, held, fresh⟩
  exact ⟨named, fun keeps => held (same.2 keeps), fun drops => fresh fun keeps => drops (same.1 keeps)⟩

/-- An accepted value has the fields of its tag, and holds in them what it holds. -/
theorem exists_turned_self {id : Ident} (formed : Kind.VariantFormed declared tags initial)
    (hv : (Kind.variant declared tags initial).Holds o (.variant id fields)) :
    ∃ a ∈ tags, a.id = id ∧ Turned o declared fields (fun _ => True) a (.variant id fields) := by
  obtain ⟨a, found, count, each⟩ := hv
  have ha : a ∈ tags := List.mem_of_find?_eq_some found
  obtain rfl : a.id = id := by simpa using List.find?_some found
  rw [← length_tagFields (formed.positions_lt a ha)] at count
  have aligned : List.Forall₂ (fun f d => f.1 = d.1) fields (tagFields declared a) :=
    List.forall₂_iff_zip.2 ⟨count, fun hp => (each _ hp).1.symm⟩
  have names := nodup_tagFields formed.fields_nodup (formed.positions_nodup a ha)
  rw [← Fields.names_of_forall₂ aligned.flip fun _ _ => id] at names
  have own (f : Ident × Value) (hf : f ∈ fields) : Fields.get? fields f.1 = some f.2 :=
    Fields.get?_of_mem names hf
  refine ⟨a, ha, rfl, fields, rfl, ?_⟩
  refine (((List.forall₂_and_left _ _).2 ⟨own, aligned⟩).imp ?_).flip
  rintro f d ⟨held, named⟩
  exact ⟨named, fun _ => named ▸ held, fun drops => absurd trivial drops⟩

/-- At another tag a variant has the fields of that tag, and keeps what it kept so far if the tag that
it leaves lists it. -/
theorem Turned.selectTag (formed : Kind.VariantFormed declared tags initial)
    (turned : Turned o declared old kept tag v) (ht : tag ∈ tags) (hn : next ∈ tags)
    (defaults : ∀ d ∈ declared, ∃ v, d.2.default.answer o = .ok v) (name : String) :
    ∃ w, (Ty.selectTag name declared tags v next.id).answer o = .ok w ∧
      Turned o declared old (fun d => kept d ∧ d ∈ tagFields declared tag) next w := by
  obtain ⟨fields, rfl, aligned⟩ := turned
  have found : tag? tags next.id = some next := tag?_eq_of_mem formed.tags_nodup hn
  simp only [Ty.selectTag, found, Attempt.answer_ite]
  by_cases same : tag.id = next.id
  · obtain rfl := List.inj_on_of_nodup_map formed.tags_nodup ht hn same
    rw [if_pos rfl]
    refine ⟨_, rfl, Turned.congr ⟨fields, rfl, aligned⟩ fun d hd => ?_⟩
    exact (and_iff_left hd).symm
  rw [if_neg same]
  obtain ⟨w, made⟩ : ∃ w, (fill Ty.default declared next fields).answer o = .ok w :=
    exists_fill_of_defaults fun d hd => defaults d (mem_of_mem_tagFields hd)
  refine ⟨w, made, ?_⟩
  obtain ⟨fields', rfl, filled⟩ := fill_eq_ok.1 made
  have declares (d : Ident × Ty) (hd : d ∈ tagFields declared next) := mem_of_mem_tagFields hd
  refine ⟨fields', rfl, ((List.forall₂_and_left _ _).2 ⟨declares, filled⟩).imp ?_⟩
  rintro d f ⟨hd, same_name, content⟩
  refine ⟨same_name, ?_⟩
  by_cases listed : d ∈ tagFields declared tag
  · -- The tag that is left lists the field, so the value is there, kept or not.
    have names := nodup_tagFields formed.fields_nodup (formed.positions_nodup tag ht)
    obtain ⟨x, -, there, -, held, fresh⟩ :=
      Fields.exists_get?_of_forall₂ aligned (fun _ _ h => h.1) names listed
    simp only [there] at content
    rw [content]
    exact ⟨fun keeps => held keeps.1, fun drops => fresh fun keeps => drops ⟨keeps, listed⟩⟩
  · have unnamed : d.1 ∉ (tagFields declared tag).map (·.1) := by
      rintro mem
      obtain ⟨e, he, same⟩ := List.mem_map.1 mem
      obtain rfl := List.inj_on_of_nodup_map formed.fields_nodup (mem_of_mem_tagFields he) hd same
      exact listed he
    have gone := Fields.get?_eq_none_of_forall₂ aligned (fun _ _ h => h.1) unnamed
    simp only [gone] at content
    exact ⟨fun keeps => absurd keeps.2 listed, fun _ => content⟩

/-! ## Switching any number of times -/

/-- Switch a variant to several tags in turn. -/
def selectTags (name : String) (declared : List (Ident × Ty)) (tags : List Tag) :
    List Ident → Value → Attempt Value
  | [], v => pure v
  | id :: rest, v => do
    let w ← selectTag name declared tags v id
    selectTags name declared tags rest w

/-- After any number of switches, what was kept is what all tags on the way list. -/
theorem Turned.selectTags (formed : Kind.VariantFormed declared tags initial)
    (turned : Turned o declared old kept tag v) (ht : tag ∈ tags) (hp : ∀ b ∈ path, b ∈ tags)
    (defaults : ∀ d ∈ declared, ∃ v, d.2.default.answer o = .ok v) :
    ∃ w, (Ty.selectTags name declared tags (path.map (·.id)) v).answer o = .ok w ∧
      Turned o declared old (fun d => kept d ∧ ∀ b ∈ tag :: path, d ∈ tagFields declared b)
        (path.getLastD tag) w := by
  induction path generalizing kept tag v with
  | nil =>
    refine ⟨v, rfl, turned.congr fun d hd => ?_⟩
    simp only [List.mem_singleton, forall_eq, and_iff_left hd]
  | cons next path ih =>
    rw [List.forall_mem_cons] at hp
    obtain ⟨w, switched, turned⟩ := turned.selectTag formed ht hp.1 defaults name
    obtain ⟨u, rest, turned⟩ := ih turned hp.1 hp.2
    rw [List.getLastD_cons]
    refine ⟨u, ?_, turned.congr fun d _ => ?_⟩
    · rw [List.map_cons, Ty.selectTags, Attempt.answer_bind, switched, Outcome.ok_bind, rest]
    · simp only [List.forall_mem_cons, and_assoc]

/-- There is no switching to a tag that is not declared. -/
theorem selectTag_undeclared {id : Ident} (undeclared : id ∉ tags.map (·.id)) :
    (Ty.selectTag name declared tags v id).answer o =
      .error (.invalidValue name ("unknown tag `" ++ id.text ++ "`")) := by
  have missing : tag? tags id = none := by
    rwa [← Option.not_isSome_iff_eq_none, isSome_tag?]
  rw [Ty.selectTag, missing]
  rfl

end Ty

namespace Registry

open Ty (tagFields Turned)

/-- Switching the tag of an accepted value of a variant whose fields have defaults. The result has the
fields of the new tag, in their order; those that the old tag lists too hold what they held, and all
others their defaults. After another switch, back to the first tag for example, the fields that both
tags on the way list hold what they held at first, and all others their defaults. Switching to the
tag that a value has changes nothing, and there is no switching to a tag that is not declared. -/
theorem selectTag_spec {home : Nat} {policy : FailurePolicy} {ref : TypeRef} {t : Ty}
    {declared : List (Ident × Ty)} {tags : List Tag} {initial : Tag} {id : Ident} {fields : Fields}
    (resolved : (core home).resolveBy policy ref = .ok t)
    (hk : t.kind = .variant declared tags initial)
    (defaults : ∀ d ∈ declared, ∃ v, d.2.default.answer (core home).oracle = .ok v)
    (accepted : t.Accepts (core home).oracle (.variant id fields)) :
    let v := Value.variant id fields
    let select (v : Value) (b : Ident) :=
      (Ty.selectTag t.name declared tags v b).answer (core home).oracle
    ∃ a ∈ tags, a.id = id ∧
      (∀ b ∈ tags, ∃ w, select v b.id = .ok w ∧
        Turned (core home).oracle declared fields (· ∈ tagFields declared a) b w) ∧
      (∀ b ∈ tags, ∀ c ∈ tags, ∃ w u, select v b.id = .ok w ∧ select w c.id = .ok u ∧
        Turned (core home).oracle declared fields
          (fun d => d ∈ tagFields declared a ∧ d ∈ tagFields declared b) c u) ∧
      select v id = .ok v ∧
      ∀ x, x ∉ tags.map (·.id) →
        select v x = .error (.invalidValue t.name ("unknown tag `" ++ x.text ++ "`")) := by
  have formed : Kind.Formed (.variant declared tags initial) :=
    hk ▸ (forms_of_owns (Tree.owns_of_accepts resolved accepted)).kind
  rw [Ty.accepts_iff, hk] at accepted
  obtain ⟨a, ha, rfl, turned⟩ := Ty.exists_turned_self formed accepted
  have once (b : Tag) (hb : b ∈ tags) := turned.selectTag formed ha hb defaults t.name
  simp only [true_and] at once
  refine ⟨a, ha, rfl, once, fun b hb c hc => ?_, ?_, fun x => Ty.selectTag_undeclared⟩
  · obtain ⟨w, switched, turned⟩ := once b hb
    obtain ⟨u, switched', turned⟩ := turned.selectTag formed hb hc defaults t.name
    exact ⟨w, u, switched, switched', turned⟩
  · show (Ty.selectTag t.name declared tags (.variant a.id fields) a.id).answer _ = _
    rw [Ty.selectTag, Ty.tag?_eq_of_mem formed.tags_nodup ha]
    exact congrArg _ (if_pos rfl)

/-- A wheel that turns into a square and back keeps its label and loses its radius. -/
theorem selectTag_spec_shape :
    let shape : TypeRef := ((TypeRef.VariantBuilder.empty.tag ⟨"circle"⟩
      [(⟨"radius"⟩, .intRange 1 9), (⟨"label"⟩, .text)]).tag ⟨"square"⟩
      [(⟨"label"⟩, .text), (⟨"side"⟩, .int)]).build
    let wheel : Value := .variant ⟨"circle"⟩ [(⟨"radius"⟩, .int 7), (⟨"label"⟩, .text "wheel")]
    let circle : Tag := ⟨⟨"circle"⟩, [0, 1]⟩
    let square : Tag := ⟨⟨"square"⟩, [1, 2]⟩
    ∃ t declared, (core 0).resolveBy .strict shape = .ok t ∧
      t.kind = .variant declared [circle, square] circle ∧ t.Accepts (core 0).oracle wheel ∧
      ∃ w u,
        (Ty.selectTag t.name declared [circle, square] wheel square.id).answer (core 0).oracle =
          .ok w ∧
        w = .variant square.id [(⟨"label"⟩, .text "wheel"), (⟨"side"⟩, .int 0)] ∧
        (Ty.selectTag t.name declared [circle, square] w circle.id).answer (core 0).oracle = .ok u ∧
        u = .variant circle.id [(⟨"radius"⟩, .int 1), (⟨"label"⟩, .text "wheel")] := by
  intro shape wheel circle square
  obtain ⟨t, radius, label, side, resolved, hk, one, empty, zero, accepted⟩ :
      ∃ t radius label side, (core 0).resolveBy .strict shape = .ok t ∧
        t.kind = .variant [(⟨"radius"⟩, radius), (⟨"label"⟩, label), (⟨"side"⟩, side)]
          [circle, square] circle ∧
        radius.default.answer (core 0).oracle = .ok (.int 1) ∧
        label.default.answer (core 0).oracle = .ok (.text "") ∧
        side.default.answer (core 0).oracle = .ok (.int 0) ∧
        t.Accepts (core 0).oracle wheel :=
    ⟨_, _, _, _, rfl, rfl, by rw [Ty.default]; rfl, by rw [Ty.default]; rfl,
      by rw [Ty.default]; rfl, rfl⟩
  have defaults : ∀ d ∈ [((⟨"radius"⟩ : Ident), radius), (⟨"label"⟩, label), (⟨"side"⟩, side)],
      ∃ v, d.2.default.answer (core 0).oracle = .ok v := by
    simp [one, empty, zero]
  obtain ⟨a, ha, named, once, twice, -⟩ := selectTag_spec resolved hk defaults accepted
  obtain rfl : a = circle := by
    rcases List.mem_cons.1 ha with rfl | mem
    · rfl
    · obtain rfl := List.mem_singleton.1 mem
      simp [square] at named
  obtain ⟨w, first, _, rfl, turned⟩ := once square (by simp)
  obtain ⟨_, u, again, second, _, rfl, turned'⟩ := twice square (by simp) circle (by simp)
  obtain rfl := Except.ok.inj (first.symm.trans again)
  have held : Fields.get? [(⟨"radius"⟩, .int 7), (⟨"label"⟩, .text "wheel")] ⟨"label"⟩ =
      some (.text "wheel") := rfl
  refine ⟨t, _, resolved, hk, accepted, _, _, first, ?_, second, ?_⟩
  · simpa [tagFields, circle, square, zero, held, List.forall₂_cons_left_iff] using turned
  · simpa [tagFields, circle, square, one, held, List.forall₂_cons_left_iff] using turned'

end Registry

end TypedTree
