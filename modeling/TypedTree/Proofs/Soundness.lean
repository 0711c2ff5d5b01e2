import TypedTree.Proofs.Subtypes
import TypedTree.Value.Mapping

/-!
# Values through mappings

A mapping type should only have mappings whose answers are values of the target. Fixed answers are
checked when the mapping is. The input itself is allowed as an answer if the source compares as a
subtype of the target, and that is not enough: subtyping says nothing about the places in which
values hold their parts. Sums may list their summands in another order, records may have more
fields or the same in another order, and sizes of arrays do not count.

Where the places agree, types are called *aligned* here. Between aligned types subtyping is
inclusion of values, so mappings are sound.

## Main definitions

* `Ty.Aligned`: whether the comparison of two types meets parts where values hold them.

## Main statements

* `Registry.accepts_of_aligned`: an aligned supertype accepts all values.
* `Registry.answer_sound_iff`: when the answers of a mapping type are values of its target.
-/

namespace TypedTree

/-! ## Answers -/

namespace Mapping

variable {o : Oracle} {source target : Ty} {table : Mapping Value} {v : Value}

/-- An answer is produced by a rule or by the fallback. -/
theorem exists_produce (table : Mapping Value) (v : Value) :
    ∃ t, (t = table.fallback ∨ ∃ rule ∈ table.rules, rule.target = t) ∧
      table.answer v = t.produce v := by
  rw [answer, apply]
  cases found : table.rules.find? fun r => r.pattern.hits v with
  | none => exact ⟨_, .inl rfl, rfl⟩
  | some rule => exact ⟨_, .inr ⟨rule, List.mem_of_find?_eq_some found, rfl⟩, rfl⟩

/-- An answer of a mapping between two types is a value of the target, or the input itself. -/
theorem Fits.answer (h : table.Fits o source target) :
    target.Accepts o (table.answer v) ∨ table.answer v = v ∧ o.Below source target := by
  obtain ⟨t, listed, produced⟩ := table.exists_produce v
  have fits : t.Fits o source target := by
    obtain rfl | ⟨rule, hr, rfl⟩ := listed
    · exact h.2
    · exact (h.1 rule hr).2
  rw [produced]
  cases t with
  | fixed w => exact .inl fits
  | itself => exact .inr ⟨rfl, fits⟩

/-- A mapping between two types is one between types of more values. -/
theorem Fits.imp {source' target' : Ty} (h : table.Fits o source target)
    (sources : ∀ w, source.Accepts o w → source'.Accepts o w)
    (targets : ∀ w, target.Accepts o w → target'.Accepts o w)
    (identity : o.Below source target → o.Below source' target') :
    table.Fits o source' target' := by
  have answers (t : Target Value) (fits : t.Fits o source target) : t.Fits o source' target' := by
    cases t with
    | fixed w => exact targets w fits
    | itself => exact identity fits
  have inputs (p : Pattern Value) (fits : p.Fits o source) : p.Fits o source' := by
    cases p with
    | exact w => exact sources w fits
    | range min max => exact ⟨sources min fits.1, sources max fits.2.1, fits.2.2⟩
  refine ⟨fun rule hr => ?_, answers _ h.2⟩
  exact ⟨inputs _ (h.1 rule hr).1, answers _ (h.1 rule hr).2⟩

end Mapping

namespace Ty

/-- Whether the comparison of two types meets parts in the places where values hold them, and no
bound of an array is narrower on the other side. -/
inductive Aligned (o : Oracle) : Ty → Ty → Prop
  | refl (t) : Aligned o t t
  | empty {a b} (none : ∀ v, ¬ a.Accepts o v) : Aligned o a b
  | scalar {a b} (ha : a.kind.isCompound = false) (hb : b.kind.isCompound = false) : Aligned o a b
  | record {a b fs gs} (ha : a.kind = .record fs) (hb : b.kind = .record gs)
    (names : fs.map (·.id) = gs.map (·.id))
    (fields : ∀ (i : Nat) (f g : Field Ty), fs[i]? = some f → gs[i]? = some g →
      Aligned o f.type g.type) : Aligned o a b
  | variant {a b fs tags initial gs tags' initial'} (ha : a.kind = .variant fs tags initial)
    (hb : b.kind = .variant gs tags' initial')
    (names : ∀ t ∈ tags, ∀ t', tag? tags' t.id = some t' →
      (tagFields fs t).map (·.1) = (tagFields gs t').map (·.1))
    (fields : ∀ t ∈ tags, ∀ t', tag? tags' t.id = some t' →
      ∀ (i : Nat) (f g : Ident × Ty), (tagFields fs t)[i]? = some f → (tagFields gs t')[i]? = some g →
        Aligned o f.2 g.2) : Aligned o a b
  | array {a b e f size size'} (ha : a.kind = .array e size) (hb : b.kind = .array f size')
    (min : size'.min ≤ size.min) (max : size.max ≤ size'.max) (element : Aligned o e f) :
    Aligned o a b
  | sum {a b xs ys initial initial'} (ha : a.kind = .sum xs initial)
    (hb : b.kind = .sum ys initial')
    (below : ∀ (i : Nat) x, xs[i]? = some x → ∃ y, ys[i]? = some y ∧ o.Below x y)
    (summands : ∀ (i : Nat) x y, xs[i]? = some x → ys[i]? = some y → Aligned o x y) : Aligned o a b
  | tuple {a b xs ys} (ha : a.kind = .tuple xs) (hb : b.kind = .tuple ys)
    (slots : ∀ (i : Nat) x y, xs[i]? = some x → ys[i]? = some y → Aligned o x y) : Aligned o a b
  | map {a b s t s' t'} (ha : a.kind = .map s t) (hb : b.kind = .map s' t')
    (inputs : o.Below s s') (identity : o.Below s t → o.Below s' t') (source : Aligned o s s')
    (target : Aligned o t t') : Aligned o a b
  | generic {a b body inner vars bound body' inner' bound'}
    (ha : a.kind = .generic body inner vars bound)
    (hb : b.kind = .generic body' inner' vars bound')
    (below : ∀ bindings s, (∀ ref ∈ bindings, TypeRef.Closed o ref) →
      body.HasInstance o vars bindings s →
        ∃ s', body'.HasInstance o vars bindings s' ∧ o.Below s s')
    (instances : ∀ bindings s s', (∀ ref ∈ bindings, TypeRef.Closed o ref) →
      body.HasInstance o vars bindings s → body'.HasInstance o vars bindings s' → Aligned o s s') :
    Aligned o a b

end Ty

/-! ## Places -/

/-- Members in the same place have the same key. -/
theorem key_eq_of_map_eq {α β κ : Type} {key : α → κ} {key' : β → κ} {as : List α} {bs : List β}
    (h : as.map key = bs.map key') {i : Nat} {a : α} {b : β} (ha : as[i]? = some a)
    (hb : bs[i]? = some b) : key a = key' b := by
  have same := congrArg (·[i]?) h
  simpa [ha, hb] using same

namespace Kind

variable {o : Oracle} {v : Value}

/-- A scalar kind holds the values of those under it. -/
theorem holds_scalar {k k' : Kind Ty} (scalar : k.isCompound = false) (under : k.Under o k')
    (hv : k.Holds o v) : k'.Holds o v := by
  cases k with
  | bool | text | var | failure => cases k' <;> cases v <;> first | exact hv | exact under.elim
  | int r =>
    cases k' with
    | int s =>
      cases v with
      | int n => exact IntRange.contains_of_within under hv
      | _ => exact hv.elim
    | _ => exact under.elim
  | rational r =>
    cases k' with
    | rational s =>
      cases v with
      | rational q => exact RationalRange.contains_of_within under hv
      | _ => exact hv.elim
    | _ => exact under.elim
  | enumeration e =>
    cases k' with
    | enumeration f => exact Enumeration.contains_of_within under hv
    | _ => exact under.elim
  | _ => simp [isCompound] at scalar

theorem holds_record {fs gs : List (Field Ty)} (nodup : (fs.map (·.id)).Nodup)
    (names : fs.map (·.id) = gs.map (·.id)) (under : (Kind.record fs).Under o (.record gs))
    (step : ∀ (i : Nat) f g, fs[i]? = some f → gs[i]? = some g → o.Below f.type g.type →
      ∀ w, f.type.Accepts o w → g.type.Accepts o w)
    (hv : (Kind.record fs).Holds o v) : (Kind.record gs).Holds o v := by
  cases v with
  | record slots =>
    refine forall₂_of_places hv (by simpa using congrArg List.length names) ?_
    rintro i ⟨id, slot⟩ f g - hf hg ⟨hid, held⟩
    have same : f.id = g.id := key_eq_of_map_eq names hf hg
    have served := under g (List.mem_of_getElem? hg)
    rw [Field.ServedBy, ← same, find?_key nodup (List.mem_of_getElem? hf)] at served
    refine ⟨same.symm.trans hid, ?_⟩
    cases slot with
    | none =>
      have optional : f.optional = true := held
      simpa [optional] using served.1
    | some w => exact step i f g hf hg served.2 w held
  | _ => exact hv.elim

theorem holds_variant {fs gs : List (Ident × Ty)} {tags tags' : List Tag} {initial initial' : Tag}
    (formed : VariantFormed fs tags initial) (formed' : VariantFormed gs tags' initial')
    (names : ∀ t ∈ tags, ∀ t', Ty.tag? tags' t.id = some t' →
      (Ty.tagFields fs t).map (·.1) = (Ty.tagFields gs t').map (·.1))
    (under : (Kind.variant fs tags initial).Under o (.variant gs tags' initial'))
    (step : ∀ t ∈ tags, ∀ t', Ty.tag? tags' t.id = some t' → ∀ (i : Nat) f g,
      (Ty.tagFields fs t)[i]? = some f → (Ty.tagFields gs t')[i]? = some g → o.Below f.2 g.2 →
        ∀ w, f.2.Accepts o w → g.2.Accepts o w)
    (hv : (Kind.variant fs tags initial).Holds o v) :
    (Kind.variant gs tags' initial').Holds o v := by
  cases v with
  | variant tag fields =>
    obtain ⟨t, ht, count, held⟩ := hv
    have listed := List.mem_of_find?_eq_some ht
    have named : t.id = tag := by simpa using List.find?_some ht
    obtain ⟨t', ht', each⟩ := under.2 t listed
    have same := names t listed t' ht'
    have lengths : (Ty.tagFields fs t).length = (Ty.tagFields gs t').length := by
      simpa using congrArg List.length same
    rw [← Ty.length_tagFields (formed.positions_lt t listed)] at count
    have pairs := List.forall₂_iff_zip.2 ⟨count, fun {f d} hp => held (f, d) hp⟩
    have moved : List.Forall₂ (fun f d => d.1 = f.1 ∧ d.2.Accepts o f.2) fields
        (Ty.tagFields gs t') := by
      refine forall₂_of_places pairs lengths ?_
      rintro i ⟨id, w⟩ f g - hf hg ⟨hid, held⟩
      have key : f.1 = g.1 := key_eq_of_map_eq same hf hg
      obtain ⟨f', hf', below⟩ := each g (List.mem_of_getElem? hg)
      have unique := Ty.nodup_tagFields formed.fields_nodup (formed.positions_nodup t listed)
      rw [← key, find?_key unique (List.mem_of_getElem? hf)] at hf'
      obtain rfl := Option.some.inj hf'
      exact ⟨key.symm.trans hid, step t listed t' ht' i f g hf hg below w held⟩
    obtain ⟨count', held'⟩ := List.forall₂_iff_zip.1 moved
    rw [Ty.length_tagFields (formed'.positions_lt t' (List.mem_of_find?_eq_some ht'))] at count'
    exact ⟨t', named ▸ ht', count', fun p hp => held' hp⟩
  | _ => exact hv.elim

end Kind

namespace Registry

variable {home : Nat} {a b : Ty} {v : Value}

/-- Plain types of which the second is a supertype are told apart by their kinds. -/
theorem accepts_of_kinds {k k' : Kind Ty} (ha : (core home).Owns a) (hb : (core home).Owns b)
    (ka : a.kind = k) (kb : b.kind = k') (pa : Ty.IsPlain { a with kind := k })
    (pb : Ty.IsPlain { b with kind := k' }) (below : (core home).oracle.Below a b)
    (step : k.Under (core home).oracle k' → k.Holds (core home).oracle v →
      k'.Holds (core home).oracle v)
    (hv : a.Accepts (core home).oracle v) : b.Accepts (core home).oracle v := by
  subst ka kb
  exact Ty.accepts_iff.2 (step ((below_kinds_iff ha hb rfl rfl pa pb).1 below) (Ty.accepts_iff.1 hv))

theorem accepts_scalar (ha : (core home).Owns a) (hb : (core home).Owns b)
    (ka : a.kind.isCompound = false) (kb : b.kind.isCompound = false)
    (below : (core home).oracle.Below a b) (hv : a.Accepts (core home).oracle v) :
    b.Accepts (core home).oracle v := by
  have pa : a.IsPlain := by
    rw [Ty.accepts_iff] at hv
    rw [Ty.IsPlain]
    cases hk : a.kind with
    | var x =>
      rw [hk] at hv
      cases v <;> exact hv.elim
    | generic => simp [hk, Kind.isCompound] at ka
    | _ => trivial
  have pb : b.IsPlain := by
    rw [Ty.IsPlain]
    cases hk : b.kind with
    | var x =>
      have var : b.IsVar := ⟨x, hk⟩
      have other : a ≠ b := by
        rintro rfl
        exact var.not_isPlain pa
      rw [Oracle.Below, oracle_compare, compare_plain_var ha hb other pa var] at below
      contradiction
    | generic => simp [hk, Kind.isCompound] at kb
    | _ => trivial
  exact accepts_of_kinds ha hb rfl rfl pa pb below (Kind.holds_scalar ka) hv

/-- An aligned supertype accepts the values of a type. -/
theorem accepts_of_aligned (ha : (core home).Owns a) (hb : (core home).Owns b)
    (h : a.Aligned (core home).oracle b) (below : (core home).oracle.Below a b)
    (hv : a.Accepts (core home).oracle v) : b.Accepts (core home).oracle v := by
  induction h generalizing v with
  | refl t => exact hv
  | empty none => exact (none v hv).elim
  | scalar ka kb => exact accepts_scalar ha hb ka kb below hv
  | @record a b fs gs ka kb names fields ih =>
    have formed : Kind.Formed (.record fs) := ka ▸ (forms_of_owns ha).kind
    refine accepts_of_kinds ha hb ka kb trivial trivial below
      (fun under => Kind.holds_record formed names under ?_) hv
    intro i f g hf hg below w
    exact ih i f g hf hg (owns_part ha ka (List.mem_map_of_mem (List.mem_of_getElem? hf)))
      (owns_part hb kb (List.mem_map_of_mem (List.mem_of_getElem? hg))) below
  | @variant a b fs tags initial gs tags' initial' ka kb names fields ih =>
    have formed : Kind.Formed (.variant fs tags initial) := ka ▸ (forms_of_owns ha).kind
    have formed' : Kind.Formed (.variant gs tags' initial') := kb ▸ (forms_of_owns hb).kind
    refine accepts_of_kinds ha hb ka kb trivial trivial below
      (fun under => Kind.holds_variant formed formed' names under ?_) hv
    intro t ht t' ht' i f g hf hg below w
    have listed := Ty.mem_of_mem_tagFields (List.mem_of_getElem? hf)
    have listed' := Ty.mem_of_mem_tagFields (List.mem_of_getElem? hg)
    exact ih t ht t' ht' i f g hf hg (owns_part ha ka (List.mem_map_of_mem listed))
      (owns_part hb kb (List.mem_map_of_mem listed')) below
  | @array a b e f size size' ka kb min max element ih =>
    refine accepts_of_kinds ha hb ka kb trivial trivial below ?_ hv
    intro under hv
    cases v with
    | array items =>
      obtain ⟨⟨small, large⟩, held⟩ := hv
      refine ⟨⟨UInt32.le_trans min small, UInt32.le_trans large max⟩, ?_⟩
      intro w hw
      exact ih (owns_part ha ka List.mem_cons_self) (owns_part hb kb List.mem_cons_self) under
        (held w hw)
    | _ => exact hv.elim
  | @sum a b xs ys initial initial' ka kb inside summands ih =>
    refine accepts_of_kinds ha hb ka kb trivial trivial below ?_ hv
    intro _ hv
    cases v with
    | sum index w =>
      obtain ⟨x, hx, held⟩ := hv
      obtain ⟨y, hy, below⟩ := inside _ x hx
      exact ⟨y, hy, ih _ x y hx hy (owns_part ha ka (List.mem_of_getElem? hx))
        (owns_part hb kb (List.mem_of_getElem? hy)) below held⟩
    | _ => exact hv.elim
  | @tuple a b xs ys ka kb slots ih =>
    refine accepts_of_kinds ha hb ka kb trivial trivial below ?_ hv
    intro under hv
    cases v with
    | tuple items =>
      refine forall₂_of_places hv under.length_eq ?_
      intro i w x y _ hx hy held
      exact ih i x y hx hy (owns_part ha ka (List.mem_of_getElem? hx))
        (owns_part hb kb (List.mem_of_getElem? hy)) (forall₂_get under hx hy) held
    | _ => exact hv.elim
  | @map a b s t s' t' ka kb inputs identity source target ihs iht =>
    refine accepts_of_kinds ha hb ka kb trivial trivial below ?_ hv
    intro under hv
    have sources (w : Value) (hw : s.Accepts (core home).oracle w) :
        s'.Accepts (core home).oracle w :=
      ihs (owns_part ha ka (by simp [Kind.parts])) (owns_part hb kb (by simp [Kind.parts])) inputs hw
    have targets (w : Value) (hw : t.Accepts (core home).oracle w) :
        t'.Accepts (core home).oracle w :=
      iht (owns_part ha ka (by simp [Kind.parts])) (owns_part hb kb (by simp [Kind.parts])) under.2
        hw
    cases v with
    | map table => exact Mapping.Fits.imp hv sources targets identity
    | _ => exact hv.elim
  | @generic a b body inner vars bound body' inner' bound' ka kb inside instances ih =>
    rw [Ty.accepts_iff, ka] at hv
    rw [Ty.accepts_iff, kb]
    cases v with
    | generic bindings w =>
      obtain ⟨count, closed, s, own, held⟩ := hv
      obtain ⟨s', own', below⟩ := inside bindings s closed own
      have hs : (core home).Owns s := owns_of_resolve own.choose_spec.2
      have hs' : (core home).Owns s' := owns_of_resolve own'.choose_spec.2
      exact ⟨count, closed, s', own', ih bindings s s' closed own own' hs hs' below held⟩
    | _ => exact hv.elim

/-! ## Mapping types -/

/-- The answers of a mapping type to the values of its source. The input itself is allowed as an
answer if the source is a subtype of the target, and no other answer can fail to be a value of the
target. So all answers are values of the target if and only if subtyping of the two types, where it
holds, is inclusion of values; it is if they are aligned. -/
theorem answer_sound_iff {ref : TypeRef} {m source target : Ty} (h : (core home).resolve ref = .ok m)
    (hk : m.kind = .map source target) :
    (m.Accepts (core home).oracle (.map (.ofFallback .itself)) ↔
        (core home).oracle.Below source target) ∧
      (∀ table v, m.Accepts (core home).oracle (.map table) →
        source.Accepts (core home).oracle v →
          target.Accepts (core home).oracle (table.answer v) ∨
            table.answer v = v ∧ (core home).oracle.Below source target) ∧
      ((∀ table v, m.Accepts (core home).oracle (.map table) →
          source.Accepts (core home).oracle v →
            target.Accepts (core home).oracle (table.answer v)) ↔
        ((core home).oracle.Below source target →
          ∀ v, source.Accepts (core home).oracle v → target.Accepts (core home).oracle v)) ∧
      (source.Aligned (core home).oracle target →
        ∀ table v, m.Accepts (core home).oracle (.map table) →
          source.Accepts (core home).oracle v →
            target.Accepts (core home).oracle (table.answer v)) := by
  have accepted (table : Mapping Value) :
      m.Accepts (core home).oracle (.map table) ↔ table.Fits (core home).oracle source target := by
    rw [Ty.accepts_iff, hk]
    rfl
  have identity : m.Accepts (core home).oracle (.map (.ofFallback .itself)) ↔
      (core home).oracle.Below source target := by
    rw [accepted]
    exact and_iff_right fun _ hr => absurd hr List.not_mem_nil
  have included (inclusion : (core home).oracle.Below source target →
      ∀ v, source.Accepts (core home).oracle v → target.Accepts (core home).oracle v)
      (table : Mapping Value) (v : Value) (fits : m.Accepts (core home).oracle (.map table))
      (hv : source.Accepts (core home).oracle v) :
      target.Accepts (core home).oracle (table.answer v) := by
    obtain held | ⟨same, below⟩ := ((accepted table).1 fits).answer (v := v)
    · exact held
    · exact same.symm ▸ inclusion below v hv
  refine ⟨identity, ?_, ⟨?_, included⟩, ?_⟩
  · intro table v fits _
    exact ((accepted table).1 fits).answer
  · intro sound below v hv
    exact sound (.ofFallback .itself) v (identity.2 below) hv
  · intro aligned
    have own := owns_of_resolve h
    exact included fun below v => accepts_of_aligned (owns_part own hk (by simp [Kind.parts]))
      (owns_part own hk (by simp [Kind.parts])) aligned below

/-- Records with one field, of which the second asks less. -/
theorem answer_sound_record :
    let source : TypeRef := .record [⟨⟨"x"⟩, .intRange 0 9, false⟩]
    let target : TypeRef := .record [⟨⟨"x"⟩, .int, true⟩]
    let digit : Value := .record [(⟨"x"⟩, some (.int 3))]
    ∃ m s t, (core 0).resolve (.map source target) = .ok m ∧ m.kind = .map s t ∧
      m.Accepts (core 0).oracle (.map (.ofFallback .itself)) ∧
        s.Accepts (core 0).oracle digit ∧
          t.Accepts (core 0).oracle ((Mapping.ofFallback .itself).answer digit) := by
  intro source target digit
  obtain ⟨m, s, t, x, y, hm, km, ks, kt, kx, ky⟩ : ∃ m s t x y,
      (core 0).resolve (.map source target) = .ok m ∧ m.kind = .map s t ∧
        s.kind = .record [⟨⟨"x"⟩, x, false⟩] ∧ t.kind = .record [⟨⟨"x"⟩, y, true⟩] ∧
          x.kind = .int ⟨0, 9, by decide⟩ ∧ y.kind = .int .full :=
    ⟨_, _, _, _, _, rfl, rfl, rfl, rfl, rfl, rfl⟩
  obtain ⟨identity, -, -, sound⟩ := answer_sound_iff hm km
  have own := owns_of_resolve hm
  have hs : (core 0).Owns s := owns_part own km (by simp [Kind.parts])
  have ht : (core 0).Owns t := owns_part own km (by simp [Kind.parts])
  have numbers : (core 0).oracle.Below x y := by
    refine (below_kinds_iff (owns_part hs ks List.mem_cons_self)
      (owns_part ht kt List.mem_cons_self) kx ky trivial trivial).2 ?_
    show IntRange.within _ _ = true
    decide
  have below : (core 0).oracle.Below s t :=
    (below_kinds_iff hs ht ks kt trivial trivial).2
      (List.forall_mem_singleton.2 ⟨.inl rfl, numbers⟩)
  have held : s.Accepts (core 0).oracle digit := by
    have three : x.Accepts (core 0).oracle (.int 3) := by
      rw [Ty.accepts_iff, kx]
      show IntRange.contains _ _ = true
      decide
    rw [Ty.accepts_iff, ks]
    exact .cons ⟨rfl, three⟩ .nil
  have aligned : s.Aligned (core 0).oracle t := by
    refine .record ks kt rfl fun i f g hf hg => ?_
    obtain rfl := List.mem_singleton.1 (List.mem_of_getElem? hf)
    obtain rfl := List.mem_singleton.1 (List.mem_of_getElem? hg)
    exact .scalar (by rw [kx]; rfl) (by rw [ky]; rfl)
  exact ⟨m, s, t, hm, km, identity.2 below, held, sound aligned _ _ (identity.2 below) held⟩

/-- A sum whose summands are listed the other way round is an equivalent type with other values. -/
theorem answer_unsound_sum :
    ∃ m s t, (core 0).resolve (.map (.sum [.bool, .text] 0) (.sum [.text, .bool] 0)) = .ok m ∧
      m.kind = .map s t ∧ m.Accepts (core 0).oracle (.map (.ofFallback .itself)) ∧
        s.Accepts (core 0).oracle (.sum 0 (.bool true)) ∧
          ¬ t.Accepts (core 0).oracle
            ((Mapping.ofFallback .itself).answer (.sum 0 (.bool true))) := by
  obtain ⟨m, s, t, x, y, hm, km, ks, kt, kx, ky⟩ : ∃ m s t x y,
      (core 0).resolve (.map (.sum [.bool, .text] 0) (.sum [.text, .bool] 0)) = .ok m ∧
        m.kind = .map s t ∧ s.kind = .sum [x, y] 0 ∧ t.kind = .sum [y, x] 0 ∧
          x.kind = .bool ∧ y.kind = .text :=
    ⟨_, _, _, _, _, rfl, rfl, rfl, rfl, rfl, rfl⟩
  have own := owns_of_resolve hm
  have hs : (core 0).Owns s := owns_part own km (by simp [Kind.parts])
  have ht : (core 0).Owns t := owns_part own km (by simp [Kind.parts])
  have below : (core 0).oracle.Below s t := by
    refine (below_kinds_iff hs ht ks kt trivial trivial).2 ?_
    intro z hz
    exact ⟨z, List.mem_reverse.1 hz, below_self (owns_part hs ks hz)⟩
  refine ⟨m, s, t, hm, km, ?_, ?_, ?_⟩
  · rw [Ty.accepts_iff, km]
    exact ⟨fun _ hr => absurd hr List.not_mem_nil, below⟩
  · rw [Ty.accepts_iff, ks]
    refine ⟨x, rfl, ?_⟩
    rw [Ty.accepts_iff, kx]
    trivial
  · rw [Ty.accepts_iff, kt]
    rintro ⟨z, hz, held⟩
    obtain rfl := Option.some.inj hz
    rw [Ty.accepts_iff, ky] at held
    exact held

end Registry

end TypedTree
