import TypedTree.Proofs.Antisymmetry
import TypedTree.Proofs.Instances
import TypedTree.Proofs.Subtypes

/-!
# Chains of subtypes

A subtype of a subtype should be a subtype. Two rules get in the way. An optional field may be
missing from a record below, and there may be another field of that name further down, at any type.
And sources of mappings only have to relate, which two types on either side of a larger one need not
do. Where one of these happens among the parts of three types, there is a *gap* between them.

There is a third way for a chain to break, which is no rule. A bound generic on the left of a
comparison counts as its instance, but on the right it does not if the instance is a variable. So
pairs of types are considered here of which the first *sees through* the second: in no place where
the two are compared does a bound generic on the right count as anything but its instance. Then gaps
are all that stands between a chain and its ends. Types that reach none that crumbles, *firm* types,
see through each other.

## Main definitions

* `Ty.Reaches`: the parts of a type and the instance of a bound generic.
* `Ty.Firm`: whether a type reaches none that crumbles.
* `Ty.Meets`: the pairs that the comparison of a pair goes on with.
* `Ty.SeesThrough`: whether bound generics on the right count as their instances.
* `Ty.Gap`: whether an optional field or a source separates the first of three types from the last.

## Main statements

* `Registry.seesThrough_of_firm`: firm types see through each other.
* `Registry.not_below_of_gap`: gaps break chains.
* `Registry.below_trans`: nothing else does, among types that see through each other.
* `Registry.below_trans_iff`: when a chain of two subtypes is one of its ends.
-/

namespace TypedTree

open Relation

namespace Ty

variable (o : Oracle)

/-- Whether a type is made of another one: as a part, or as its instance if it is a bound generic. -/
def Reaches (t s : Ty) : Prop :=
  (¬ t.IsBound ∧ s ∈ t.kind.parts) ∨ t.Unfolds o s

/-- Whether a type reaches none that crumbles. -/
def Firm (t : Ty) : Prop :=
  ∀ s, ReflTransGen (Reaches o) t s → ¬ s.Crumbles o

/-- Whether the comparison of a pair of types, asked if the first is a subtype, goes on with another
pair. A type and itself are not looked into. -/
inductive Meets : Ty × Ty → Ty × Ty → Prop
  | left {a b s} (ne : a ≠ b) (hs : a.Unfolds o s) : Meets (a, b) (s, b)
  | right {a b s} (ne : a ≠ b) (hs : b.Unfolds o s) : Meets (a, b) (a, s)
  | field {a b fs gs f g} (ka : a.kind = .record fs) (kb : b.kind = .record gs) (hf : f ∈ fs)
    (hg : g ∈ gs) (named : f.id = g.id) : Meets (a, b) (f.type, g.type)
  | tagged {a b fs tags i gs tags' i' t t' f g} (ka : a.kind = .variant fs tags i)
    (kb : b.kind = .variant gs tags' i') (ht : t ∈ tags) (ht' : t' ∈ tags') (tag : t.id = t'.id)
    (hf : f ∈ tagFields fs t) (hg : g ∈ tagFields gs t') (named : f.1 = g.1) :
    Meets (a, b) (f.2, g.2)
  | element {a b x m y m'} (ka : a.kind = .array x m) (kb : b.kind = .array y m') :
    Meets (a, b) (x, y)
  | summand {a b xs i ys i' x y} (ka : a.kind = .sum xs i) (kb : b.kind = .sum ys i')
    (hx : x ∈ xs) (hy : y ∈ ys) : Meets (a, b) (x, y)
  | slot {a b xs ys} {i : Nat} {x y} (ka : a.kind = .tuple xs) (kb : b.kind = .tuple ys)
    (hx : xs[i]? = some x) (hy : ys[i]? = some y) : Meets (a, b) (x, y)
  | target {a b s t s' t'} (ka : a.kind = .map s t) (kb : b.kind = .map s' t') :
    Meets (a, b) (t, t')
  | body {a b r x n bs r' y n' bs'} (ka : a.kind = .generic r x n bs)
    (kb : b.kind = .generic r' y n' bs') (ua : isBound n bs = false)
    (ub : isBound n' bs' = false) : Meets (a, b) (x, y)

/-- Whether the first of two types sees through the second: wherever the two are compared, a bound
generic on the right counts as its instance. On the left it always does. -/
def SeesThrough (a b : Ty) : Prop :=
  ∀ x y s, ReflTransGen (Meets o) (a, b) (x, y) → x ≠ y → y.Unfolds o s →
    (o.Below x y ↔ o.Below x s)

/-- Whether a type is one of the two kinds that gaps come from: a record with optional fields or a
mapping. -/
def IsLoose (t : Ty) : Prop :=
  (∃ fields, t.kind = .record fields ∧ ∃ f ∈ fields, f.optional = true) ∨
    ∃ source target, t.kind = .map source target

/-- Whether some place of three types has an optional field of the third that the second lacks and
that the first has at a type which is no subtype, or mappings of which the outer two have unrelated
sources. -/
inductive Gap : Ty → Ty → Ty → Prop
  | absent {a b c fs gs hs f h} (ka : a.kind = .record fs) (kb : b.kind = .record gs)
    (kc : c.kind = .record hs) (hh : h ∈ hs) (optional : h.optional = true)
    (lacks : gs.find? (·.id == h.id) = none) (hf : fs.find? (·.id == h.id) = some f)
    (apart : ¬ o.Below f.type h.type) : Gap a b c
  | sources {a b c s t s' t' s'' t''} (ka : a.kind = .map s t) (kb : b.kind = .map s' t')
    (kc : c.kind = .map s'' t'') (apart : ¬ o.Related s s'') : Gap a b c
  | field {a b c fs gs hs f g h} (ka : a.kind = .record fs) (kb : b.kind = .record gs)
    (kc : c.kind = .record hs) (hh : h ∈ hs) (hg : gs.find? (·.id == h.id) = some g)
    (hf : fs.find? (·.id == h.id) = some f) (gap : Gap f.type g.type h.type) : Gap a b c
  | tagged {a b c fs tags i gs tags' i' hs tags'' i'' t t' t'' f g h}
    (ka : a.kind = .variant fs tags i) (kb : b.kind = .variant gs tags' i')
    (kc : c.kind = .variant hs tags'' i'') (ht : t ∈ tags) (ht' : tag? tags' t.id = some t')
    (ht'' : tag? tags'' t.id = some t'') (hh : h ∈ tagFields hs t'')
    (hg : (tagFields gs t').find? (·.1 == h.1) = some g)
    (hf : (tagFields fs t).find? (·.1 == h.1) = some f) (gap : Gap f.2 g.2 h.2) : Gap a b c
  | element {a b c x m y m' z m''} (ka : a.kind = .array x m) (kb : b.kind = .array y m')
    (kc : c.kind = .array z m'') (gap : Gap x y z) : Gap a b c
  | summand {a b c xs i ys i' zs i'' x y z} (ka : a.kind = .sum xs i) (kb : b.kind = .sum ys i')
    (kc : c.kind = .sum zs i'') (hx : x ∈ xs) (hy : y ∈ ys) (hz : z ∈ zs)
    (only : ∀ w ∈ zs, ¬ o.Below x w) (gap : Gap x y z) : Gap a b c
  | slot {a b c xs ys zs} {i : Nat} {x y z} (ka : a.kind = .tuple xs) (kb : b.kind = .tuple ys)
    (kc : c.kind = .tuple zs) (hx : xs[i]? = some x) (hy : ys[i]? = some y)
    (hz : zs[i]? = some z) (gap : Gap x y z) : Gap a b c
  | target {a b c s t s' t' s'' t''} (ka : a.kind = .map s t) (kb : b.kind = .map s' t')
    (kc : c.kind = .map s'' t'') (gap : Gap t t' t'') : Gap a b c
  | body {a b c r x n bs r' y n' bs' r'' z n'' bs''} (ka : a.kind = .generic r x n bs)
    (kb : b.kind = .generic r' y n' bs') (kc : c.kind = .generic r'' z n'' bs'')
    (ua : isBound n bs = false) (ub : isBound n' bs' = false) (uc : isBound n'' bs'' = false)
    (gap : Gap x y z) : Gap a b c
  | first {a b c s} (ne : a ≠ c) (hs : a.Unfolds o s) (gap : Gap s b c) : Gap a b c
  | second {a b c s} (hs : b.Unfolds o s) (gap : Gap a s c) : Gap a b c
  | third {a b c s} (ne : a ≠ c) (hs : c.Unfolds o s) (gap : Gap a b s) : Gap a b c

/-- Whether a chain of two subtypes is one of its ends, unless there is a gap. -/
def Chains (a b c : Ty) : Prop :=
  o.Below a b → o.Below b c → ¬ a.Gap o b c → o.Below a c

variable {o} {a b c p s t x y : Ty}

/-! ## Firm types -/

theorem IsPlain.not_isBound (h : t.IsPlain) : ¬ t.IsBound := fun bound => bound.not_isPlain h

theorem IsOpen.not_isBound (h : t.IsOpen) : ¬ t.IsBound := fun bound => bound.not_isOpen h

theorem part_of_plain {k : Kind Ty} (ht : t.kind = k) (plain : IsPlain { t with kind := k })
    (hp : p ∈ k.parts) : ¬ t.IsBound ∧ p ∈ t.kind.parts := by
  subst ht
  exact ⟨IsPlain.not_isBound plain, hp⟩

theorem part_of_open {body : TypeRef} {inner : Ty} {vars : UInt32}
    {bindings : List (TypeRef × Ty)} (ht : t.kind = .generic body inner vars bindings)
    (unbound : isBound vars bindings = false) : ¬ t.IsBound ∧ inner ∈ t.kind.parts := by
  have opened : t.IsOpen := ⟨body, inner, vars, bindings, ht, unbound⟩
  exact ⟨opened.not_isBound, by simp [ht, Kind.parts]⟩

theorem reaches_of_part {k : Kind Ty} (ht : t.kind = k) (plain : IsPlain { t with kind := k })
    (hp : p ∈ k.parts) : t.Reaches o p :=
  .inl (part_of_plain ht plain hp)

theorem reaches_of_body {body : TypeRef} {inner : Ty} {vars : UInt32}
    {bindings : List (TypeRef × Ty)} (ht : t.kind = .generic body inner vars bindings)
    (unbound : isBound vars bindings = false) : t.Reaches o inner :=
  .inl (part_of_open ht unbound)

theorem Leads.reaches (h : t.Leads o s) : t.Reaches o s := by
  cases h with
  | unfold hs => exact .inr hs
  | body ht unbound => exact reaches_of_body ht unbound
  | element ht => exact reaches_of_part ht trivial List.mem_cons_self
  | slot ht hs => exact reaches_of_part ht trivial hs
  | source ht | target ht => exact reaches_of_part ht trivial (by simp [Kind.parts])

theorem Firm.steady (h : t.Firm o) : t.Steady o := fun s path =>
  h s (ReflTransGen.mono (fun _ _ leads => leads.reaches) _ _ path)

theorem Firm.of_reaches (h : t.Firm o) (hs : t.Reaches o s) : s.Firm o := fun u path =>
  h u (.head hs path)

theorem Firm.of_unfolds (h : t.Firm o) (hs : t.Unfolds o s) : s.Firm o :=
  h.of_reaches (.inr hs)

/-- A plain type is made of itself and what its parts are made of. -/
theorem eq_or_part_of_path {k : Kind Ty} (ht : t.kind = k) (plain : IsPlain { t with kind := k })
    (path : ReflTransGen (Reaches o) t s) : s = t ∨ ∃ p ∈ k.parts, ReflTransGen (Reaches o) p s := by
  subst ht
  obtain rfl | ⟨p, hp, rest⟩ := path.cases_head
  · exact .inl rfl
  · obtain ⟨-, hp⟩ | unfolds := hp
    · exact .inr ⟨p, hp, rest⟩
    · exact absurd plain unfolds.isBound.not_isPlain

/-- A plain type is as firm as its parts. -/
theorem firm_of_parts {k : Kind Ty} (ht : t.kind = k) (plain : IsPlain { t with kind := k })
    (h : ∀ p ∈ k.parts, p.Firm o) : t.Firm o := by
  intro s path
  obtain rfl | ⟨p, hp, rest⟩ := eq_or_part_of_path ht plain path
  · rintro ⟨u, hu, -⟩
    subst ht
    exact hu.isBound.not_isPlain plain
  · exact h p hp s rest

/-! ## Pairs of types -/

/-- A comparison goes on with an instance on one side or with parts on both. -/
theorem Meets.forms (h : Meets o (a, b) (x, y)) :
    (a.Unfolds o x ∧ y = b) ∨ (x = a ∧ b.Unfolds o y) ∨
      (¬ a.IsBound ∧ x ∈ a.kind.parts) ∧ ¬ b.IsBound ∧ y ∈ b.kind.parts := by
  cases h with
  | left _ hs => exact .inl ⟨hs, rfl⟩
  | right _ hs => exact .inr (.inl ⟨rfl, hs⟩)
  | field ka kb hf hg =>
    exact .inr (.inr ⟨part_of_plain ka trivial (List.mem_map_of_mem hf),
      part_of_plain kb trivial (List.mem_map_of_mem hg)⟩)
  | tagged ka kb _ _ _ hf hg =>
    exact .inr (.inr ⟨part_of_plain ka trivial (List.mem_map_of_mem (mem_of_mem_tagFields hf)),
      part_of_plain kb trivial (List.mem_map_of_mem (mem_of_mem_tagFields hg))⟩)
  | element ka kb =>
    exact .inr (.inr ⟨part_of_plain ka trivial List.mem_cons_self,
      part_of_plain kb trivial List.mem_cons_self⟩)
  | summand ka kb hx hy =>
    exact .inr (.inr ⟨part_of_plain ka trivial hx, part_of_plain kb trivial hy⟩)
  | slot ka kb hx hy =>
    exact .inr (.inr ⟨part_of_plain ka trivial (List.mem_of_getElem? hx),
      part_of_plain kb trivial (List.mem_of_getElem? hy)⟩)
  | target ka kb =>
    exact .inr (.inr ⟨part_of_plain ka trivial (by simp [Kind.parts]),
      part_of_plain kb trivial (by simp [Kind.parts])⟩)
  | body ka kb ua ub => exact .inr (.inr ⟨part_of_open ka ua, part_of_open kb ub⟩)

theorem Meets.reaches (h : Meets o (a, b) (x, y)) :
    ReflTransGen (Reaches o) a x ∧ ReflTransGen (Reaches o) b y := by
  obtain ⟨hs, rfl⟩ | ⟨rfl, hs⟩ | ⟨hx, hy⟩ := h.forms
  · exact ⟨.single (.inr hs), .refl⟩
  · exact ⟨.refl, .single (.inr hs)⟩
  · exact ⟨.single (.inl hx), .single (.inl hy)⟩

/-- Plain types are compared by their parts. -/
theorem Meets.parts (h : Meets o (a, b) (x, y)) (pa : a.IsPlain) (pb : b.IsPlain) :
    x ∈ a.kind.parts ∧ y ∈ b.kind.parts := by
  obtain ⟨hs, -⟩ | ⟨-, hs⟩ | ⟨hx, hy⟩ := h.forms
  · exact absurd pa hs.isBound.not_isPlain
  · exact absurd pb hs.isBound.not_isPlain
  · exact ⟨hx.2, hy.2⟩

theorem reaches_of_meets {p q : Ty × Ty} (path : ReflTransGen (Meets o) p q) :
    ReflTransGen (Reaches o) p.1 q.1 ∧ ReflTransGen (Reaches o) p.2 q.2 := by
  induction path with
  | refl => exact ⟨.refl, .refl⟩
  | tail _ step ih => exact ⟨ih.1.trans step.reaches.1, ih.2.trans step.reaches.2⟩

theorem SeesThrough.of_meets (h : a.SeesThrough o b) (step : Meets o (a, b) (x, y)) :
    x.SeesThrough o y := fun _ _ _ path => h _ _ _ (.head step path)

theorem SeesThrough.below_iff (h : a.SeesThrough o b) (ne : a ≠ b) (hs : b.Unfolds o s) :
    o.Below a b ↔ o.Below a s := h _ _ _ .refl ne hs

/-- Every type sees through one that is made without bound generics. -/
theorem seesThrough_of_unbound (h : ∀ s, ReflTransGen (Reaches o) b s → ¬ s.IsBound) :
    a.SeesThrough o b :=
  fun _ _ _ path _ hs => absurd hs.isBound (h _ (reaches_of_meets path).2)

/-! ## Gaps and loose types -/

/-- The last of three types with a gap is made of a loose type somewhere. -/
theorem Gap.exists_loose (gap : a.Gap o b c) :
    ∃ d, ReflTransGen (Reaches o) c d ∧ d.IsLoose := by
  have further {c z : Ty} (hz : c.Reaches o z)
      (ih : ∃ d, ReflTransGen (Reaches o) z d ∧ d.IsLoose) :
      ∃ d, ReflTransGen (Reaches o) c d ∧ d.IsLoose := by
    obtain ⟨d, path, loose⟩ := ih
    exact ⟨d, .head hz path, loose⟩
  induction gap with
  | absent ka kb kc hh optional => exact ⟨_, .refl, .inl ⟨_, kc, _, hh, optional⟩⟩
  | sources ka kb kc | target ka kb kc => exact ⟨_, .refl, .inr ⟨_, _, kc⟩⟩
  | field ka kb kc hh _ _ _ ih =>
    exact further (reaches_of_part kc trivial (List.mem_map_of_mem hh)) ih
  | tagged ka kb kc _ _ _ hh _ _ _ ih =>
    exact further (reaches_of_part kc trivial (List.mem_map_of_mem (mem_of_mem_tagFields hh))) ih
  | element ka kb kc _ ih => exact further (reaches_of_part kc trivial List.mem_cons_self) ih
  | summand ka kb kc _ _ hz _ _ ih => exact further (reaches_of_part kc trivial hz) ih
  | slot ka kb kc _ _ hz _ ih =>
    exact further (reaches_of_part kc trivial (List.mem_of_getElem? hz)) ih
  | body ka kb kc _ _ uc _ ih => exact further (reaches_of_body kc uc) ih
  | first _ _ _ ih | second _ _ ih => exact ih
  | third _ hs _ ih => exact further (.inr hs) ih

/-! ## Chains of plain types -/

section Plain

variable (whole : ¬ a.Gap o b c)
  (step : ∀ x y z, Meets o (a, b) (x, y) → Meets o (b, c) (y, z) → Meets o (a, c) (x, z) →
    Chains o x y z)
include whole step

theorem under_trans_record {fs gs hs : List (Field Ty)} (ka : a.kind = .record fs)
    (kb : b.kind = .record gs) (kc : c.kind = .record hs)
    (under : (Kind.record fs).Under o (.record gs))
    (under' : (Kind.record gs).Under o (.record hs)) :
    (Kind.record fs).Under o (.record hs) := by
  intro h hh
  have served' := under' h hh
  rw [Field.ServedBy] at served' ⊢
  cases hg : gs.find? (·.id == h.id) with
  | none =>
    -- the field is optional, and nothing is known of it further down
    rw [hg] at served'
    cases hf : fs.find? (·.id == h.id) with
    | none => exact served'
    | some f =>
      by_contra none
      exact whole (.absent ka kb kc hh served' hg hf fun below => none ⟨.inl served', below⟩)
  | some g =>
    rw [hg] at served'
    have mg := List.mem_of_find?_eq_some hg
    have named : g.id = h.id := by simpa using List.find?_some hg
    have served := under g mg
    rw [Field.ServedBy, named] at served
    cases hf : fs.find? (·.id == h.id) with
    | none =>
      rw [hf] at served
      exact served'.1.resolve_right fun required => by simp [served] at required
    | some f =>
      rw [hf] at served
      have mf := List.mem_of_find?_eq_some hf
      have named' : f.id = h.id := by simpa using List.find?_some hf
      refine ⟨served'.1.imp_right fun required => ?_, ?_⟩
      · exact served.1.resolve_left fun optional => by simp [optional] at required
      · exact step _ _ _ (.field ka kb mf mg (named'.trans named.symm)) (.field kb kc mg hh named)
          (.field ka kc mf hh named') served.2 served'.2
          fun gap => whole (.field ka kb kc hh hg hf gap)

theorem under_trans_variant {fs gs hs : List (Ident × Ty)} {tags tags' tags'' : List Tag}
    {initial initial' initial'' : Tag} (ka : a.kind = .variant fs tags initial)
    (kb : b.kind = .variant gs tags' initial') (kc : c.kind = .variant hs tags'' initial'')
    (under : (Kind.variant fs tags initial).Under o (.variant gs tags' initial'))
    (under' : (Kind.variant gs tags' initial').Under o (.variant hs tags'' initial'')) :
    (Kind.variant fs tags initial).Under o (.variant hs tags'' initial'') := by
  refine ⟨under.1.trans under'.1, fun t ht => ?_⟩
  obtain ⟨t', ht', fields⟩ := under.2 t ht
  have mt' := List.mem_of_find?_eq_some ht'
  have named : t'.id = t.id := by simpa using List.find?_some ht'
  obtain ⟨t'', ht'', fields'⟩ := under'.2 t' mt'
  have mt'' := List.mem_of_find?_eq_some ht''
  have named' : t''.id = t'.id := by simpa using List.find?_some ht''
  rw [named] at ht''
  refine ⟨t'', ht'', fun h hh => ?_⟩
  obtain ⟨g, hg, below'⟩ := fields' h hh
  have mg := List.mem_of_find?_eq_some hg
  have same : g.1 = h.1 := by simpa using List.find?_some hg
  obtain ⟨f, hf, below⟩ := fields g mg
  have mf := List.mem_of_find?_eq_some hf
  have same' : f.1 = g.1 := by simpa using List.find?_some hf
  rw [same] at hf
  refine ⟨f, hf, step _ _ _ (.tagged ka kb ht mt' named.symm mf mg same')
    (.tagged kb kc mt' mt'' named'.symm mg hh same)
    (.tagged ka kc ht mt'' (named'.trans named).symm mf hh (same'.trans same)) below below' ?_⟩
  exact fun gap => whole (.tagged ka kb kc ht ht' ht'' hh hg hf gap)

theorem under_trans_sum {xs ys zs : List Ty} {i i' i'' : UInt32} (ka : a.kind = .sum xs i)
    (kb : b.kind = .sum ys i') (kc : c.kind = .sum zs i'')
    (under : (Kind.sum xs i).Under o (.sum ys i')) (under' : (Kind.sum ys i').Under o (.sum zs i'')) :
    (Kind.sum xs i).Under o (.sum zs i'') := by
  intro x hx
  obtain ⟨y, hy, below⟩ := under x hx
  obtain ⟨z, hz, below'⟩ := under' y hy
  by_contra none
  have only : ∀ w ∈ zs, ¬ o.Below x w := fun w hw below => none ⟨w, hw, below⟩
  refine only z hz (step x y z (.summand ka kb hx hy) (.summand kb kc hy hz)
    (.summand ka kc hx hz) below below' ?_)
  exact fun gap => whole (.summand ka kb kc hx hy hz only gap)

theorem under_trans_tuple {xs ys zs : List Ty} (ka : a.kind = .tuple xs) (kb : b.kind = .tuple ys)
    (kc : c.kind = .tuple zs) (under : (Kind.tuple xs).Under o (.tuple ys))
    (under' : (Kind.tuple ys).Under o (.tuple zs)) : (Kind.tuple xs).Under o (.tuple zs) := by
  refine forall₂_of_places under under'.length_eq fun i x y z hx hy hz below => ?_
  exact step x y z (.slot ka kb hx hy) (.slot kb kc hy hz) (.slot ka kc hx hz) below
    (forall₂_get under' hy hz) fun gap => whole (.slot ka kb kc hx hy hz gap)

/-- Plain types form chains if what their comparisons go on with does. -/
theorem under_trans {k k' k'' : Kind Ty} (ka : a.kind = k) (kb : b.kind = k') (kc : c.kind = k'')
    (under : k.Under o k') (under' : k'.Under o k'') : k.Under o k'' := by
  cases k <;> cases k' <;> try exact under.elim
  all_goals cases k'' <;> try exact under'.elim
  case bool.bool.bool => trivial
  case text.text.text => trivial
  case int.int.int => exact IntRange.within_trans under under'
  case rational.rational.rational => exact RationalRange.within_trans under under'
  case enumeration.enumeration.enumeration => exact Enumeration.within_trans under under'
  case record.record.record => exact under_trans_record whole step ka kb kc under under'
  case variant.variant.variant => exact under_trans_variant whole step ka kb kc under under'
  case array.array.array =>
    exact step _ _ _ (.element ka kb) (.element kb kc) (.element ka kc) under under'
      fun gap => whole (.element ka kb kc gap)
  case sum.sum.sum => exact under_trans_sum whole step ka kb kc under under'
  case tuple.tuple.tuple => exact under_trans_tuple whole step ka kb kc under under'
  case map.map.map =>
    constructor
    · by_contra apart
      exact whole (.sources ka kb kc apart)
    · exact step _ _ _ (.target ka kb) (.target kb kc) (.target ka kc) under.2 under'.2
        fun gap => whole (.target ka kb kc gap)

end Plain

end Ty

namespace Registry

variable {home : Nat} {a b c s t : Ty}

/-- Firm types compare as what they unfold to. -/
theorem compare_of_unfolds (ha : (core home).Owns a) (hb : (core home).Owns b)
    (fa : a.Firm (core home).oracle) (hs : a.Unfolds (core home).oracle s) :
    (core home).compare a b = (core home).compare s b := by
  by_cases hne : a = b
  · -- the instance meets the generic itself, which is seen from the generic only
    subst hne
    rw [compare_self ha, compare_reverse (owns_of_unfolds hs) ha (fa.of_unfolds hs).steady fa.steady,
      compare_of_chain ha (.single hs), Inclusion.reverse_equivalent]
  · exact compare_unfold ha hb hne hs

/-- On the left a bound generic counts as its instance. -/
theorem below_unfold (ha : (core home).Owns a) (hb : (core home).Owns b) (ne : a ≠ b)
    (hs : a.Unfolds (core home).oracle s) :
    (core home).oracle.Below a b ↔ (core home).oracle.Below s b := by
  rw [Oracle.Below, Oracle.Below, oracle_compare, oracle_compare, compare_unfold ha hb ne hs]

theorem below_unfold_left (ha : (core home).Owns a) (hb : (core home).Owns b)
    (fa : a.Firm (core home).oracle) (hs : a.Unfolds (core home).oracle s) :
    (core home).oracle.Below a b ↔ (core home).oracle.Below s b := by
  rw [Oracle.Below, Oracle.Below, oracle_compare, oracle_compare, compare_of_unfolds ha hb fa hs]

theorem below_unfold_right (ha : (core home).Owns a) (hb : (core home).Owns b)
    (fa : a.Firm (core home).oracle) (fb : b.Firm (core home).oracle)
    (hs : b.Unfolds (core home).oracle s) :
    (core home).oracle.Below a b ↔ (core home).oracle.Below a s := by
  have part := compare_reverse ha (owns_of_unfolds hs) fa.steady (fb.of_unfolds hs).steady
  rw [Oracle.Below, Oracle.Below, oracle_compare, oracle_compare,
    compare_reverse ha hb fa.steady fb.steady, compare_of_unfolds hb ha fb hs, part]

theorem owns_of_reaches (ha : (core home).Owns a)
    (path : ReflTransGen (Ty.Reaches (core home).oracle) a s) : (core home).Owns s := by
  induction path with
  | refl => exact ha
  | tail _ step ih =>
    obtain ⟨-, part⟩ | unfolds := step
    · exact (forms_of_owns ih).owns_parts _ part
    · exact owns_of_unfolds unfolds

/-- Firm types see through each other. -/
theorem seesThrough_of_firm (ha : (core home).Owns a) (hb : (core home).Owns b)
    (fa : a.Firm (core home).oracle) (fb : b.Firm (core home).oracle) :
    a.SeesThrough (core home).oracle b := by
  intro x y s path _ hs
  obtain ⟨left, right⟩ := Ty.reaches_of_meets path
  exact below_unfold_right (owns_of_reaches ha left) (owns_of_reaches hb right)
    (fun u further => fa u (left.trans further)) (fun u further => fb u (right.trans further)) hs

/-- Steady types relate if one is a subtype of the other. -/
theorem related_iff (ha : (core home).Owns a) (hb : (core home).Owns b)
    (sa : a.Steady (core home).oracle) (sb : b.Steady (core home).oracle) :
    (core home).oracle.Related a b ↔
      (core home).oracle.Below a b ∨ (core home).oracle.Below b a := by
  have back := compare_reverse hb ha sb sa
  rw [Oracle.Related, Oracle.Below, Oracle.Below, oracle_compare, oracle_compare, back]
  cases (core home).compare a b <;> decide

/-- Generics with nothing bound are subtypes if they have equally many variables and their bodies
are. -/
theorem below_open_iff {body body' : TypeRef} {inner inner' : Ty} {vars vars' : UInt32}
    {bindings bindings' : List (TypeRef × Ty)} (ha : (core home).Owns a) (hb : (core home).Owns b)
    (ka : a.kind = .generic body inner vars bindings) (ua : Ty.isBound vars bindings = false)
    (kb : b.kind = .generic body' inner' vars' bindings')
    (ub : Ty.isBound vars' bindings' = false) :
    (core home).oracle.Below a b ↔ vars = vars' ∧ (core home).oracle.Below inner inner' := by
  by_cases hne : a = b
  · subst hne
    obtain ⟨rfl, rfl, rfl, rfl⟩ := Kind.generic.inj (ka.symm.trans kb)
    exact iff_of_true (below_self ha) ⟨rfl, below_self (owns_part ha ka List.mem_cons_self)⟩
  · rw [Oracle.Below, Oracle.Below, oracle_compare, oracle_compare,
      compare_open_open ha hb hne ka ua kb ub]
    by_cases count : vars = vars'
    · rw [if_pos count, and_iff_right count]
    · rw [if_neg count]
      exact iff_of_false (by decide) fun both => count both.1

/-! ## Gaps -/

/-- Where there is a gap, the first type is no subtype of the last. -/
theorem not_below_of_gap (gap : a.Gap (core home).oracle b c) (ha : (core home).Owns a)
    (hc : (core home).Owns c) (through : a.SeesThrough (core home).oracle c) :
    ¬ (core home).oracle.Below a c := by
  induction gap with
  | absent ka kb kc hh optional lacks hf apart =>
    rw [below_kinds_iff ha hc ka kc trivial trivial]
    intro under
    have served := under _ hh
    rw [Field.ServedBy, hf] at served
    exact apart served.2
  | sources ka kb kc apart =>
    rw [below_kinds_iff ha hc ka kc trivial trivial]
    exact fun under => apart under.1
  | field ka kb kc hh hg hf _ ih =>
    rw [below_kinds_iff ha hc ka kc trivial trivial]
    intro under
    have served := under _ hh
    rw [Field.ServedBy, hf] at served
    have mf := List.mem_of_find?_eq_some hf
    have named := List.find?_some hf
    rw [beq_iff_eq] at named
    exact ih (owns_part ha ka (List.mem_map_of_mem mf)) (owns_part hc kc (List.mem_map_of_mem hh))
      (through.of_meets (.field ka kc mf hh named)) served.2
  | tagged ka kb kc ht ht' ht'' hh hg hf _ ih =>
    rw [below_kinds_iff ha hc ka kc trivial trivial]
    rintro ⟨-, under⟩
    obtain ⟨t₁, found, each⟩ := under _ ht
    obtain rfl := Option.some.inj (ht''.symm.trans found)
    obtain ⟨f₁, found', below⟩ := each _ hh
    obtain rfl := Option.some.inj (hf.symm.trans found')
    have mf := List.mem_of_find?_eq_some hf
    have tag := List.find?_some ht''
    have named := List.find?_some hf
    rw [beq_iff_eq] at tag named
    exact ih (owns_part ha ka (List.mem_map_of_mem (Ty.mem_of_mem_tagFields mf)))
      (owns_part hc kc (List.mem_map_of_mem (Ty.mem_of_mem_tagFields hh)))
      (through.of_meets
        (.tagged ka kc ht (List.mem_of_find?_eq_some ht'') tag.symm mf hh named)) below
  | element ka kb kc _ ih =>
    rw [below_kinds_iff ha hc ka kc trivial trivial]
    exact ih (owns_part ha ka List.mem_cons_self) (owns_part hc kc List.mem_cons_self)
      (through.of_meets (.element ka kc))
  | summand ka kb kc hx hy hz only _ _ =>
    rw [below_kinds_iff ha hc ka kc trivial trivial]
    intro under
    obtain ⟨w, hw, below⟩ := under _ hx
    exact only w hw below
  | slot ka kb kc hx hy hz _ ih =>
    rw [below_kinds_iff ha hc ka kc trivial trivial]
    intro under
    exact ih (owns_part ha ka (List.mem_of_getElem? hx)) (owns_part hc kc (List.mem_of_getElem? hz))
      (through.of_meets (.slot ka kc hx hz)) (forall₂_get under hx hz)
  | @target a b c s t s' t' s'' t'' ka kb kc _ ih =>
    rw [below_kinds_iff ha hc ka kc trivial trivial]
    have mt : t ∈ (Kind.map s t).parts := by simp [Kind.parts]
    have mt'' : t'' ∈ (Kind.map s'' t'').parts := by simp [Kind.parts]
    exact fun under => ih (owns_part ha ka mt) (owns_part hc kc mt'')
      (through.of_meets (.target ka kc)) under.2
  | body ka kb kc ua ub uc _ ih =>
    rw [below_open_iff ha hc ka ua kc uc]
    exact fun both => ih (owns_part ha ka List.mem_cons_self) (owns_part hc kc List.mem_cons_self)
      (through.of_meets (.body ka kc ua uc)) both.2
  | first ne hs _ ih =>
    rw [below_unfold ha hc ne hs]
    exact ih (owns_of_unfolds hs) hc (through.of_meets (.left ne hs))
  | second hs _ ih => exact ih ha hc through
  | third ne hs _ ih =>
    rw [through.below_iff ne hs]
    exact ih ha (owns_of_unfolds hs) (through.of_meets (.right ne hs))

/-! ## Chains -/

/-- Above a variable there is nothing else. -/
theorem eq_of_below_var (ha : (core home).Owns a) (hb : (core home).Owns b) (var : a.IsVar)
    (below : (core home).oracle.Below a b) : a = b := by
  by_contra hne
  rw [Oracle.Below, oracle_compare] at below
  by_cases var' : b.IsVar
  · obtain ⟨v, ka⟩ := var
    obtain ⟨w, kb⟩ := var'
    have same : v = w := by
      by_contra other
      rw [compare_var_var ha hb hne ka kb, if_neg other] at below
      contradiction
    refine hne (eq_of_ref ha hb ?_)
    rw [ref_of_var ha ka, ref_of_var hb kb, same]
  · rw [compare_var ha hb hne var var'] at below
    contradiction

/-- Above a generic with nothing bound there are only such generics, if nothing unfolds. -/
theorem isOpen_of_below (ha : (core home).Owns a) (hb : (core home).Owns b)
    (final : ∀ s, ¬ b.Unfolds (core home).oracle s) (opened : a.IsOpen)
    (below : (core home).oracle.Below a b) : b.IsOpen := by
  by_cases hne : a = b
  · exact hne ▸ opened
  · rw [Oracle.Below, oracle_compare] at below
    obtain ⟨s, hs⟩ | stuck | opened' | other := b.sorts (core home).oracle
    · exact absurd hs (final s)
    · rw [compare_open_stuck ha hb hne opened stuck] at below
      contradiction
    · exact opened'
    · rw [compare_open ha hb hne opened other] at below
      contradiction

/-- Above a plain type there are only plain types, if nothing unfolds. -/
theorem isPlain_of_below (ha : (core home).Owns a) (hb : (core home).Owns b)
    (final : ∀ s, ¬ b.Unfolds (core home).oracle s) (plain : a.IsPlain)
    (below : (core home).oracle.Below a b) : b.IsPlain := by
  by_cases hne : a = b
  · exact hne ▸ plain
  · rw [Oracle.Below, oracle_compare] at below
    obtain ⟨s, hs⟩ | stuck | opened | var | plain' := b.sorts (core home).oracle
    · exact absurd hs (final s)
    · rw [compare_plain_stuck ha hb hne plain stuck] at below
      contradiction
    · rw [compare_plain_open ha hb hne plain opened] at below
      contradiction
    · rw [compare_plain_var ha hb hne plain var] at below
      contradiction
    · exact plain'

/-- A subtype of a subtype is a subtype, unless there is a gap. -/
theorem below_trans (ha : (core home).Owns a) (hb : (core home).Owns b) (hc : (core home).Owns c)
    (ab : a.SeesThrough (core home).oracle b) (bc : b.SeesThrough (core home).oracle c)
    (ac : a.SeesThrough (core home).oracle c) : Ty.Chains (core home).oracle a b c := by
  induction hn : a.ref.weight + b.ref.weight + c.ref.weight using Nat.strongRecOn
    generalizing a b c with
  | ind n ih =>
    subst hn
    intro below below' whole
    by_cases hab : a = b
    · exact hab ▸ below'
    by_cases hbc : b = c
    · exact hbc ▸ below
    by_cases hac : a = c
    · exact hac ▸ below_self ha
    -- unfold whatever can be unfolded
    by_cases unfolds : ∃ s, a.Unfolds (core home).oracle s
    · obtain ⟨s, hs⟩ := unfolds
      have lighter := weight_unfolds_lt ha hs
      rw [below_unfold ha hb hab hs] at below
      rw [below_unfold ha hc hac hs]
      exact ih _ (by omega) (owns_of_unfolds hs) hb hc (ab.of_meets (.left hab hs)) bc
        (ac.of_meets (.left hac hs)) rfl below below' fun gap => whole (.first hac hs gap)
    by_cases unfolds' : ∃ s, b.Unfolds (core home).oracle s
    · obtain ⟨s, hs⟩ := unfolds'
      have lighter := weight_unfolds_lt hb hs
      rw [ab.below_iff hab hs] at below
      rw [below_unfold hb hc hbc hs] at below'
      exact ih _ (by omega) ha (owns_of_unfolds hs) hc (ab.of_meets (.right hab hs))
        (bc.of_meets (.left hbc hs)) ac rfl below below' fun gap => whole (.second hs gap)
    by_cases unfolds'' : ∃ s, c.Unfolds (core home).oracle s
    · obtain ⟨s, hs⟩ := unfolds''
      have lighter := weight_unfolds_lt hc hs
      rw [bc.below_iff hbc hs] at below'
      rw [ac.below_iff hac hs]
      exact ih _ (by omega) ha hb (owns_of_unfolds hs) ab (bc.of_meets (.right hbc hs))
        (ac.of_meets (.right hac hs)) rfl below below' fun gap => whole (.third hac hs gap)
    rw [not_exists] at unfolds unfolds' unfolds''
    obtain ⟨s, hs⟩ | stuck | opened | var | plain := a.sorts (core home).oracle
    · exact absurd hs (unfolds s)
    · rw [Oracle.Below, oracle_compare, compare_stuck ha hb hab stuck] at below
      contradiction
    · have opened' := isOpen_of_below ha hb unfolds' opened below
      have opened'' := isOpen_of_below hb hc unfolds'' opened' below'
      obtain ⟨_, x, _, _, ka, ua⟩ := opened
      obtain ⟨_, y, _, _, kb, ub⟩ := opened'
      obtain ⟨_, z, _, _, kc, uc⟩ := opened''
      rw [below_open_iff ha hb ka ua kb ub] at below
      rw [below_open_iff hb hc kb ub kc uc] at below'
      rw [below_open_iff ha hc ka ua kc uc]
      have first := weight_leads_lt ha (.body ka ua)
      have second := weight_leads_lt hb (.body kb ub)
      have third := weight_leads_lt hc (.body kc uc)
      refine ⟨below.1.trans below'.1, ?_⟩
      exact ih _ (by omega) (owns_part ha ka List.mem_cons_self)
        (owns_part hb kb List.mem_cons_self) (owns_part hc kc List.mem_cons_self)
        (ab.of_meets (.body ka kb ua ub)) (bc.of_meets (.body kb kc ub uc))
        (ac.of_meets (.body ka kc ua uc)) rfl below.2 below'.2
        fun gap => whole (.body ka kb kc ua ub uc gap)
    · exact absurd (eq_of_below_var ha hb var below) hab
    · have plain' := isPlain_of_below ha hb unfolds' plain below
      have plain'' := isPlain_of_below hb hc unfolds'' plain' below'
      rw [below_plain_iff ha hb plain plain'] at below
      rw [below_plain_iff hb hc plain' plain''] at below'
      rw [below_plain_iff ha hc plain plain'']
      refine Ty.under_trans whole ?_ rfl rfl rfl below below'
      intro x y z xy yz xz
      obtain ⟨hx, hy⟩ := xy.parts plain plain'
      have hz := (yz.parts plain' plain'').2
      have first := (forms_of_owns ha).weight_part_lt hx
      have second := (forms_of_owns hb).weight_part_lt hy
      have third := (forms_of_owns hc).weight_part_lt hz
      exact ih _ (by omega) (owns_part ha rfl hx) (owns_part hb rfl hy) (owns_part hc rfl hz)
        (ab.of_meets xy) (bc.of_meets yz) (ac.of_meets xz) rfl

/-- Transitivity for three references that resolve to types which see through each other: a subtype of
a subtype is one just if there is no gap between the three. There is none if the last type is made of
no record with optional fields and no mapping. -/
theorem below_trans_iff {x y z : TypeRef} (hx : (core home).resolve x = .ok a)
    (hy : (core home).resolve y = .ok b) (hz : (core home).resolve z = .ok c)
    (ab : a.SeesThrough (core home).oracle b) (bc : b.SeesThrough (core home).oracle c)
    (ac : a.SeesThrough (core home).oracle c) (below : (core home).oracle.Below a b)
    (below' : (core home).oracle.Below b c) :
    ((core home).oracle.Below a c ↔ ¬ a.Gap (core home).oracle b c) ∧
      ((∀ d, ReflTransGen (Ty.Reaches (core home).oracle) c d → ¬ d.IsLoose) →
        (core home).oracle.Below a c) := by
  have ha := owns_of_resolve hx
  have hb := owns_of_resolve hy
  have hc := owns_of_resolve hz
  have chain := below_trans ha hb hc ab bc ac below below'
  refine ⟨⟨fun direct gap => not_below_of_gap gap ha hc ac direct, chain⟩, fun solid => ?_⟩
  refine chain fun gap => ?_
  obtain ⟨d, path, loose⟩ := gap.exists_loose
  exact solid d path loose

/-- Records with fewer and fewer fields, at larger and larger types. One field, which the first record
alone has, is a generic around its own variable, so this record is not firm. -/
theorem below_trans_records :
    let x : TypeRef := .record [⟨⟨"p"⟩, .intRange 0 3, false⟩,
      ⟨⟨"q"⟩, .genericBound (.var 0 0) 1 [.var 0 0], true⟩]
    let y : TypeRef := .record [⟨⟨"p"⟩, .intRange 0 9, false⟩]
    let z : TypeRef := .record [⟨⟨"p"⟩, .int, false⟩]
    ∃ a b c, (core 0).resolve x = .ok a ∧ (core 0).resolve y = .ok b ∧
      (core 0).resolve z = .ok c ∧ ¬ a.Firm (core 0).oracle ∧
        a.SeesThrough (core 0).oracle b ∧ b.SeesThrough (core 0).oracle c ∧
          a.SeesThrough (core 0).oracle c ∧ (core 0).oracle.Below a b ∧
            (core 0).oracle.Below b c ∧ (core 0).oracle.Below a c ∧
              ¬ a.Gap (core 0).oracle b c := by
  intro x y z
  obtain ⟨a, b, c, i, j, k, w, v, hx, hy, hz, ka, kb, kc, ki, kj, kk, unfolds, var⟩ :
      ∃ a b c i j k w v,
      (core 0).resolve x = .ok a ∧ (core 0).resolve y = .ok b ∧ (core 0).resolve z = .ok c ∧
        a.kind = .record [⟨⟨"p"⟩, i, false⟩, ⟨⟨"q"⟩, w, true⟩] ∧
          b.kind = .record [⟨⟨"p"⟩, j, false⟩] ∧ c.kind = .record [⟨⟨"p"⟩, k, false⟩] ∧
            i.kind = .int ⟨0, 3, by decide⟩ ∧ j.kind = .int ⟨0, 9, by decide⟩ ∧
              k.kind = .int .full ∧ w.Unfolds (core 0).oracle v ∧ v.IsVar :=
    ⟨_, _, _, _, _, _, _, _, rfl, rfl, rfl, rfl, rfl, rfl, rfl, rfl, rfl,
      ⟨_, _, _, _, rfl, rfl, .var 0 0, rfl, rfl⟩, _, rfl⟩
  have ha := owns_of_resolve hx
  have hb := owns_of_resolve hy
  have hc := owns_of_resolve hz
  have hi : (core 0).Owns i := owns_part ha ka List.mem_cons_self
  have hj : (core 0).Owns j := owns_part hb kb List.mem_cons_self
  have hk : (core 0).Owns k := owns_part hc kc List.mem_cons_self
  have loose : ¬ a.Firm (core 0).oracle := by
    intro firm
    have reached : a.Reaches (core 0).oracle w :=
      Ty.reaches_of_part ka trivial (by simp [Kind.parts])
    exact firm w (.single reached) ⟨v, unfolds, .inl var⟩
  -- a record with a number and nothing else is made of itself and the number
  have made {t n : Ty} {range : IntRange} {s : Ty} (kt : t.kind = .record [⟨⟨"p"⟩, n, false⟩])
      (kn : n.kind = .int range) (path : ReflTransGen (Ty.Reaches (core 0).oracle) t s) :
      s = t ∨ s = n := by
    obtain rfl | ⟨p, hp, rest⟩ := Ty.eq_or_part_of_path kt trivial path
    · exact .inl rfl
    · obtain rfl := List.mem_singleton.1 hp
      obtain rfl | ⟨p, hp, -⟩ := Ty.eq_or_part_of_path kn trivial rest
      · exact .inr rfl
      · exact absurd hp List.not_mem_nil
  have through {u t n : Ty} {range : IntRange} (kt : t.kind = .record [⟨⟨"p"⟩, n, false⟩])
      (kn : n.kind = .int range) : u.SeesThrough (core 0).oracle t := by
    refine Ty.seesThrough_of_unbound ?_
    rintro s path ⟨_, _, _, _, generic, -⟩
    obtain rfl | rfl := made kt kn path
    · simp [kt] at generic
    · simp [kn] at generic
  have small : (core 0).oracle.Below i j := by
    refine (below_kinds_iff hi hj ki kj trivial trivial).2 ?_
    show IntRange.within _ _ = true
    decide
  have large : (core 0).oracle.Below j k := by
    refine (below_kinds_iff hj hk kj kk trivial trivial).2 ?_
    show IntRange.within _ _ = true
    decide
  have below : (core 0).oracle.Below a b := (below_kinds_iff ha hb ka kb trivial trivial).2
    (List.forall_mem_singleton.2 ⟨.inr rfl, small⟩)
  have below' : (core 0).oracle.Below b c := (below_kinds_iff hb hc kb kc trivial trivial).2
    (List.forall_mem_singleton.2 ⟨.inr rfl, large⟩)
  obtain ⟨exact, free⟩ := below_trans_iff hx hy hz (through kb kj) (through kc kk) (through kc kk)
    below below'
  have direct : (core 0).oracle.Below a c := by
    refine free fun d path => ?_
    obtain rfl | rfl := made kc kk path
    · simp [Ty.IsLoose, kc]
    · simp [Ty.IsLoose, kk]
  exact ⟨a, b, c, hx, hy, hz, loose, through kb kj, through kc kk, through kc kk, below, below',
    direct, exact.1 direct⟩

/-- Whether three references resolve to a chain of two subtypes that is broken: the first is no
subtype of the last. -/
def BreaksChain (r : Registry) (x y z : TypeRef) : Prop :=
  ∃ a b c, r.resolve x = .ok a ∧ r.resolve y = .ok b ∧ r.resolve z = .ok c ∧
    r.oracle.Below a b ∧ r.oracle.Below b c ∧ ¬ r.oracle.Below a c

/-- A field comes back at another type. -/
theorem breaksChain_field : (core 0).BreaksChain (.record [⟨⟨"x"⟩, .bool, false⟩]) (.record [])
    (.record [⟨⟨"x"⟩, .int, true⟩]) := by
  obtain ⟨a, b, c, i, q, hx, hy, hz, ka, kb, kc, ki, kq⟩ : ∃ a b c i q,
      (core 0).resolve (.record [⟨⟨"x"⟩, .bool, false⟩]) = .ok a ∧
        (core 0).resolve (.record []) = .ok b ∧
          (core 0).resolve (.record [⟨⟨"x"⟩, .int, true⟩]) = .ok c ∧
            a.kind = .record [⟨⟨"x"⟩, q, false⟩] ∧ b.kind = .record [] ∧
              c.kind = .record [⟨⟨"x"⟩, i, true⟩] ∧ i.kind = .int .full ∧ q.kind = .bool :=
    ⟨_, _, _, _, _, rfl, rfl, rfl, rfl, rfl, rfl, rfl, rfl⟩
  have ha := owns_of_resolve hx
  have hb := owns_of_resolve hy
  have hc := owns_of_resolve hz
  have apart : ¬ (core 0).oracle.Below q i := by
    rw [below_kinds_iff (owns_part ha ka List.mem_cons_self) (owns_part hc kc List.mem_cons_self)
      kq ki trivial trivial]
    exact not_false
  refine ⟨a, b, c, hx, hy, hz, ?_, ?_, ?_⟩
  · rw [below_kinds_iff ha hb ka kb trivial trivial]
    exact fun g hg => absurd hg List.not_mem_nil
  · rw [below_kinds_iff hb hc kb kc trivial trivial]
    exact List.forall_mem_singleton.2 rfl
  · rw [below_kinds_iff ha hc ka kc trivial trivial]
    exact fun under => apart (under _ List.mem_cons_self).2

/-- A source meets two unrelated ones. -/
theorem breaksChain_source : (core 0).BreaksChain (.map (.intRange 0 1) .bool)
    (.map (.intRange 0 3) .bool) (.map (.intRange 2 3) .bool) := by
  obtain ⟨a, b, c, i, j, k, q, hx, hy, hz, ka, kb, kc, ki, kj, kk⟩ : ∃ a b c i j k q,
      (core 0).resolve (.map (.intRange 0 1) .bool) = .ok a ∧
        (core 0).resolve (.map (.intRange 0 3) .bool) = .ok b ∧
          (core 0).resolve (.map (.intRange 2 3) .bool) = .ok c ∧
            a.kind = .map i q ∧ b.kind = .map j q ∧ c.kind = .map k q ∧
              i.kind = .int ⟨0, 1, by decide⟩ ∧ j.kind = .int ⟨0, 3, by decide⟩ ∧
                k.kind = .int ⟨2, 3, by decide⟩ :=
    ⟨_, _, _, _, _, _, _, rfl, rfl, rfl, rfl, rfl, rfl, rfl, rfl, rfl⟩
  have ha := owns_of_resolve hx
  have hb := owns_of_resolve hy
  have hc := owns_of_resolve hz
  have hi : (core 0).Owns i := owns_part ha ka List.mem_cons_self
  have hj : (core 0).Owns j := owns_part hb kb List.mem_cons_self
  have hk : (core 0).Owns k := owns_part hc kc List.mem_cons_self
  have fi : i.Firm (core 0).oracle := Ty.firm_of_parts ki trivial (by simp [Kind.parts])
  have fj : j.Firm (core 0).oracle := Ty.firm_of_parts kj trivial (by simp [Kind.parts])
  have fk : k.Firm (core 0).oracle := Ty.firm_of_parts kk trivial (by simp [Kind.parts])
  have same : (core 0).oracle.Below q q := below_self (owns_part ha ka (by simp [Kind.parts]))
  refine ⟨a, b, c, hx, hy, hz, ?_, ?_, ?_⟩
  · rw [below_kinds_iff ha hb ka kb trivial trivial]
    refine ⟨(related_iff hi hj fi.steady fj.steady).2 (.inl ?_), same⟩
    rw [below_kinds_iff hi hj ki kj trivial trivial]
    show IntRange.within _ _ = true
    decide
  · rw [below_kinds_iff hb hc kb kc trivial trivial]
    refine ⟨(related_iff hj hk fj.steady fk.steady).2 (.inr ?_), same⟩
    rw [below_kinds_iff hk hj kk kj trivial trivial]
    show IntRange.within _ _ = true
    decide
  · rw [below_kinds_iff ha hc ka kc trivial trivial]
    rintro ⟨related, -⟩
    rw [related_iff hi hk fi.steady fk.steady, below_kinds_iff hi hk ki kk trivial trivial,
      below_kinds_iff hk hi kk ki trivial trivial] at related
    revert related
    show ¬ (IntRange.within _ _ = true ∨ IntRange.within _ _ = true)
    decide

/-- The type in the middle is a bound generic whose instance is the last type. The first type, a list
of variables, meets a generic around its own variable there, on the right of which it is looked for
in vain. -/
theorem breaksChain_variable :
    let w : TypeRef := .genericBound (.var 0 0) 1 [.var 0 0]
    (core 0).BreaksChain (.list (.var 0 0)) (.genericBound (.var 0 0) 1 [.list w]) (.list w) := by
  intro w
  obtain ⟨a, b, c, i, j, size, size', hx, hy, hz, ka, kc, middle, inner, var⟩ :
      ∃ a b c i j size size', (core 0).resolve (.list (.var 0 0)) = .ok a ∧
        (core 0).resolve (.genericBound (.var 0 0) 1 [.list w]) = .ok b ∧
          (core 0).resolve (.list w) = .ok c ∧ a.kind = .array i size ∧ c.kind = .array j size' ∧
            b.Unfolds (core 0).oracle c ∧ j.Unfolds (core 0).oracle i ∧ i.IsVar :=
    ⟨_, _, _, _, _, _, _, rfl, rfl, rfl, rfl, rfl, ⟨_, _, _, _, rfl, rfl, .list w, rfl, rfl⟩,
      ⟨_, _, _, _, rfl, rfl, .var 0 0, rfl, rfl⟩, _, rfl⟩
  have ha := owns_of_resolve hx
  have hb := owns_of_resolve hy
  have hc := owns_of_resolve hz
  have hi : (core 0).Owns i := owns_part ha ka List.mem_cons_self
  have hj : (core 0).Owns j := owns_part hc kc List.mem_cons_self
  have plain : a.IsPlain := by simp [Ty.IsPlain, ka]
  have other : i ≠ j := by
    rintro rfl
    exact inner.isBound.not_isVar var
  have apart : a ≠ c := by
    rintro rfl
    exact other (Kind.array.inj (ka.symm.trans kc)).1
  have apart' : a ≠ b := by
    rintro rfl
    exact middle.isBound.not_isPlain plain
  refine ⟨a, b, c, hx, hy, hz, ?_, ?_, ?_⟩
  · rw [Oracle.Below, oracle_compare, compare_plain_unfold ha hb apart' plain middle,
      compare_array hc ha apart.symm kc ka, compare_of_chain hj (.single inner)]
    rfl
  · rw [Oracle.Below, oracle_compare, compare_of_chain hb (.single middle)]
    rfl
  · rw [Oracle.Below, oracle_compare, compare_array ha hc apart ka kc,
      compare_var hi hj other var inner.isBound.not_isVar]
    decide

/-- The ways in which a chain breaks: a field that comes back at another type, a source that meets two
unrelated ones, and a variable that meets a generic around it on the right. -/
theorem not_below_trans :
    (core 0).BreaksChain (.record [⟨⟨"x"⟩, .bool, false⟩]) (.record [])
        (.record [⟨⟨"x"⟩, .int, true⟩]) ∧
      (core 0).BreaksChain (.map (.intRange 0 1) .bool) (.map (.intRange 0 3) .bool)
          (.map (.intRange 2 3) .bool) ∧
        (core 0).BreaksChain (.list (.var 0 0))
          (.genericBound (.var 0 0) 1 [.list (.genericBound (.var 0 0) 1 [.var 0 0])])
          (.list (.genericBound (.var 0 0) 1 [.var 0 0])) :=
  ⟨breaksChain_field, breaksChain_source, breaksChain_variable⟩

end Registry

end TypedTree
