import TypedTree.Proofs.Stability

/-!
# Comparison with any memory

Followed to the letter, the rules of subtyping need not come to an end: a constructor may build
generics whose instances are as large as the generics. So what a comparison finds is described here
by a relation, which says nothing about a comparison that does not end, and the rules are a
parameter of it. With the rules as they stand it follows every question; with those that leave heavy
pairs alone it is what `Memory.compare` computes.

A memory agrees with a registry if what it has kept about certain pairs is what the rules give
without any memory. Then a comparison of such a pair comes to an end with the memory if it does
without, and finds the same.

## Main definitions

* `Memory.Finds`: what a comparison finds with a memory.
* `Registry.Relates`: what it finds without one.
* `Memory.Agrees`: whether a memory keeps only that.

## Main statements

* `Memory.Agrees.concludes`, `Memory.Agrees.exists_finds`: a memory does not show.
* `Memory.finds_compare`: what `Memory.compare` computes.
* `Registry.Extends.relates_iff`: what is found is found ever after.
* `Registry.relates_core_iff`: for the core registry both kinds of rules come to the same.
-/

namespace TypedTree

namespace Inquiry

variable {α : Type} {resolve : TypeRef → Except TypeError Ty} {Q : TypeRef → Prop}
  {P P' : Ty → Ty → Prop}

/-- The same inquiry where pairs that weigh too much count as unrelated. -/
def limit (bound : Nat) : Inquiry α → Inquiry α
  | .done a => .done a
  | .resolve ref next => .resolve ref fun t => (next t).limit bound
  | .compare a b next =>
    if a.pairWeight b < bound then .compare a b fun o => (next o).limit bound
    else (next .unrelated).limit bound

theorem Within.limit {x : Inquiry α} (h : x.Within resolve Q P) (bound : Nat) :
    (x.limit bound).Within resolve Q P := by
  induction x with
  | done a => trivial
  | resolve ref next ih => exact ⟨h.1, ih _ h.2⟩
  | compare a b next ih =>
    rw [Inquiry.limit]
    split
    · exact ⟨h.1, fun o => ih o (h.2 o)⟩
    · exact ih _ (h.2 _)

theorem Asks.and {o : Oracle} {x : Inquiry α} (h : x.Asks o P) (h' : x.Asks o P') :
    x.Asks o fun a b => P a b ∧ P' a b := by
  induction x with
  | done a => trivial
  | resolve ref next ih => exact ih _ h h'
  | compare a b next ih => exact ⟨⟨h.1, h'.1⟩, ih _ h.2 h'.2⟩

end Inquiry

/-- What a comparison asks about two types that it cannot tell at once. -/
abbrev Rules := Ty → Ty → Inquiry Inclusion

namespace Ty

/-- The rules, where pairs that weigh no less than the one in question count as unrelated. -/
def judgeLighter : Rules := fun a b =>
  (a.judge b).limit (a.pairWeight b)

/-- Whether rules keep within whatever the rules of subtyping keep within. -/
def AsksNoMore (rules : Rules) : Prop :=
  ∀ {resolve : TypeRef → Except TypeError Ty} {Q : TypeRef → Prop} {P : Ty → Ty → Prop} {a b : Ty},
    (a.judge b).Within resolve Q P → (rules a b).Within resolve Q P

theorem asksNoMore_judge : AsksNoMore judge := id

theorem asksNoMore_judgeLighter : AsksNoMore judgeLighter := fun h => h.limit _

end Ty

namespace Memory

open Inquiry (relate)

variable {σ : Type}

/-! ## What a comparison finds -/

/-- What comes of an inquiry in a state, and in which state, when comparisons follow some rules and
use a memory. -/
inductive Finds (m : Memory σ) (rules : Rules) : σ → Inquiry Inclusion → Inclusion → σ → Prop
  | done {s o} : m.Finds rules s (.done o) o s
  | resolve {s ref next o s'}
    (rest : m.Finds rules ((m.resolve ref).run s).2 (next ((m.resolve ref).run s).1) o s') :
    m.Finds rules s (.resolve ref next) o s'
  /-- The comparison needs no look at the kinds. -/
  | settled {s a b next p o s'} (h : a.shortcut? b = some p)
    (rest : m.Finds rules s (next p) o s') : m.Finds rules s (.compare a b next) o s'
  /-- The answer was kept. -/
  | known {s a b next p o s'} (h : a.shortcut? b = none) (kept : m.known? a b s = some p)
    (rest : m.Finds rules s (next p) o s') : m.Finds rules s (.compare a b next) o s'
  /-- The rules give the answer, which is kept from now on. -/
  | judged {s a b next p s₁ o s'} (h : a.shortcut? b = none) (unknown : m.known? a b s = none)
    (judgment : m.Finds rules s (rules a b) p s₁)
    (rest : m.Finds rules (m.keep a b p s₁) (next p) o s') :
    m.Finds rules s (.compare a b next) o s'

variable {rules : Rules} {m : Memory σ} {s s' s'' : σ} {x : Inquiry Inclusion}
  {o o' : Inclusion} {a b : Ty}

/-- A comparison finds one answer at most. -/
theorem Finds.unique (h : m.Finds rules s x o s') (h' : m.Finds rules s x o' s'') :
    o = o' ∧ s' = s'' := by
  induction h generalizing o' s'' with
  | done =>
    cases h'
    exact ⟨rfl, rfl⟩
  | resolve rest ih =>
    cases h' with
    | resolve rest' => exact ih rest'
  | settled h rest ih =>
    cases h' with
    | settled h' rest' =>
      obtain rfl := Option.some.inj (h.symm.trans h')
      exact ih rest'
    | known h' => simp [h] at h'
    | judged h' => simp [h] at h'
  | known h kept rest ih =>
    cases h' with
    | settled h' => simp [h] at h'
    | known _ kept' rest' =>
      obtain rfl := Option.some.inj (kept.symm.trans kept')
      exact ih rest'
    | judged _ unknown => simp [kept] at unknown
  | judged h unknown _ _ ihj ih =>
    cases h' with
    | settled h' => simp [h] at h'
    | known _ kept => simp [unknown] at kept
    | judged _ _ judgment rest' =>
      obtain ⟨rfl, rfl⟩ := ihj judgment
      exact ih rest'

theorem Finds.andThen {next : Inclusion → Inquiry Inclusion} {p : Inclusion}
    (h : m.Finds rules s (relate a b) p s') (rest : m.Finds rules s' (next p) o s'') :
    m.Finds rules s (.compare a b next) o s'' := by
  cases h with
  | settled h done => cases done; exact .settled h rest
  | known h kept done => cases done; exact .known h kept rest
  | judged h unknown judgment done => cases done; exact .judged h unknown judgment rest

/-- What comes of an inquiry where only lighter pairs are followed. -/
theorem finds_limit {bound : Nat}
    (asked : ∀ c d s, c.pairWeight d < bound → m.Finds Ty.judgeLighter s (relate c d)
      ((m.compare c d).run s).1 ((m.compare c d).run s).2)
    (x : Inquiry Inclusion) (s : σ) :
    m.Finds Ty.judgeLighter s (x.limit bound) ((x.run m.resolve (m.below bound)).run s).1
      ((x.run m.resolve (m.below bound)).run s).2 := by
  induction x generalizing s with
  | done o => exact .done
  | resolve ref next ih => exact .resolve (ih _ _)
  | compare c d next ih =>
    simp only [Inquiry.limit, Inquiry.run, StateT.run_bind, below]
    split
    · rename_i light
      exact (asked c d s light).andThen (ih _ _)
    · exact ih _ s

/-- The comparison with a memory finds what it computes. -/
theorem finds_compare (m : Memory σ) (a b : Ty) (s : σ) :
    m.Finds Ty.judgeLighter s (relate a b) ((m.compare a b).run s).1 ((m.compare a b).run s).2 := by
  induction hn : a.pairWeight b using Nat.strongRecOn generalizing a b s with
  | ind n ih =>
    subst hn
    rw [compare_eq]
    cases hs : a.shortcut? b with
    | some o => exact .settled hs .done
    | none =>
      cases hk : m.known? a b s with
      | some o =>
        simp only [StateT.run_bind, StateT.run_get, pure_bind, hk]
        exact .known hs hk .done
      | none =>
        simp only [StateT.run_bind, StateT.run_get, pure_bind, hk]
        refine .judged hs hk (finds_limit ?_ _ s) .done
        intro c d s light
        exact ih _ light c d s rfl

end Memory

namespace Registry

open Inquiry (relate)

variable {r r' : Registry} {rules : Rules} {x : Inquiry Inclusion} {o o' : Inclusion} {a b : Ty}

/-! ## What is found without a memory -/

/-- What comes of an inquiry without a memory. -/
def Concludes (r : Registry) (rules : Rules) (x : Inquiry Inclusion) (o : Inclusion) : Prop :=
  (Memory.forgetful r).Finds rules () x o ()

/-- How two types relate without a memory. -/
def Relates (r : Registry) (rules : Rules) (a b : Ty) (o : Inclusion) : Prop :=
  r.Concludes rules (relate a b) o

theorem Relates.unique (h : r.Relates rules a b o) (h' : r.Relates rules a b o') : o = o' :=
  (Memory.Finds.unique h h').1

theorem Relates.andThen {next : Inclusion → Inquiry Inclusion} {p : Inclusion}
    (h : r.Relates rules a b p) (rest : r.Concludes rules (next p) o) :
    r.Concludes rules (.compare a b next) o :=
  Memory.Finds.andThen h rest

theorem relates_of_concludes (h : a.shortcut? b = none)
    (judgment : r.Concludes rules (rules a b) o) : r.Relates rules a b o :=
  .judged h rfl judgment .done

end Registry

namespace Memory

variable {σ : Type} {rules : Rules} {m : Memory σ} {r : Registry} {Q : TypeRef → Prop}
  {A : Ty → Ty → Prop} {P : σ → Prop}

/-! ## Memories that do not show -/

/-- Whether a memory resolves certain references as a registry does and, while its state has a
property, holds only what the rules give for certain pairs, of which the rules ask about no
others. -/
structure Agrees (m : Memory σ) (r : Registry) (rules : Rules) (Q : TypeRef → Prop)
    (A : Ty → Ty → Prop) (P : σ → Prop) : Prop where
  resolve : ∀ {ref s}, P s → Q ref →
    ((m.resolve ref).run s).1 = r.resolve ref ∧ P ((m.resolve ref).run s).2
  known : ∀ {a b s o}, P s → A a b → a.shortcut? b = none → m.known? a b s = some o →
    r.Relates rules a b o
  keep : ∀ {a b s o}, P s → A a b → a.shortcut? b = none → r.Relates rules a b o →
    P (m.keep a b o s)
  within : ∀ {a b}, A a b → (rules a b).Within r.resolve Q A

variable {s s' : σ} {x : Inquiry Inclusion} {o : Inclusion}

/-- What a comparison finds with a memory it finds without. -/
theorem Agrees.concludes (agrees : m.Agrees r rules Q A P) (h : m.Finds rules s x o s') (hs : P s)
    (hx : x.Within r.resolve Q A) : r.Concludes rules x o ∧ P s' := by
  induction h with
  | done => exact ⟨.done, hs⟩
  | resolve rest ih =>
    obtain ⟨same, next⟩ := agrees.resolve hs hx.1
    rw [same] at ih
    obtain ⟨concludes, last⟩ := ih next hx.2
    exact ⟨.resolve concludes, last⟩
  | settled h rest ih =>
    obtain ⟨concludes, last⟩ := ih hs (hx.2 _)
    exact ⟨.settled h concludes, last⟩
  | known h kept rest ih =>
    obtain ⟨concludes, last⟩ := ih hs (hx.2 _)
    exact ⟨(agrees.known hs hx.1 h kept).andThen concludes, last⟩
  | judged h unknown judgment rest ihj ih =>
    obtain ⟨judged, next⟩ := ihj hs (agrees.within hx.1)
    have relates := Registry.relates_of_concludes h judged
    obtain ⟨concludes, last⟩ := ih (agrees.keep next hx.1 h relates) (hx.2 _)
    exact ⟨relates.andThen concludes, last⟩

/-- What a comparison finds without a memory it finds with one. -/
theorem Agrees.exists_finds (agrees : m.Agrees r rules Q A P) {u u' : Unit}
    (h : (forgetful r).Finds rules u x o u') (hs : P s) (hx : x.Within r.resolve Q A) :
    ∃ s', m.Finds rules s x o s' ∧ P s' := by
  induction h generalizing s with
  | done => exact ⟨s, .done, hs⟩
  | resolve rest ih =>
    obtain ⟨same, next⟩ := agrees.resolve hs hx.1
    obtain ⟨s', found, last⟩ := ih next hx.2
    refine ⟨s', .resolve ?_, last⟩
    rw [same]
    exact found
  | settled h rest ih =>
    obtain ⟨s', found, last⟩ := ih hs (hx.2 _)
    exact ⟨s', .settled h found, last⟩
  | known h kept => cases kept
  | @judged u a b next p u₁ o u' h unknown judgment rest ihj ih =>
    have relates : r.Relates rules a b p := Registry.relates_of_concludes h judgment
    cases hk : m.known? a b s with
    | some q =>
      obtain rfl := relates.unique (agrees.known hs hx.1 h hk)
      obtain ⟨s', found, last⟩ := ih hs (hx.2 _)
      exact ⟨s', .known h hk found, last⟩
    | none =>
      obtain ⟨s₁, judged, next⟩ := ihj hs (agrees.within hx.1)
      obtain ⟨s', found, last⟩ := ih (agrees.keep next hx.1 h relates) (hx.2 _)
      exact ⟨s', .judged h hk judged found, last⟩

/-- A table beside a memory does not show either. -/
theorem Agrees.withTable (agrees : m.Agrees r rules Q A P) :
    m.withTable.Agrees r rules Q A fun s =>
      P s.1 ∧ ∀ a b o, s.2.find? a b = some o → r.Relates rules a b o where
  resolve h known :=
    have resolved := agrees.resolve h.1 known
    ⟨resolved.1, resolved.2, h.2⟩
  known {a b s o} h pair new kept := by
    obtain kept | ⟨-, kept⟩ := Option.or_eq_some_iff.1 kept
    · exact agrees.known h.1 pair new kept
    · exact h.2 a b o kept
  keep {a b s o} h pair new relates := by
    refine ⟨agrees.keep h.1 pair new relates, ?_⟩
    intro c d p found
    simp only [Memory.withTable] at found
    split at found
    · rw [Judgments.find?_insert] at found
      split at found
      · rename_i same
        rw [same.1, same.2]
        exact Option.some.inj found ▸ relates
      · exact h.2 c d p found
    · exact h.2 c d p found
  within := agrees.within

end Memory

namespace Registry

variable {r r' : Registry} {rules : Rules} {o : Inclusion} {a b : Ty}

/-! ## Later registrations -/

/-- How types of a registry relate they relate once more is registered, and the other way round. -/
theorem Extends.relates_iff (more : r.Extends r') (contained : r.Contained)
    (tame : Ty.AsksNoMore rules) (ha : r.Owns a) (hb : r.Owns b) :
    r'.Relates rules a b o ↔ r.Relates rules a b o := by
  have agrees : (Memory.forgetful r').Agrees r rules r.Knows (fun x y => r.Owns x ∧ r.Owns y)
      fun _ => True :=
    { resolve := fun _ known => ⟨more.resolve_of_knows known, trivial⟩
      known := fun _ _ _ kept => nomatch kept
      keep := fun _ _ _ _ => trivial
      within := fun own => tame (contained.within_judge own.1 own.2) }
  have within : (Inquiry.relate a b).Within r.resolve r.Knows fun x y => r.Owns x ∧ r.Owns y :=
    Inquiry.within_relate.2 ⟨ha, hb⟩
  constructor
  · intro h
    exact (agrees.concludes h trivial within).1
  · intro h
    obtain ⟨_, found, -⟩ := agrees.exists_finds h trivial within
    exact found

/-! ## What the registry answers -/

/-- With the rules that follow lighter pairs, types relate as the registry compares them. -/
theorem relates_judgeLighter_iff : r.Relates Ty.judgeLighter a b o ↔ o = r.compare a b := by
  have found := (Memory.forgetful r).finds_compare a b ()
  rw [((Memory.sound_forgetful r).run_compare a b () trivial).1] at found
  constructor
  · intro h
    exact h.unique found
  · rintro rfl
    exact found

/-- An inquiry comes to what its comparisons come to. -/
theorem concludes_answer {P : Ty → Ty → Prop} {oracle : Oracle} (hr : oracle.resolve = r.resolve)
    (hc : ∀ a b, P a b → r.Relates rules a b (oracle.compare a b)) {x : Inquiry Inclusion}
    (h : x.Asks oracle P) : r.Concludes rules x (x.answer oracle) := by
  induction x with
  | done o => exact .done
  | resolve ref next ih =>
    have rest := ih _ h
    rw [Inquiry.answer]
    rw [hr] at rest ⊢
    exact .resolve rest
  | compare a b next ih => exact (hc a b h.1).andThen (ih _ h.2)

/-- Types of the core registry relate as the registry compares them, even if every question is
followed. -/
theorem relates_core_iff {home : Nat} (ha : (core home).Owns a) (hb : (core home).Owns b) :
    (core home).Relates Ty.judge a b o ↔ o = (core home).compare a b := by
  have found : (core home).Relates Ty.judge a b ((core home).compare a b) := by
    induction hn : a.pairWeight b using Nat.strongRecOn generalizing a b with
    | ind n ih =>
      subst hn
      have owned := (contained_core.within_judge ha hb).asks (o := (core home).oracle)
      have left := forms_of_owns ha
      have right := forms_of_owns hb
      have lighter := left.asks_judge right (r := core home)
      rw [compare_formed left right]
      cases hs : a.shortcut? b with
      | some o => exact .settled hs .done
      | none =>
        refine relates_of_concludes hs (concludes_answer rfl ?_ (owned.and lighter))
        intro x y ⟨own, light⟩
        rw [oracle_eq]
        exact ih _ light own.1 own.2 rfl
  constructor
  · intro h
    exact h.unique found
  · rintro rfl
    exact found

end Registry

end TypedTree
