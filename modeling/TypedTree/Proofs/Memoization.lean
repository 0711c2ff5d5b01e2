import TypedTree.Proofs.Memories

/-!
# Remembered judgments do not show

A type system may remember how two of its own types relate. Whether it does so shows in no answer,
in whatever order references are resolved, types are compared and registered, and types of other
systems come in between. The invariant that says so relates all three: the outcomes that are
remembered are those of the registry, a type that counts as an own one is the type that the registry
gives for its reference, and a judgment that is remembered for two references is what the rules give
for their types without any memory. Registrations keep the last, since they change nothing about
types that are there.

Constructors that build generics of their own may lead the rules in circles. So there are two ways
to compare: as `TypeSystem.compare` computes, which leaves heavy pairs alone, and as the rules say,
which finds nothing if it does not end.

## Main definitions

* `TypeSystem.Way`: the two ways to compare.
* `TypeSystem.Remembers`: the invariant.
* `TypeSystem.Request`, `TypeSystem.session`, `TypeSystem.AnswersAll`: sessions with comparisons.
* `Registry.Admits`: the sessions whose constructors and types are proper.

## Main statements

* `TypeSystem.agrees_memory`: the memory of a type system agrees with its registry.
* `TypeSystem.memo_invisible`: remembering judgments does not show.
-/

namespace TypedTree

namespace Registry

variable {r r' : Registry} {ref x y : TypeRef} {t : Ty} {rules : Rules} {o : Inclusion}

/-- How the types of two references relate without a memory. -/
def Judges (r : Registry) (rules : Rules) (x y : TypeRef) (o : Inclusion) : Prop :=
  ∃ a b, r.resolve x = .ok a ∧ r.resolve y = .ok b ∧ r.Relates rules a b o

/-- A judgment about types that are there is right ever after. -/
theorem Judges.extends (h : r.Judges rules x y o) (more : r.Extends r') (contained : r.Contained)
    (tame : Ty.AsksNoMore rules) : r'.Judges rules x y o := by
  obtain ⟨a, b, ha, hb, relates⟩ := h
  refine ⟨a, b, more.resolve ha, more.resolve hb, ?_⟩
  exact (more.relates_iff contained tame (owns_of_resolve ha) (owns_of_resolve hb)).2 relates

/-- What resolves under a failure policy is a handle. -/
theorem handle_of_resolveBy {policy : FailurePolicy} (h : r.resolveBy policy ref = .ok t) :
    r.Handle t := by
  rw [resolveBy] at h
  cases resolved : r.resolve ref with
  | ok s =>
    rw [resolved, settle, Except.ok.injEq] at h
    exact .own (h ▸ owns_of_resolve resolved)
  | error e =>
    cases policy with
    | strict => simp [resolved, settle] at h
    | substitute =>
      simp only [resolved, settle, Except.ok.injEq] at h
      exact .standIn (h ▸ rfl)

end Registry

namespace TypeSystem

variable {s : TypeSystem} {a b t : Ty}

section Memory

variable {rules : Rules} {r : Registry} {c : Config}

/-! ## The memory of a type system -/

theorem judgments_lookupAll {refs : List TypeRef}
    (each : ∀ ref ∈ refs, ∀ s : TypeSystem, ((lookup ref).run s).2.judgments = s.judgments)
    (s : TypeSystem) : ((lookupAll refs).run s).2.judgments = s.judgments := by
  induction refs generalizing s with
  | nil => rfl
  | cons ref rest ih =>
    obtain ⟨head, tail⟩ := List.forall_mem_cons.1 each
    have first := head s
    rw [lookupAll_cons]
    generalize (lookup ref).run s = looked at first
    obtain ⟨_ | t, next⟩ := looked
    · exact first
    · have last := ih tail next
      dsimp only at first last ⊢
      generalize (lookupAll rest).run next = looked at last
      obtain ⟨_ | ts, u⟩ := looked <;> exact last.trans first

/-- A look-up leaves the judgments alone. -/
theorem judgments_lookup (ref : TypeRef) (s : TypeSystem) :
    ((lookup ref).run s).2.judgments = s.judgments := by
  induction ref using TypeRef.induct_types generalizing s with
  | primitive id => rfl
  | constructed id types values ih =>
    cases hs : s.outcome? (.constructed id types values) with
    | some outcome => rw [lookup_known hs]
    | none =>
      rw [lookup_new hs]
      cases s.registry.constructor? id with
      | none => rfl
      | some c => exact judgments_lookupAll ih s

/-- Whether a type system has a registry and settings, and remembers only what is right. -/
structure Remembers (s : TypeSystem) (rules : Rules) (r : Registry) (c : Config) : Prop where
  registry : s.registry = r
  config : s.config = c
  coherent : s.Coherent
  right : ∀ x y o, s.judgments.find? x y = some o → r.Judges rules x y o

/-- A handle that counts as an own type is one. -/
theorem Coherent.owns_of_owns (h : s.Coherent) (handle : s.registry.Handle t)
    (proper : t.isFailure = false) (own : s.owns t = true) : s.registry.Owns t := by
  refine handle.owns proper ?_
  cases ht : t.ref with
  | primitive id =>
    simp only [owns, ht, Option.any_eq_true, Ty.sameInstance, Bool.and_eq_true, beq_iff_eq] at own
    obtain ⟨p, -, home, -⟩ := own
    exact home.symm
  | constructed id types values =>
    simp only [owns, ht] at own
    split at own
    · rename_i known hk
      obtain ⟨before, after, split, -⟩ := List.lookup_eq_some_iff.1 hk
      have resolved := h.sound (.constructed id types values, .ok known) (by simp [split])
      simp only [Ty.sameInstance, Bool.and_eq_true, beq_iff_eq] at own
      exact own.1.symm.trans (Registry.home_of_owns (Registry.owns_of_resolve resolved))
    · simp at own

theorem shortcut?_eq_none (h : a.shortcut? b = none) :
    a.isFailure = false ∧ b.isFailure = false := by
  rw [Ty.shortcut?] at h
  split at h
  · simp at h
  · rename_i proper
    simpa using proper

/-- Judgments are remembered for own types only. -/
theorem Remembers.owns_of_memoizes (h : s.Remembers rules r c) (ha : r.Handle a) (hb : r.Handle b)
    (new : a.shortcut? b = none) (kept : s.memoizes a b = true) : r.Owns a ∧ r.Owns b := by
  obtain ⟨rfl, -, coherent, -⟩ := h
  simp only [memoizes, Bool.and_eq_true] at kept
  obtain ⟨left, right⟩ := shortcut?_eq_none new
  exact ⟨coherent.owns_of_owns ha left kept.1.2, coherent.owns_of_owns hb right kept.2⟩

/-- While the invariant holds, the memory of a type system does not show. -/
theorem agrees_memory (contained : r.Contained) (tame : Ty.AsksNoMore rules) :
    memory.Agrees r rules (fun _ => True) (fun a b => r.Handle a ∧ r.Handle b) fun s =>
      s.Remembers rules r c where
  resolve {ref s} h _ := by
    have looked : Looked ref s ((lookup ref).run s) := looked h.coherent
    refine ⟨h.registry ▸ looked.outcome, looked.adds.registry.trans h.registry,
      looked.adds.config.trans h.config, looked.coherent, ?_⟩
    intro x y o found
    exact h.right x y o (judgments_lookup ref s ▸ found)
  known {a b s o} h handles new kept := by
    simp only [memory] at kept
    split at kept
    · rename_i memoizes
      obtain ⟨ha, hb⟩ := h.owns_of_memoizes handles.1 handles.2 new memoizes
      obtain ⟨a', b', ha', hb', relates⟩ := h.right _ _ _ kept
      obtain rfl := Except.ok.inj (ha.symm.trans ha')
      obtain rfl := Except.ok.inj (hb.symm.trans hb')
      exact relates
    · simp at kept
  keep {a b s o} h handles new relates := by
    simp only [memory]
    split
    · rename_i memoizes
      obtain ⟨ha, hb⟩ := h.owns_of_memoizes handles.1 handles.2 new memoizes
      obtain ⟨faithful, sound, once, parts⟩ := h.coherent
      refine ⟨h.registry, h.config, ⟨faithful, sound, once, parts⟩, ?_⟩
      intro x y p found
      rw [Judgments.find?_insert] at found
      split at found
      · rename_i same
        rw [same.1, same.2, ← Option.some.inj found]
        exact ⟨a, b, ha, hb, relates⟩
      · exact h.right x y p found
    · exact h
  within handles := tame (handles.1.within_judge contained.faithful handles.2)

end Memory

/-! ## Two ways to compare -/

/-- The ways to compare two types. -/
inductive Way where
  /-- As `TypeSystem.compare` computes, which leaves heavy pairs alone. -/
  | computed
  /-- As the rules say, wherever they lead. -/
  | followed

namespace Way

/-- The rules that a way follows. -/
def rules : Way → Rules
  | .computed => Ty.judgeLighter
  | .followed => Ty.judge

theorem tame (way : Way) : Ty.AsksNoMore way.rules := by
  cases way with
  | computed => exact Ty.asksNoMore_judgeLighter
  | followed => exact Ty.asksNoMore_judge

/-- Whether two types compare in a way, and what this makes of the type system. -/
def Compares (way : Way) (s : TypeSystem) (a b : Ty) (o : Inclusion) (u : TypeSystem) : Prop :=
  match way with
  | .computed => (compare a b).run s = (o, u)
  | .followed => memory.Finds Ty.judge s (Inquiry.relate a b) o u

variable {way : Way} {r : Registry} {c : Config} {u : TypeSystem} {o : Inclusion}

/-- A comparison comes to what the rules give, and keeps the invariant. -/
theorem Compares.relates (h : way.Compares s a b o u) (contained : r.Contained)
    (remembers : s.Remembers way.rules r c) (ha : r.Handle a) (hb : r.Handle b) :
    r.Relates way.rules a b o ∧ u.Remembers way.rules r c := by
  have agrees := agrees_memory (c := c) contained way.tame
  have within : (Inquiry.relate a b).Within r.resolve (fun _ => True)
      fun x y => r.Handle x ∧ r.Handle y :=
    Inquiry.within_relate.2 ⟨ha, hb⟩
  cases way with
  | computed =>
    have found := memory.withTable.finds_compare a b (s, .empty)
    obtain ⟨rfl, rfl⟩ := Prod.mk.inj h
    obtain ⟨relates, kept, -⟩ := agrees.withTable.concludes found ⟨remembers, by simp⟩ within
    exact ⟨relates, kept⟩
  | followed => exact agrees.concludes h remembers within

/-- A comparison comes to something if the rules give something. -/
theorem exists_compares (contained : r.Contained) (remembers : s.Remembers way.rules r c)
    (ha : r.Handle a) (hb : r.Handle b) (h : r.Relates way.rules a b o) :
    ∃ u, way.Compares s a b o u := by
  cases way with
  | computed =>
    have computes : Way.computed.Compares s a b ((compare a b).run s).1 ((compare a b).run s).2 :=
      rfl
    obtain rfl := h.unique (computes.relates contained remembers ha hb).1
    exact ⟨_, computes⟩
  | followed =>
    have agrees := agrees_memory (c := c) contained Ty.asksNoMore_judge
    obtain ⟨u, found, -⟩ := agrees.exists_finds h remembers (Inquiry.within_relate.2 ⟨ha, hb⟩)
    exact ⟨u, found⟩

end Way

/-! ## Sessions with comparisons -/

/-- What can be asked of a type system, comparisons included. -/
inductive Request where
  | step (step : Step)
  | compareRefs (a b : TypeRef)
  | compareTypes (a b : Ty)

/-- The answer to a request. -/
inductive Answer where
  | reply (reply : Reply)
  | order (outcome : Except TypeError Inclusion)

/-- How the types of two references relate, or what the failure policy makes of the first reference
that does not resolve. -/
def compareRefs (a b : TypeRef) : StateM TypeSystem (Except TypeError Inclusion) := do
  match ← resolve a with
  | .error e => pure (.error e)
  | .ok x =>
    match ← resolve b with
    | .error e => pure (.error e)
    | .ok y => do
      let o ← compare x y
      pure (.ok o)

/-- One request of a session. -/
def serve (s : TypeSystem) : Request → Answer × TypeSystem
  | .step step => (.reply (s.perform step).1, (s.perform step).2)
  | .compareRefs a b => (.order ((compareRefs a b).run s).1, ((compareRefs a b).run s).2)
  | .compareTypes a b => (.order (.ok ((compare a b).run s).1), ((compare a b).run s).2)

/-- The answers of a session, and what it makes of the type system. -/
def session (s : TypeSystem) : List Request → List Answer × TypeSystem
  | [] => ([], s)
  | request :: requests =>
    ((s.serve request).1 :: ((s.serve request).2.session requests).1,
      ((s.serve request).2.session requests).2)

/-- What a request is answered, and what it makes of the type system, if types are compared in some
way. -/
inductive Answers (way : Way) (s : TypeSystem) : Request → Answer → TypeSystem → Prop
  | step {step : Step} :
    s.Answers way (.step step) (.reply (s.perform step).1) (s.perform step).2
  | leftFails {x y : TypeRef} {e : TypeError} {s₁ : TypeSystem}
    (hx : (resolve x).run s = (.error e, s₁)) :
    s.Answers way (.compareRefs x y) (.order (.error e)) s₁
  | rightFails {x y : TypeRef} {a : Ty} {e : TypeError} {s₁ s₂ : TypeSystem}
    (hx : (resolve x).run s = (.ok a, s₁)) (hy : (resolve y).run s₁ = (.error e, s₂)) :
    s.Answers way (.compareRefs x y) (.order (.error e)) s₂
  | compareRefs {x y : TypeRef} {a b : Ty} {o : Inclusion} {s₁ s₂ u : TypeSystem}
    (hx : (resolve x).run s = (.ok a, s₁)) (hy : (resolve y).run s₁ = (.ok b, s₂))
    (h : way.Compares s₂ a b o u) : s.Answers way (.compareRefs x y) (.order (.ok o)) u
  | compareTypes {a b : Ty} {o : Inclusion} {u : TypeSystem} (h : way.Compares s a b o u) :
    s.Answers way (.compareTypes a b) (.order (.ok o)) u

/-- What the requests of a session are answered, one after the other. -/
inductive AnswersAll (way : Way) : TypeSystem → List Request → List Answer → TypeSystem → Prop
  | nil {s : TypeSystem} : AnswersAll way s [] [] s
  | cons {s u w : TypeSystem} {request : Request} {answer : Answer} {requests : List Request}
    {answers : List Answer} (first : s.Answers way request answer u)
    (rest : AnswersAll way u requests answers w) :
    AnswersAll way s (request :: requests) (answer :: answers) w

variable {s' u w : TypeSystem} {request : Request} {answer : Answer} {requests later : List Request}
  {answers : List Answer} {ref : TypeRef} {step : Step}

theorem run_compareRefs {x y : TypeRef} :
    (compareRefs x y).run s =
      match (resolve x).run s with
      | (.error e, s₁) => (.error e, s₁)
      | (.ok a, s₁) =>
        match (resolve y).run s₁ with
        | (.error e, s₂) => (.error e, s₂)
        | (.ok b, s₂) => (.ok ((compare a b).run s₂).1, ((compare a b).run s₂).2) := by
  rw [compareRefs, StateT.run_bind]
  generalize (resolve x).run s = left
  obtain ⟨_ | a, s₁⟩ := left
  · rfl
  · change (resolve y >>= _).run s₁ = _
    rw [StateT.run_bind]
    dsimp only
    generalize (resolve y).run s₁ = right
    obtain ⟨_ | b, s₂⟩ := right <;> rfl

/-- The sessions that are computed. -/
theorem answers_computed_iff :
    s.Answers .computed request answer u ↔ s.serve request = (answer, u) := by
  constructor
  · intro h
    cases h with
    | step => rfl
    | leftFails hx => simp [TypeSystem.serve, run_compareRefs, hx]
    | rightFails hx hy => simp [TypeSystem.serve, run_compareRefs, hx, hy]
    | compareRefs hx hy h =>
      have run : (compare _ _).run _ = _ := h
      simp [TypeSystem.serve, run_compareRefs, hx, hy, run]
    | compareTypes h =>
      have run : (compare _ _).run _ = _ := h
      simp [TypeSystem.serve, run]
  · intro h
    obtain ⟨rfl, rfl⟩ := Prod.mk.inj h
    cases request with
    | step step => exact .step
    | compareTypes a b => exact .compareTypes rfl
    | compareRefs x y =>
      rcases hx : (resolve x).run s with ⟨_ | a, s₁⟩
      · simp only [run_compareRefs, hx]
        exact .leftFails hx
      · rcases hy : (resolve y).run s₁ with ⟨_ | b, s₂⟩
        · simp only [run_compareRefs, hx, hy]
          exact .rightFails hx hy
        · simp only [run_compareRefs, hx, hy]
          exact .compareRefs hx hy rfl

theorem answersAll_computed_iff :
    s.AnswersAll .computed requests answers w ↔ s.session requests = (answers, w) := by
  constructor
  · intro h
    induction h with
    | nil => rfl
    | cons first rest ih => simp [session, answers_computed_iff.1 first, ih]
  · intro h
    induction requests generalizing s answers with
    | nil =>
      obtain ⟨rfl, rfl⟩ := Prod.mk.inj h
      exact .nil
    | cons request requests ih =>
      obtain ⟨rfl, rfl⟩ := Prod.mk.inj h
      exact .cons (answers_computed_iff.2 rfl) (ih rfl)

namespace Step

/-- Whether a constructor that a step registers builds kinds only from what it is handed. -/
def Contained : Step → Prop
  | .registerConstructor c => c.Contained
  | _ => True

theorem Contained.faithful (h : step.Contained) : step.Faithful := by
  cases step with
  | registerConstructor c => exact Constructor.Contained.faithful h
  | _ => trivial

end Step

/-- Whether a request registers only constructors that keep to what they are handed, and compares
only handles. -/
def Request.Allowed (r : Registry) : Request → Prop
  | .step step => step.Contained
  | .compareRefs _ _ => True
  | .compareTypes a b => r.Handle a ∧ r.Handle b

end TypeSystem

namespace Registry

open TypeSystem (Request)

variable {r : Registry} {request : Request} {requests later : List Request}

/-- What a registry is after a request. -/
def after (r : Registry) : Request → Registry
  | .step (.registerPrimitive p) => (r.addPrimitive p).toOption.getD r
  | .step (.registerConstructor c) => (r.addConstructor c).toOption.getD r
  | _ => r

/-- What a registry is after a session. -/
def afterAll (r : Registry) (requests : List Request) : Registry :=
  requests.foldl after r

/-- Whether all requests of a session are allowed when they come. -/
def Admits (r : Registry) : List Request → Prop
  | [] => True
  | request :: requests => request.Allowed r ∧ (r.after request).Admits requests

theorem admits_append :
    r.Admits (requests ++ later) ↔ r.Admits requests ∧ (r.afterAll requests).Admits later := by
  induction requests generalizing r with
  | nil => exact (and_iff_right trivial).symm
  | cons request requests ih => exact (and_congr_right fun _ => ih).trans and_assoc.symm

theorem extends_after : r.Extends (r.after request) := by
  unfold after
  split
  · rename_i p
    cases added : r.addPrimitive p with
    | error e => exact .refl r
    | ok r' => exact (extends_addPrimitive added).1
  · rename_i c
    cases added : r.addConstructor c with
    | error e => exact .refl r
    | ok r' => exact (extends_addConstructor added).1
  · exact .refl r

theorem Contained.after (h : r.Contained) (allowed : request.Allowed r) :
    (r.after request).Contained := by
  unfold Registry.after
  split
  · rename_i p
    cases added : r.addPrimitive p with
    | error e => exact h
    | ok r' =>
      intro c hc
      exact h c ((extends_addPrimitive added).2 ▸ hc)
  · rename_i c
    cases added : r.addConstructor c with
    | error e => exact h
    | ok r' =>
      intro d hd
      obtain hd | hd := List.mem_append.1 ((extends_addConstructor added).2 ▸ hd)
      · exact h d hd
      · exact List.mem_singleton.1 hd ▸ allowed
  · exact h

theorem extends_afterAll : r.Extends (r.afterAll requests) := by
  induction requests generalizing r with
  | nil => exact .refl r
  | cons request requests ih => exact extends_after.trans ih

theorem Contained.afterAll (h : r.Contained) (admitted : r.Admits requests) :
    (r.afterAll requests).Contained := by
  induction requests generalizing r with
  | nil => exact h
  | cons request requests ih => exact ih (h.after admitted.1) admitted.2

end Registry

namespace TypeSystem

variable {s s' u w : TypeSystem} {request : Request} {answer : Answer}
  {requests earlier later : List Request} {answers : List Answer} {ref : TypeRef} {step : Step}
  {rules : Rules} {r : Registry} {c c' : Config} {way : Way}

/-! ## What a request does -/

theorem Remembers.resolve (h : s.Remembers rules r c) (contained : r.Contained)
    (tame : Ty.AsksNoMore rules) (ref : TypeRef) :
    ∃ u, (resolve ref).run s = (r.resolveBy c.policy ref, u) ∧ u.Remembers rules r c := by
  have agrees := agrees_memory (c := c) contained tame
  obtain ⟨outcome, next⟩ : ((memory.resolve ref).run s).1 = r.resolve ref ∧
      ((memory.resolve ref).run s).2.Remembers rules r c := agrees.resolve h trivial
  refine ⟨_, ?_, next⟩
  have registry := next.registry
  have config := next.config
  simp only [memory] at outcome registry config
  rw [run_resolve, outcome, registry, config]
  rfl

theorem registry_perform_eq (h : s.Coherent) :
    (s.perform step).2.registry = s.registry.after (.step step) := by
  cases step with
  | resolve | resolveStrict | getOrConstruct => exact registry_perform h rfl
  | registerPrimitive p =>
    simp only [perform, addPrimitive, Registry.after]
    cases s.registry.addPrimitive p <;> rfl
  | registerConstructor c =>
    simp only [perform, addConstructor, Registry.after]
    cases s.registry.addConstructor c <;> rfl

theorem judgments_perform : (s.perform step).2.judgments = s.judgments := by
  cases step with
  | resolve ref | resolveStrict ref => exact judgments_lookup ref s
  | getOrConstruct id types values => exact judgments_lookup (.constructed id types values) s
  | registerPrimitive p =>
    simp only [perform, addPrimitive]
    cases s.registry.addPrimitive p <;> rfl
  | registerConstructor c =>
    simp only [perform, addConstructor]
    cases s.registry.addConstructor c <;> rfl

/-- A registration leaves the judgments right. -/
theorem Remembers.perform (h : s.Remembers rules r c) (contained : r.Contained)
    (tame : Ty.AsksNoMore rules) (contract : step.Contained) :
    (s.perform step).2.Remembers rules (r.after (.step step)) c := by
  obtain ⟨next, grows⟩ := coherent_perform h.coherent contract.faithful
  refine ⟨h.registry ▸ registry_perform_eq h.coherent, grows.config.trans h.config, next, ?_⟩
  intro x y o found
  rw [judgments_perform] at found
  exact (h.right x y o found).extends Registry.extends_after contained tame

theorem Remembers.of_resolve (h : s.Remembers rules r c) (contained : r.Contained)
    (tame : Ty.AsksNoMore rules) {outcome : Except TypeError Ty}
    (run : (TypeSystem.resolve ref).run s = (outcome, u)) :
    outcome = r.resolveBy c.policy ref ∧ u.Remembers rules r c := by
  obtain ⟨u', run', next⟩ := h.resolve contained tame ref
  obtain ⟨rfl, rfl⟩ := Prod.mk.inj (run.symm.trans run')
  exact ⟨rfl, next⟩

/-- What a request leaves is right if it was so before. -/
theorem Answers.remembers (h : s.Answers way request answer u) (contained : r.Contained)
    (allowed : request.Allowed r) (hs : s.Remembers way.rules r c) :
    u.Remembers way.rules (r.after request) c := by
  cases h with
  | step => exact hs.perform contained way.tame allowed
  | leftFails hx => exact (hs.of_resolve contained way.tame hx).2
  | rightFails hx hy =>
    exact ((hs.of_resolve contained way.tame hx).2.of_resolve contained way.tame hy).2
  | compareRefs hx hy h =>
    obtain ⟨left, next⟩ := hs.of_resolve contained way.tame hx
    obtain ⟨right, last⟩ := next.of_resolve contained way.tame hy
    exact (h.relates contained last (Registry.handle_of_resolveBy left.symm)
      (Registry.handle_of_resolveBy right.symm)).2
  | compareTypes h => exact (h.relates contained hs allowed.1 allowed.2).2

/-- Two type systems with the same registry and failure policy resolve a reference to the same. -/
theorem Remembers.exists_resolve (hs : s.Remembers rules r c) (hs' : s'.Remembers rules r c')
    (contained : r.Contained) (tame : Ty.AsksNoMore rules) (policy : c.policy = c'.policy)
    {outcome : Except TypeError Ty} (run : (TypeSystem.resolve ref).run s = (outcome, u)) :
    ∃ u', (TypeSystem.resolve ref).run s' = (outcome, u') ∧ u'.Remembers rules r c' := by
  rw [(hs.of_resolve contained tame run).1, policy]
  exact hs'.resolve contained tame ref

/-- What one type system answers to a request, another one answers too if it has the same registry
and failure policy and both remember only what is right. -/
theorem Answers.exists_answers (h : s.Answers way request answer u) (contained : r.Contained)
    (allowed : request.Allowed r) (policy : c.policy = c'.policy) (hs : s.Remembers way.rules r c)
    (hs' : s'.Remembers way.rules r c') : ∃ u', s'.Answers way request answer u' := by
  cases h with
  | @step step =>
    have registry : s.registry = s'.registry := hs.registry.trans hs'.registry.symm
    have policies : s.config.policy = s'.config.policy := by rw [hs.config, hs'.config, policy]
    rw [(perform_congr hs.coherent hs'.coherent registry policies).1]
    exact ⟨_, .step⟩
  | leftFails hx =>
    obtain ⟨s₁', hx', -⟩ := hs.exists_resolve hs' contained way.tame policy hx
    exact ⟨s₁', .leftFails hx'⟩
  | rightFails hx hy =>
    obtain ⟨s₁', hx', hs₁'⟩ := hs.exists_resolve hs' contained way.tame policy hx
    have hs₁ := (hs.of_resolve contained way.tame hx).2
    obtain ⟨s₂', hy', -⟩ := hs₁.exists_resolve hs₁' contained way.tame policy hy
    exact ⟨s₂', .rightFails hx' hy'⟩
  | compareRefs hx hy h =>
    obtain ⟨s₁', hx', hs₁'⟩ := hs.exists_resolve hs' contained way.tame policy hx
    obtain ⟨left, hs₁⟩ := hs.of_resolve contained way.tame hx
    obtain ⟨s₂', hy', hs₂'⟩ := hs₁.exists_resolve hs₁' contained way.tame policy hy
    obtain ⟨right, hs₂⟩ := hs₁.of_resolve contained way.tame hy
    have ha := Registry.handle_of_resolveBy left.symm
    have hb := Registry.handle_of_resolveBy right.symm
    have relates := (h.relates contained hs₂ ha hb).1
    obtain ⟨u', h'⟩ := Way.exists_compares contained hs₂' ha hb relates
    exact ⟨u', .compareRefs hx' hy' h'⟩
  | compareTypes h =>
    obtain ⟨ha, hb⟩ := allowed
    have relates := (h.relates contained hs ha hb).1
    obtain ⟨u', h'⟩ := Way.exists_compares contained hs' ha hb relates
    exact ⟨u', .compareTypes h'⟩

/-! ## Sessions -/

theorem AnswersAll.remembers (h : s.AnswersAll way requests answers w) (contained : r.Contained)
    (admitted : r.Admits requests) (hs : s.Remembers way.rules r c) :
    w.Remembers way.rules (r.afterAll requests) c := by
  induction h generalizing r with
  | nil => exact hs
  | cons first rest ih =>
    obtain ⟨allowed, admitted⟩ := admitted
    exact ih (contained.after allowed) admitted (first.remembers contained allowed hs)

/-- What one type system answers in a session, another one answers too. -/
theorem AnswersAll.exists_answersAll (h : s.AnswersAll way requests answers w)
    (contained : r.Contained) (admitted : r.Admits requests) (policy : c.policy = c'.policy)
    (hs : s.Remembers way.rules r c) (hs' : s'.Remembers way.rules r c') :
    ∃ w', s'.AnswersAll way requests answers w' := by
  induction h generalizing r s' with
  | nil => exact ⟨s', .nil⟩
  | cons first rest ih =>
    obtain ⟨allowed, admitted⟩ := admitted
    obtain ⟨u', first'⟩ := first.exists_answers contained allowed policy hs hs'
    have hu := first.remembers contained allowed hs
    have hu' := first'.remembers contained allowed hs'
    obtain ⟨w', rest'⟩ := ih (contained.after allowed) admitted hu hu'
    exact ⟨w', .cons first' rest'⟩

theorem remembers_ofRegistry (contained : r.Contained) : (ofRegistry c r).Remembers rules r c :=
  ⟨rfl, rfl, coherent_ofRegistry contained.faithful, by simp [ofRegistry]⟩

/-- Judgments that are remembered do not show. In a session that interleaves registrations,
resolutions and comparisons, of references or of types of this and other type systems, a type system
that remembers judgments answers as one that does not. So it does if the rules are followed wherever
they lead: both answer or neither does. A judgment that is remembered at some moment is what the
rules give without any memory, then and at the end of the session. -/
theorem memo_invisible {config : Config} {registry : Registry} {requests : List Request}
    (contained : registry.Contained) (admitted : registry.Admits requests) :
    let on := ofRegistry { config with memoize := true } registry
    let off := ofRegistry { config with memoize := false } registry
    (on.session requests).1 = (off.session requests).1 ∧
      ∀ way : Way,
        (∀ answers, (∃ w, on.AnswersAll way requests answers w) ↔
          ∃ w, off.AnswersAll way requests answers w) ∧
        ∀ earlier later, requests = earlier ++ later →
          ∀ given u, on.AnswersAll way earlier given u →
            ∀ x y o, u.judgments.find? x y = some o →
              u.registry.Judges way.rules x y o ∧
                ∀ given' w, u.AnswersAll way later given' w →
                  w.registry.Judges way.rules x y o := by
  intro on off
  have hon (rules : Rules) : on.Remembers rules registry { config with memoize := true } :=
    remembers_ofRegistry contained
  have hoff (rules : Rules) : off.Remembers rules registry { config with memoize := false } :=
    remembers_ofRegistry contained
  have same (way : Way) (answers : List Answer) : (∃ w, on.AnswersAll way requests answers w) ↔
      ∃ w, off.AnswersAll way requests answers w := by
    constructor
    · rintro ⟨w, h⟩
      exact h.exists_answersAll contained admitted (by rfl) (hon way.rules) (hoff way.rules)
    · rintro ⟨w, h⟩
      exact h.exists_answersAll contained admitted (by rfl) (hoff way.rules) (hon way.rules)
  refine ⟨?_, fun way => ⟨same way, ?_⟩⟩
  · have computed : on.AnswersAll .computed requests (on.session requests).1
        (on.session requests).2 := answersAll_computed_iff.2 rfl
    obtain ⟨w, computed'⟩ := (same .computed _).1 ⟨_, computed⟩
    rw [answersAll_computed_iff.1 computed']
  · rintro earlier later rfl given u h x y o found
    obtain ⟨before, rest⟩ := Registry.admits_append.1 admitted
    have hu := h.remembers contained before (hon way.rules)
    have judges := hu.right x y o found
    rw [hu.registry]
    refine ⟨judges, ?_⟩
    intro given' w h'
    have contained' := contained.afterAll before
    rw [(h'.remembers contained' rest hu).registry]
    exact judges.extends Registry.extends_afterAll contained' way.tame

/-- A session with a pair that fails at first, a constructor that makes it resolve, and a type of
another type system. -/
theorem memo_invisible_flag :
    ∃ list range, (Registry.core 1).resolve (.list .int) = .ok list ∧
      (Registry.core 0).resolve (.list (.intRange 0 3)) = .ok range ∧
        let pair : TypeRef := .tuple [.constructed flag.id [] [], .list .int]
        let other : TypeRef := .tuple [.bool, .list (.intRange 0 3)]
        let requests : List Request := [.compareRefs pair other, .compareTypes list range,
          .step (.registerConstructor flag), .compareRefs pair other, .compareTypes range list,
          .compareRefs pair other]
        (Registry.core 0).Contained ∧ (Registry.core 0).Admits requests ∧
          ((ofRegistry ⟨.strict, true⟩ (.core 0)).session requests).1 =
            ((ofRegistry ⟨.strict, false⟩ (.core 0)).session requests).1 := by
  obtain ⟨list, hl⟩ : ∃ list, (Registry.core 1).resolve (.list .int) = .ok list := ⟨_, rfl⟩
  obtain ⟨range, hr⟩ : ∃ range, (Registry.core 0).resolve (.list (.intRange 0 3)) = .ok range :=
    ⟨_, rfl⟩
  refine ⟨list, range, hl, hr, ?_⟩
  intro pair other requests
  have contained : (Registry.core 0).Contained := Registry.contained_core
  have flagged : flag.Contained := by
    constructor
    · rintro args kind - - ⟨⟩
      simp [Kind.parts]
    · rintro args kind - - ⟨⟩
      simp [Kind.refs]
  have foreign : (Registry.core 0).Handle list :=
    .foreign (.core 1) Registry.faithful_core (by decide) (Registry.owns_of_resolve hl)
  have own : (Registry.core 0).Handle range := .own (Registry.owns_of_resolve hr)
  have more : (Registry.core 0).Extends
      ((Registry.core 0).after (.step (.registerConstructor flag))) := Registry.extends_after
  have admitted : (Registry.core 0).Admits requests :=
    ⟨trivial, ⟨foreign, own⟩, flagged, trivial, ⟨own.extends more, foreign.extends more⟩, trivial,
      trivial⟩
  have invisible := @memo_invisible ⟨.strict, true⟩ (.core 0) requests contained admitted
  exact ⟨contained, admitted, invisible.1⟩

end TypeSystem

end TypedTree
