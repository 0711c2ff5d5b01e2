import TypedTree.Proofs.CoreKinds
import TypedTree.Proofs.Lookup

/-!
# Sessions with a type system

A session interleaves the resolution of references with registrations. Its order does not show in any
answer: a type system answers as one that has seen the same registrations and nothing else. A type
that it has handed out it hands out ever after, and the same is true for the parts of the type.

## Main definitions

* `TypeSystem.Step`, `TypeSystem.perform`, `TypeSystem.run`: sessions.
* `TypeSystem.address?`: which of the types made so far is the one for a reference.

## Main statements

* `TypeSystem.coherent_run`: the memory is coherent at every moment.
* `TypeSystem.session_spec`: what a session cannot change.
-/

namespace TypedTree

namespace Registry

theorem faithful_core {home : Nat} : (core home).Faithful := by
  intro c hc args kind names arity built
  obtain ⟨word, made, -⟩ := Core.built_of_mem_constructors hc names arity built
  intro p hp
  exact made.parts ▸ hp

end Registry

namespace TypeSystem

/-- What can be asked of a type system in a session. -/
inductive Step where
  | resolve (ref : TypeRef)
  | resolveStrict (ref : TypeRef)
  | getOrConstruct (id : GlobalId) (types : List TypeRef) (values : List Value)
  | registerPrimitive (p : Primitive)
  | registerConstructor (c : Constructor)

/-- The answer to a step. -/
inductive Reply where
  | type (outcome : Except TypeError Ty)
  | registration (outcome : Except TypeError Unit)

namespace Step

/-- Whether a step is a registration. -/
def isRegistration : Step → Bool
  | .registerPrimitive _ | .registerConstructor _ => true
  | _ => false

/-- Whether a constructor that a step registers makes kinds of what it is given. -/
def Faithful : Step → Prop
  | .registerConstructor c => c.Faithful
  | _ => True

end Step

/-- What a registration does; a refused one leaves the type system alone. -/
def register (s : TypeSystem) : Except TypeError TypeSystem → Reply × TypeSystem
  | .ok s' => (.registration (.ok ()), s')
  | .error e => (.registration (.error e), s)

/-- What a resolution answers. -/
def answered (result : Except TypeError Ty × TypeSystem) : Reply × TypeSystem :=
  (.type result.1, result.2)

/-- One step of a session. -/
def perform (s : TypeSystem) : Step → Reply × TypeSystem
  | .resolve ref => answered ((resolve ref).run s)
  | .resolveStrict ref => answered ((lookup ref).run s)
  | .getOrConstruct id types values => answered ((resolve (.constructed id types values)).run s)
  | .registerPrimitive p => s.register (s.addPrimitive p)
  | .registerConstructor c => s.register (s.addConstructor c)

/-- What a session makes of a type system. -/
def run (s : TypeSystem) (steps : List Step) : TypeSystem :=
  steps.foldl (fun s step => (s.perform step).2) s

/-- The number of the type for a reference, counting the registered primitives or the types that were
built, in the order in which they came. It stands for the place of the type in memory. -/
def address? (s : TypeSystem) : TypeRef → Option Nat
  | .primitive id => s.registry.primitives.findIdx? (·.info.id == id)
  | ref => s.builtTypes.reverse.findIdx? (·.ref == ref)

/-- Whether a type system hands out a type, kept under a number, and does nothing else. -/
structure HandsOut (s : TypeSystem) (t : Ty) (n : Nat) : Prop where
  resolve : s.perform (.resolve t.ref) = (.type (.ok t), s)
  resolveStrict : s.perform (.resolveStrict t.ref) = (.type (.ok t), s)
  address : s.address? t.ref = some n

variable {s s' : TypeSystem} {ref : TypeRef} {t : Ty} {step : Step} {steps : List Step}

/-! ## Steps -/

theorem run_resolve : (resolve ref).run s =
    (((lookup ref).run s).2.registry.settle ((lookup ref).run s).2.config.policy ref
      ((lookup ref).run s).1, ((lookup ref).run s).2) := rfl

theorem builtTypes_forgetErrors : s.forgetErrors.builtTypes = s.builtTypes := by
  rw [builtTypes, builtTypes, forgetErrors, List.filterMap_filter]
  refine List.filterMap_congr ?_
  intro known _
  cases known.2 <;> rfl

/-- A registration extends the registry and forgets the errors. -/
theorem coherent_extend {r : Registry} (h : s.Coherent) (more : s.registry.Extends r)
    (faithful : r.Faithful) : ({ s with registry := r } : TypeSystem).forgetErrors.Coherent ∧
      s.Grows ({ s with registry := r } : TypeSystem).forgetErrors := by
  have built : ({ s with registry := r } : TypeSystem).forgetErrors.builtTypes = s.builtTypes :=
    builtTypes_forgetErrors
  have grows : s.Grows ({ s with registry := r } : TypeSystem).forgetErrors :=
    ⟨rfl, more, built ▸ List.suffix_rfl⟩
  refine ⟨⟨faithful, ?_, ?_, ?_⟩, grows⟩
  · intro known hk
    obtain ⟨hk, ok⟩ := List.mem_filter.1 hk
    have right := h.sound known hk
    obtain ⟨ref, _ | t⟩ := known
    · simp [Except.isOk, Except.toBool] at ok
    · exact more.resolve right
  · exact h.once.sublist (List.filter_sublist.map _)
  · intro t ht p hp
    exact grows.keeps (h.parts t (built ▸ ht) p hp)

theorem coherent_perform (h : s.Coherent) (contract : step.Faithful) :
    (s.perform step).2.Coherent ∧ s.Grows (s.perform step).2 := by
  have look (ref : TypeRef) : ((lookup ref).run s).2.Coherent ∧ s.Grows ((lookup ref).run s).2 :=
    ⟨(looked h).coherent, (looked h).adds.grows⟩
  cases step with
  | resolve ref => exact look ref
  | resolveStrict ref => exact look ref
  | getOrConstruct id types values => exact look (.constructed id types values)
  | registerPrimitive p =>
    simp only [perform, addPrimitive]
    cases hr : s.registry.addPrimitive p with
    | error e => exact ⟨h, .refl s⟩
    | ok r =>
      obtain ⟨more, same⟩ := Registry.extends_addPrimitive hr
      exact coherent_extend h more fun c hc => h.faithful c (same ▸ hc)
  | registerConstructor c =>
    simp only [perform, addConstructor]
    cases hr : s.registry.addConstructor c with
    | error e => exact ⟨h, .refl s⟩
    | ok r =>
      obtain ⟨more, same⟩ := Registry.extends_addConstructor hr
      refine coherent_extend h more ?_
      intro d hd
      obtain hd | hd := List.mem_append.1 (same ▸ hd)
      · exact h.faithful d hd
      · exact List.mem_singleton.1 hd ▸ contract

/-- The memory is coherent at every moment of a session. -/
theorem coherent_run (h : s.Coherent) (contracts : ∀ step ∈ steps, step.Faithful) :
    (s.run steps).Coherent ∧ s.Grows (s.run steps) := by
  induction steps generalizing s with
  | nil => exact ⟨h, .refl s⟩
  | cons step steps ih =>
    obtain ⟨contract, contracts⟩ := List.forall_mem_cons.1 contracts
    obtain ⟨next, grows⟩ := coherent_perform h contract
    obtain ⟨last, grows'⟩ := ih next contracts
    exact ⟨last, grows.trans grows'⟩

theorem coherent_ofRegistry {config : Config} {registry : Registry} (h : registry.Faithful) :
    (ofRegistry config registry).Coherent :=
  ⟨h, by simp [ofRegistry], .nil, by simp [ofRegistry, builtTypes]⟩

/-! ## What does not show -/

/-- Answers depend on the registry and the failure policy only. -/
theorem perform_congr (h : s.Coherent) (h' : s'.Coherent) (registry : s.registry = s'.registry)
    (policy : s.config.policy = s'.config.policy) : (s.perform step).1 = (s'.perform step).1 ∧
      (s.perform step).2.registry = (s'.perform step).2.registry := by
  have look (ref : TypeRef) : ((lookup ref).run s).1 = ((lookup ref).run s').1 := by
    rw [(looked h).outcome, (looked h').outcome, registry]
  have keep (ref : TypeRef) :
      ((lookup ref).run s).2.registry = ((lookup ref).run s').2.registry := by
    rw [(looked h).adds.registry, (looked h').adds.registry, registry]
  have settled (ref : TypeRef) : ((resolve ref).run s).1 = ((resolve ref).run s').1 := by
    simp only [run_resolve, look, keep, (looked h).adds.config, (looked h').adds.config, policy]
  cases step with
  | resolve ref => exact ⟨congrArg Reply.type (settled ref), keep ref⟩
  | resolveStrict ref => exact ⟨congrArg Reply.type (look ref), keep ref⟩
  | getOrConstruct id types values => exact ⟨congrArg Reply.type (settled _), keep (.constructed id types values)⟩
  | registerPrimitive p =>
    simp only [perform, addPrimitive, registry]
    cases s'.registry.addPrimitive p with
    | error e => exact ⟨rfl, registry⟩
    | ok r => exact ⟨rfl, rfl⟩
  | registerConstructor c =>
    simp only [perform, addConstructor, registry]
    cases s'.registry.addConstructor c with
    | error e => exact ⟨rfl, registry⟩
    | ok r => exact ⟨rfl, rfl⟩

theorem registry_perform (h : s.Coherent) (resolution : step.isRegistration = false) :
    (s.perform step).2.registry = s.registry := by
  have look (ref : TypeRef) : ((lookup ref).run s).2.registry = s.registry :=
    (looked h).adds.registry
  cases step with
  | resolve ref => exact look ref
  | resolveStrict ref => exact look ref
  | getOrConstruct id types values => exact look (.constructed id types values)
  | registerPrimitive | registerConstructor => simp [Step.isRegistration] at resolution

/-- A registration remembers nothing. -/
theorem outcomes_perform (empty : s.outcomes = []) (registration : step.isRegistration = true) :
    (s.perform step).2.outcomes = [] := by
  cases step with
  | resolve | resolveStrict | getOrConstruct => simp [Step.isRegistration] at registration
  | registerPrimitive p =>
    simp only [perform, addPrimitive]
    cases s.registry.addPrimitive p with
    | error e => exact empty
    | ok r => simp [register, forgetErrors, empty]
  | registerConstructor c =>
    simp only [perform, addConstructor]
    cases s.registry.addConstructor c with
    | error e => exact empty
    | ok r => simp [register, forgetErrors, empty]

/-- A session leaves the registry that its registrations alone would leave. -/
theorem registry_run (h : s.Coherent) (h' : s'.Coherent) (registry : s.registry = s'.registry)
    (config : s.config = s'.config) (empty : s'.outcomes = [])
    (contracts : ∀ step ∈ steps, step.Faithful) :
    (s.run steps).registry = (s'.run (steps.filter Step.isRegistration)).registry ∧
      (s'.run (steps.filter Step.isRegistration)).outcomes = [] := by
  induction steps generalizing s s' with
  | nil => exact ⟨registry, empty⟩
  | cons step steps ih =>
    obtain ⟨contract, contracts⟩ := List.forall_mem_cons.1 contracts
    obtain ⟨next, grows⟩ := coherent_perform h contract
    cases kind : step.isRegistration with
    | false =>
      rw [List.filter_cons_of_neg (by simp [kind])]
      exact ih next h' ((registry_perform h kind).trans registry) (grows.config.trans config) empty
        contracts
    | true =>
      rw [List.filter_cons_of_pos kind]
      obtain ⟨next', grows'⟩ := coherent_perform h' contract
      refine ih next next' (perform_congr h h' registry (congrArg Config.policy config)).2
        (grows.config.trans (config.trans grows'.config.symm)) ?_ contracts
      exact outcomes_perform empty kind

/-! ## What is handed out -/

theorem Grows.address? (h : s.Grows s') {n : Nat} (hn : s.address? ref = some n) :
    s'.address? ref = some n := by
  cases ref with
  | primitive id => exact h.registry.primitives.findIdx?_eq_some hn
  | constructed id types values => exact (List.reverse_prefix.2 h.built).findIdx?_eq_some hn

theorem Coherent.resolve_of_keeps (h : s.Coherent) (kept : s.Keeps t) :
    s.registry.resolve t.ref = .ok t :=
  kept.elim (fun built => h.sound _ (h.mem_of_mem_builtTypes built)) And.right

/-- What is kept is handed out. -/
theorem Coherent.handsOut (h : s.Coherent) (kept : s.Keeps t) : ∃ n, s.HandsOut t n := by
  have found := lookup_kept h kept
  have resolved : (resolve t.ref).run s = (.ok t, s) := by
    rw [run_resolve, found]
    rfl
  have numbered : (s.address? t.ref).isSome := by
    have own := h.resolve_of_keeps kept
    cases hr : t.ref with
    | primitive id =>
      rw [hr] at own
      obtain ⟨p, hp, -⟩ := Registry.resolve_primitive_eq_ok.1 own
      rw [address?, List.findIdx?_isSome, List.any_eq_true]
      exact ⟨p, List.mem_of_find?_eq_some hp, by simp [Registry.id_of_primitive? hp]⟩
    | constructed id types values =>
      obtain built | ⟨primitive, -⟩ := kept
      · rw [address?, List.findIdx?_isSome, List.any_eq_true]
        · exact ⟨t, List.mem_reverse.2 built, by simp [hr]⟩
        · simp
      · simp [hr, TypeRef.isPrimitive] at primitive
  obtain ⟨n, hn⟩ := Option.isSome_iff_exists.1 numbered
  exact ⟨n, congrArg answered resolved, congrArg answered found, hn⟩

/-- What is kept is handed out under one number ever after. -/
theorem Coherent.exists_handsOut (h : s.Coherent) (kept : s.Keeps t) :
    ∃ n, ∀ later : List Step, (∀ step ∈ later, step.Faithful) → (s.run later).HandsOut t n := by
  obtain ⟨n, now⟩ := h.handsOut kept
  refine ⟨n, ?_⟩
  intro later contracts
  obtain ⟨last, grows⟩ := coherent_run h contracts
  obtain ⟨n', then_⟩ := last.handsOut (grows.keeps kept)
  exact ⟨then_.resolve, then_.resolveStrict, grows.address? now.address⟩

theorem refs_sublist {r : Registry} {known : List (TypeRef × Except TypeError Ty)}
    (sound : ∀ k ∈ known, r.resolve k.1 = k.2) :
    ((known.filterMap fun k => k.2.toOption).map (·.ref)).Sublist (known.map (·.1)) := by
  induction known with
  | nil => exact .slnil
  | cons k known ih =>
    obtain ⟨right, rest⟩ := List.forall_mem_cons.1 sound
    obtain ⟨ref, _ | t⟩ := k
    · exact (ih rest).cons ref
    · obtain rfl := Registry.ref_of_resolve right
      exact (ih rest).cons_cons t.ref

/-- No reference is built twice. -/
theorem Coherent.builtTypes_nodup (h : s.Coherent) : (s.builtTypes.map (·.ref)).Nodup :=
  h.once.sublist (refs_sublist h.sound)

/-- A registration is refused because the name is taken, and changes nothing then. -/
theorem perform_eq_refused {e : TypeError} (h : s.perform step = (.registration (.error e), s')) :
    (∃ id, s.registry.isTaken id = true ∧ e = .duplicateRegistration id) ∧ s' = s := by
  cases step with
  | resolve | resolveStrict | getOrConstruct => simp [perform, answered] at h
  | registerPrimitive p =>
    by_cases taken : s.registry.isTaken p.info.id = true
    · have refused : s.addPrimitive p = .error (.duplicateRegistration p.info.id) := by
        simp [addPrimitive, Registry.addPrimitive, taken, Outcome.error_bind]
      simp only [perform, refused, register, Prod.mk.injEq, Reply.registration.injEq,
        Except.error.injEq] at h
      exact ⟨⟨_, taken, h.1.symm⟩, h.2.symm⟩
    · simp [perform, addPrimitive, Registry.addPrimitive, taken, register] at h
  | registerConstructor c =>
    by_cases taken : s.registry.isTaken c.id = true
    · have refused : s.addConstructor c = .error (.duplicateRegistration c.id) := by
        simp [addConstructor, Registry.addConstructor, taken, Outcome.error_bind]
      simp only [perform, refused, register, Prod.mk.injEq, Reply.registration.injEq,
        Except.error.injEq] at h
      exact ⟨⟨_, taken, h.1.symm⟩, h.2.symm⟩
    · simp [perform, addConstructor, Registry.addConstructor, taken, register] at h

theorem Coherent.keeps_part (h : s.Coherent) (kept : s.Keeps t) {p : Ty}
    (hp : p ∈ t.kind.parts) : s.Keeps p := by
  obtain built | ⟨primitive, resolved⟩ := kept
  · exact h.parts t built p hp
  · cases hr : t.ref with
    | primitive id =>
      rw [hr] at resolved
      obtain ⟨q, -, rfl⟩ := Registry.resolve_primitive_eq_ok.1 resolved
      simp only [Registry.primitiveType, Kind.parts_mapParts, List.mem_map] at hp
      obtain ⟨e, -⟩ := hp
      exact e.elim
    | constructed id types values => simp [hr, TypeRef.isPrimitive] at primitive

/-! ## Sessions -/

/-- After any session a type system answers every step as one does that has seen the same
registrations and remembers nothing. A type that it hands out for a reference, and every part of
the type, it keeps under one number and hands out ever after, whatever happens later; no reference
is built twice. A registration that is refused changes nothing. -/
theorem session_spec {config : Config} {registry : Registry} (faithful : registry.Faithful)
    (contracts : ∀ step ∈ steps, step.Faithful) :
    let s := (ofRegistry config registry).run steps
    let fresh := (ofRegistry config registry).run (steps.filter Step.isRegistration)
    (fresh.registry = s.registry ∧ fresh.outcomes = []) ∧
      (∀ step, (s.perform step).1 = (fresh.perform step).1) ∧
      (∀ ref t u, s.perform (.resolveStrict ref) = (.type (.ok t), u) →
        t.ref = ref ∧ ∀ p, p = t ∨ p ∈ t.kind.parts →
          ∃ n, ∀ later : List Step, (∀ step ∈ later, step.Faithful) → (u.run later).HandsOut p n) ∧
      (s.builtTypes.map (·.ref)).Nodup ∧
      ∀ step e u, s.perform step = (.registration (.error e), u) →
        (∃ id, s.registry.isTaken id = true ∧ e = .duplicateRegistration id) ∧ u = s := by
  intro s fresh
  have start : (ofRegistry config registry).Coherent := coherent_ofRegistry faithful
  have registrations : ∀ step ∈ steps.filter Step.isRegistration, step.Faithful := by
    intro step hs
    exact contracts step (List.mem_of_mem_filter hs)
  obtain ⟨coherent, grows⟩ := coherent_run start contracts
  obtain ⟨coherent', grows'⟩ := coherent_run start registrations
  obtain ⟨same, empty⟩ := registry_run start start rfl rfl rfl contracts
  refine ⟨⟨same.symm, empty⟩, ?_, ?_, coherent.builtTypes_nodup, ?_⟩
  · intro step
    have config := grows.config.trans grows'.config.symm
    exact (perform_congr coherent coherent' same (congrArg Config.policy config)).1
  · intro ref t u answer
    have looked : Looked ref s ((lookup ref).run s) := looked coherent
    obtain ⟨outcome, rfl⟩ := Prod.mk.inj answer
    obtain outcome := Reply.type.inj outcome
    have kept := looked.keeps t outcome
    refine ⟨Registry.ref_of_resolve (looked.outcome.symm.trans outcome), ?_⟩
    rintro p (rfl | hp)
    · exact looked.coherent.exists_handsOut kept
    · exact looked.coherent.exists_handsOut (looked.coherent.keeps_part kept hp)
  · intro step e u refused
    exact perform_eq_refused refused

/-- A constructor for a second kind of truth value. -/
def flag : Constructor :=
  Core.plain (Core.id "flag") (.exactly 0) "Flag" fun _ => .ok .bool

/-- A pair that does not resolve before this constructor is registered. -/
theorem session_spec_retry :
    (Registry.core 0).Faithful ∧ flag.Faithful ∧
      let pair : TypeRef := .tuple [.constructed flag.id [] [], .bool]
      let s := (ofRegistry .standard (.core 0)).run [.resolve pair, .registerConstructor flag]
      (∃ e, ((ofRegistry .standard (.core 0)).perform (.resolve pair)).1 = .type (.error e)) ∧
        ∃ t u n, s.perform (.resolveStrict pair) = (.type (.ok t), u) ∧ (u.run []).HandsOut t n := by
  have core : (Registry.core 0).Faithful := Registry.faithful_core
  have faithful : flag.Faithful := by
    rintro args kind - - ⟨⟩
    simp [Kind.parts]
  refine ⟨core, faithful, ?_⟩
  intro pair s
  have contracts : ∀ step ∈ [Step.resolve pair, .registerConstructor flag], step.Faithful := by
    simp [Step.Faithful, faithful]
  obtain ⟨t, u, answer⟩ : ∃ t u, s.perform (.resolveStrict pair) = (.type (.ok t), u) :=
    ⟨_, _, rfl⟩
  obtain ⟨-, -, handed, -⟩ := @session_spec _ .standard _ core contracts
  obtain ⟨n, later⟩ := (handed pair t u answer).2 t (.inl rfl)
  exact ⟨⟨_, rfl⟩, t, u, n, answer, later [] (List.forall_mem_nil _)⟩

end TypeSystem

end TypedTree
