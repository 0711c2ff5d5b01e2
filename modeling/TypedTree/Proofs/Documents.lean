import TypedTree.Proofs.Encoding

/-!
# Data kept in documents

A document that is read as data, in any of its written forms, holds readable names only. So
documents keep exactly the data with readable names, and what was read once can be written and read
again.

## Main definitions

* `Document.Keeps`: data is kept by one way of writing and one of reading.

## Main statements

* `Value.readable_of_decode?`, `TypeRef.readable_of_decode?`, `Entry.readable_of_decode?`: what is
  read has readable names.
* `Path.decode?_eq_some`: a path has one document only.
* `Document.decode_spec`: all data that documents keep.
-/

namespace TypedTree

open Name (AllReadable)

/-! ## What is read -/

/-- The names in a mapping are those in its listing. -/
theorem Mapping.allReadable_names {table : Mapping Value} :
    AllReadable (Mapping.names table) ↔ ∀ e ∈ table.entries, AllReadable e.names := by
  obtain ⟨rules, fallback⟩ := table
  have each (rules : List (Rule Value)) : AllReadable (Rule.namesAll rules) ↔
      ∀ r ∈ rules, AllReadable (Entry.ofRule r).names := by
    induction rules with
    | nil => simp [Rule.namesAll]
    | cons r rules ih => simp [Rule.namesAll, ih, Entry.names, Entry.ofRule, and_assoc]
  simp [Mapping.names, Mapping.entries, each, or_imp, forall_and, Entry.names, Entry.ofFallback,
    and_assoc]

-- each reader below goes through its document as it was written down, so the cases are its lines
mutual

/-- What is read as a value has readable names. -/
theorem Value.readable_of_decode? :
    ∀ (d : Document) {v : Value}, Value.decode? d = some v → AllReadable v.names
  | d, v, h => by
    rw [Value.decode?.eq_def] at h
    split at h
    · split at h
      · cases h
        simp [Value.names]
      · cases h
    · split at h
      · cases h
        simp [Value.names]
      · cases h
        simp [Value.names]
      · obtain ⟨n, -, rfl⟩ := Option.map_eq_some_iff.1 h
        simp [Value.names]
      · obtain ⟨q, -, rfl⟩ := Option.map_eq_some_iff.1 h
        simp [Value.names]
      · obtain ⟨id, found, rfl⟩ := Option.map_eq_some_iff.1 h
        simpa [Value.names] using (Document.ident?_eq_some.1 found).2
      · cases h
        simp [Value.names]
      · obtain ⟨items, found, rfl⟩ := Option.map_eq_some_iff.1 h
        rw [Value.names]
        exact Value.readable_of_decodeAll? _ found
      · obtain ⟨items, found, rfl⟩ := Option.map_eq_some_iff.1 h
        rw [Value.names]
        exact Value.readable_of_decodeAll? _ found
      · obtain ⟨slots, found, rfl⟩ := Option.map_eq_some_iff.1 h
        rw [Value.names]
        exact Slots.readable_of_member? _ found
      · obtain ⟨slots, found, rfl⟩ := Option.map_eq_some_iff.1 h
        rw [Value.names]
        exact Slots.readable_of_decodeAll? _ found
      · simp only [Option.bind_eq_bind, Option.bind_eq_some_iff] at h
        obtain ⟨_, -, tag, name, fields, found, whole⟩ := h
        cases whole
        rw [Value.names, Name.allReadable_cons]
        exact ⟨(Document.ident?_eq_some.1 name).2, Fields.readable_of_member? _ found⟩
      · simp only [Option.bind_eq_bind, Option.bind_eq_some_iff] at h
        obtain ⟨tag, name, fields, found, whole⟩ := h
        cases whole
        rw [Value.names, Name.allReadable_cons]
        exact ⟨(Document.ident?_eq_some.1 name).2, Fields.readable_of_decodeAll? _ found⟩
      · simp only [Option.bind_eq_bind, Option.bind_eq_some_iff] at h
        obtain ⟨_, -, index, -, value, found, whole⟩ := h
        cases whole
        rw [Value.names]
        exact Value.readable_of_member? _ found
      · simp only [Option.bind_eq_bind, Option.bind_eq_some_iff] at h
        obtain ⟨index, -, value, found, whole⟩ := h
        cases whole
        rw [Value.names]
        exact Value.readable_of_decode? _ found
      · simp only [Option.bind_eq_bind, Option.bind_eq_some_iff] at h
        obtain ⟨bindings, types, inner, found, whole⟩ := h
        cases whole
        rw [Value.names, Name.allReadable_append]
        exact ⟨TypeRef.readable_of_listMember? _ types, Value.readable_of_member? _ found⟩
      · simp only [Option.bind_eq_bind, Option.bind_eq_some_iff] at h
        obtain ⟨bindings, types, inner, found, whole⟩ := h
        cases whole
        rw [Value.names, Name.allReadable_append]
        exact ⟨TypeRef.readable_of_decodeAll? _ types, Value.readable_of_decode? _ found⟩
      · simp only [Option.bind_eq_bind, Option.bind_eq_some_iff, Outcome.toOption_eq_some,
          Mapping.ofEntries_eq_ok] at h
        obtain ⟨entries, found, table, rfl, whole⟩ := h
        cases whole
        rw [Value.names, Mapping.allReadable_names]
        exact Entry.readable_of_decodeAll? _ found
      · cases h
    · cases h
termination_by d => sizeOf d
decreasing_by
  all_goals
    subst_vars
    simp +arith

theorem Value.readable_of_decodeAll? :
    ∀ (ds : List Document) {vs : List Value}, Value.decodeAll? ds = some vs →
      AllReadable (Value.namesAll vs)
  | [], _, h => by
    cases h
    simp [Value.namesAll]
  | d :: rest, _, h => by
    simp only [Value.decodeAll?, Option.bind_eq_bind, Option.bind_eq_some_iff] at h
    obtain ⟨v, first, others, further, whole⟩ := h
    cases whole
    rw [Value.namesAll, Name.allReadable_append]
    exact ⟨Value.readable_of_decode? d first, Value.readable_of_decodeAll? rest further⟩
termination_by ds => sizeOf ds

theorem Value.readable_of_member? {key : String} :
    ∀ (members : List (String × Document)) {v : Value}, Value.member? key members = some v →
      AllReadable v.names
  | [], _, h => by cases h
  | (k, d) :: rest, _, h => by
    rw [Value.member?] at h
    split at h
    · exact Value.readable_of_decode? d h
    · exact Value.readable_of_member? rest h
termination_by members => sizeOf members

theorem Value.readable_of_listMember? {key : String} :
    ∀ (members : List (String × Document)) {vs : List Value},
      Value.listMember? key members = some vs → AllReadable (Value.namesAll vs)
  | [], _, h => by
    cases h
    simp [Value.namesAll]
  | (k, d) :: rest, _, h => by
    rw [Value.listMember?.eq_def] at h
    simp only at h
    split at h
    · split at h
      · exact Value.readable_of_decodeAll? _ h
      · cases h
    · exact Value.readable_of_listMember? rest h
termination_by members => sizeOf members

/-- What is read as a reference has readable names. -/
theorem TypeRef.readable_of_decode? :
    ∀ (d : Document) {r : TypeRef}, TypeRef.decode? d = some r → AllReadable r.names
  | d, r, h => by
    rw [TypeRef.decode?.eq_def] at h
    split at h
    · split at h
      · obtain ⟨id, found, rfl⟩ := Option.map_eq_some_iff.1 h
        rw [TypeRef.names]
        exact (Document.globalId?_eq_some.1 found).2
      · simp only [Option.bind_eq_bind, Option.bind_eq_some_iff] at h
        obtain ⟨_, -, c, name, types, first, values, second, whole⟩ := h
        cases whole
        rw [TypeRef.names, Name.allReadable_append, Name.allReadable_append]
        exact ⟨(Document.globalId?_eq_some.1 name).2, TypeRef.readable_of_argumentMember? _ first,
          Value.readable_of_listMember? _ second⟩
      · simp only [Option.bind_eq_bind, Option.bind_eq_some_iff] at h
        obtain ⟨c, name, whole⟩ := h
        cases whole
        simpa [TypeRef.names, TypeRef.namesAll, Value.namesAll] using
          (Document.globalId?_eq_some.1 name).2
      · simp only [Option.bind_eq_bind, Option.bind_eq_some_iff] at h
        obtain ⟨c, name, types, first, whole⟩ := h
        cases whole
        simpa [TypeRef.names, Value.namesAll] using
          ⟨(Document.globalId?_eq_some.1 name).2, TypeRef.readable_of_decodeAll? _ first⟩
      · simp only [Option.bind_eq_bind, Option.bind_eq_some_iff] at h
        obtain ⟨c, name, types, first, values, second, whole⟩ := h
        cases whole
        rw [TypeRef.names, Name.allReadable_append, Name.allReadable_append]
        exact ⟨(Document.globalId?_eq_some.1 name).2, TypeRef.readable_of_decodeAll? _ first,
          Value.readable_of_decodeAll? _ second⟩
      · cases h
    · cases h
termination_by d => sizeOf d
decreasing_by
  all_goals
    subst_vars
    simp +arith

theorem TypeRef.readable_of_decodeAll? :
    ∀ (ds : List Document) {rs : List TypeRef}, TypeRef.decodeAll? ds = some rs →
      AllReadable (TypeRef.namesAll rs)
  | [], _, h => by
    cases h
    simp [TypeRef.namesAll]
  | d :: rest, _, h => by
    simp only [TypeRef.decodeAll?, Option.bind_eq_bind, Option.bind_eq_some_iff] at h
    obtain ⟨r, first, others, further, whole⟩ := h
    cases whole
    rw [TypeRef.namesAll, Name.allReadable_append]
    exact ⟨TypeRef.readable_of_decode? d first, TypeRef.readable_of_decodeAll? rest further⟩
termination_by ds => sizeOf ds

theorem TypeRef.readable_of_listMember? {key : String} :
    ∀ (members : List (String × Document)) {rs : List TypeRef},
      TypeRef.listMember? key members = some rs → AllReadable (TypeRef.namesAll rs)
  | [], _, h => by cases h
  | (k, d) :: rest, _, h => by
    rw [TypeRef.listMember?.eq_def] at h
    simp only at h
    split at h
    · split at h
      · exact TypeRef.readable_of_decodeAll? _ h
      · cases h
    · exact TypeRef.readable_of_listMember? rest h
termination_by members => sizeOf members

theorem TypeRef.readable_of_argumentMember? {key : String} :
    ∀ (members : List (String × Document)) {rs : List TypeRef},
      TypeRef.argumentMember? key members = some rs → AllReadable (TypeRef.namesAll rs)
  | [], _, h => by
    cases h
    simp [TypeRef.namesAll]
  | (k, d) :: rest, _, h => by
    rw [TypeRef.argumentMember?.eq_def] at h
    simp only at h
    split at h
    · split at h
      · exact TypeRef.readable_of_decodeAll? _ h
      · cases h
    · exact TypeRef.readable_of_argumentMember? rest h
termination_by members => sizeOf members

theorem Slots.readable_of_decodeAll? :
    ∀ (ds : List Document) {slots : List (Ident × Option Value)},
      Slots.decodeAll? ds = some slots → AllReadable (Slots.names slots)
  | ds, slots, h => by
    rw [Slots.decodeAll?.eq_def] at h
    split at h
    · cases h
      simp [Slots.names]
    · simp only [Option.bind_eq_bind, Option.bind_eq_some_iff] at h
      obtain ⟨id, name, others, further, whole⟩ := h
      cases whole
      rw [Slots.names, Name.allReadable_cons]
      exact ⟨(Document.ident?_eq_some.1 name).2, Slots.readable_of_decodeAll? _ further⟩
    · simp only [Option.bind_eq_bind, Option.bind_eq_some_iff] at h
      obtain ⟨id, name, v, first, others, further, whole⟩ := h
      cases whole
      rw [Slots.names, Name.allReadable_cons, Name.allReadable_append]
      exact ⟨(Document.ident?_eq_some.1 name).2, Value.readable_of_decode? _ first,
        Slots.readable_of_decodeAll? _ further⟩
    · cases h
termination_by ds => sizeOf ds
decreasing_by
  all_goals
    subst_vars
    simp +arith

theorem Slots.readable_of_member? {key : String} :
    ∀ (members : List (String × Document)) {slots : List (Ident × Option Value)},
      Slots.member? key members = some slots → AllReadable (Slots.names slots)
  | [], _, h => by cases h
  | (k, d) :: rest, _, h => by
    rw [Slots.member?.eq_def] at h
    simp only at h
    split at h
    · split at h
      · exact Slots.readable_of_decodeAll? _ h
      · cases h
    · exact Slots.readable_of_member? rest h
termination_by members => sizeOf members

theorem Fields.readable_of_decodeAll? :
    ∀ (ds : List Document) {fields : List (Ident × Value)},
      Fields.decodeAll? ds = some fields → AllReadable (Fields.names fields)
  | ds, fields, h => by
    rw [Fields.decodeAll?.eq_def] at h
    split at h
    · cases h
      simp [Fields.names]
    · simp only [Option.bind_eq_bind, Option.bind_eq_some_iff] at h
      obtain ⟨id, name, v, first, others, further, whole⟩ := h
      cases whole
      rw [Fields.names, Name.allReadable_cons, Name.allReadable_append]
      exact ⟨(Document.ident?_eq_some.1 name).2, Value.readable_of_decode? _ first,
        Fields.readable_of_decodeAll? _ further⟩
    · cases h
termination_by ds => sizeOf ds
decreasing_by
  all_goals
    subst_vars
    simp +arith

theorem Fields.readable_of_member? {key : String} :
    ∀ (members : List (String × Document)) {fields : List (Ident × Value)},
      Fields.member? key members = some fields → AllReadable (Fields.names fields)
  | [], _, h => by cases h
  | (k, d) :: rest, _, h => by
    rw [Fields.member?.eq_def] at h
    simp only at h
    split at h
    · split at h
      · exact Fields.readable_of_decodeAll? _ h
      · cases h
    · exact Fields.readable_of_member? rest h
termination_by members => sizeOf members

/-- What is read as an entry has readable names. -/
theorem Entry.readable_of_decode? :
    ∀ (d : Document) {e : Entry Value}, Entry.decode? d = some e → AllReadable e.names
  | d, e, h => by
    rw [Entry.decode?.eq_def] at h
    split at h
    · simp only [Option.bind_eq_bind, Option.bind_eq_some_iff] at h
      obtain ⟨pattern, source, target, answer, whole⟩ := h
      cases whole
      rw [Entry.names, Name.allReadable_append]
      exact ⟨Pattern.readable_of_member? _ source, Target.readable_of_member? _ answer⟩
    · simp only [Option.bind_eq_bind, Option.bind_eq_some_iff] at h
      obtain ⟨pattern, source, target, answer, whole⟩ := h
      cases whole
      rw [Entry.names, Name.allReadable_append]
      exact ⟨Pattern.readable_of_decode? _ source, Target.readable_of_decode? _ answer⟩
    · cases h
termination_by d => sizeOf d
decreasing_by
  all_goals
    subst_vars
    simp +arith

theorem Entry.readable_of_decodeAll? :
    ∀ (ds : List Document) {es : List (Entry Value)}, Entry.decodeAll? ds = some es →
      ∀ e ∈ es, AllReadable e.names
  | [], _, h => by
    cases h
    simp
  | d :: rest, _, h => by
    simp only [Entry.decodeAll?, Option.bind_eq_bind, Option.bind_eq_some_iff] at h
    obtain ⟨e, first, others, further, whole⟩ := h
    cases whole
    rw [List.forall_mem_cons]
    exact ⟨Entry.readable_of_decode? d first, Entry.readable_of_decodeAll? rest further⟩
termination_by ds => sizeOf ds

theorem Pattern.readable_of_decode? :
    ∀ (d : Document) {p : Option (Pattern Value)}, Pattern.decode? d = some p →
      AllReadable (p.elim [] Pattern.names)
  | d, p, h => by
    rw [Pattern.decode?.eq_def] at h
    split at h
    · split at h
      · cases h
        simp
      · cases h
    · split at h
      · cases h
        simp
      · obtain ⟨v, found, rfl⟩ := Option.map_eq_some_iff.1 h
        rw [Option.elim_some, Pattern.names]
        exact Value.readable_of_decode? _ found
      · simp only [Option.bind_eq_bind, Option.bind_eq_some_iff] at h
        obtain ⟨min, first, max, second, whole⟩ := h
        cases whole
        rw [Option.elim_some, Pattern.names, Name.allReadable_append]
        exact ⟨Value.readable_of_member? _ first, Value.readable_of_member? _ second⟩
      · cases h
    · cases h
termination_by d => sizeOf d
decreasing_by
  all_goals
    subst_vars
    simp +arith

theorem Pattern.readable_of_member? {key : String} :
    ∀ (members : List (String × Document)) {p : Option (Pattern Value)},
      Pattern.member? key members = some p → AllReadable (p.elim [] Pattern.names)
  | [], _, h => by cases h
  | (k, d) :: rest, _, h => by
    rw [Pattern.member?] at h
    split at h
    · exact Pattern.readable_of_decode? d h
    · exact Pattern.readable_of_member? rest h
termination_by members => sizeOf members

theorem Target.readable_of_decode? :
    ∀ (d : Document) {t : Target Value}, Target.decode? d = some t →
      AllReadable (Target.names t)
  | d, t, h => by
    rw [Target.decode?.eq_def] at h
    split at h
    · split at h
      · cases h
        simp [Target.names]
      · cases h
    · split at h
      · cases h
        simp [Target.names]
      · obtain ⟨v, found, rfl⟩ := Option.map_eq_some_iff.1 h
        rw [Target.names]
        exact Value.readable_of_decode? _ found
      · cases h
    · cases h
termination_by d => sizeOf d

theorem Target.readable_of_member? {key : String} :
    ∀ (members : List (String × Document)) {t : Target Value},
      Target.member? key members = some t → AllReadable (Target.names t)
  | [], _, h => by cases h
  | (k, d) :: rest, _, h => by
    rw [Target.member?] at h
    split at h
    · exact Target.readable_of_decode? d h
    · exact Target.readable_of_member? rest h
termination_by members => sizeOf members

end

/-! ## Keeping data -/

namespace Document

/-- Documents keep data: it is read back just if its names are readable, only such data is read
from any document, and what was read can be written and read again. -/
structure Keeps {α : Type} (encode : α → Document) (decode? : Document → Option α)
    (names : α → List String) : Prop where
  decode_encode : ∀ x, decode? (encode x) = some x ↔ AllReadable (names x)
  image : ∀ x, (∃ d, decode? d = some x) ↔ AllReadable (names x)
  again : ∀ d x, decode? d = some x → decode? (encode x) = some x

theorem Keeps.of_sound {α : Type} {encode : α → Document} {decode? : Document → Option α}
    {names : α → List String} (back : ∀ x, AllReadable (names x) → decode? (encode x) = some x)
    (readable : ∀ d x, decode? d = some x → AllReadable (names x)) :
    Keeps encode decode? names where
  decode_encode x := ⟨readable _ x, back x⟩
  image x := ⟨fun ⟨d, found⟩ => readable d x found, fun h => ⟨encode x, back x h⟩⟩
  again d x found := back x (readable d x found)

end Document

/-- A step has one document only. -/
theorem Step.decode?_eq_some {d : Document} {step : Step} :
    Step.decode? d = some step ↔ d = step.encode ∧ AllReadable step.names := by
  unfold Step.decode?
  split
  · rw [Option.map_eq_some_iff]
    cases step with
    | field id => simp [Document.ident?_eq_some, Step.encode, Step.names]
    | index i => simp [Step.encode]
  · rename_i d notText
    rw [Option.map_eq_some_iff]
    cases step with
    | field id =>
      simp only [reduceCtorEq, and_false, exists_false, Step.encode, false_iff]
      exact fun h => notText _ h.1
    | index i => simp [Document.uint32?_eq_some, Step.encode, Step.names]

/-- A path has one document only. -/
theorem Path.decode?_eq_some {d : Document} {p : Path} :
    Path.decode? d = some p ↔ d = p.encode ∧ AllReadable p.names := by
  have steps (ds : List Document) : ds.mapM Step.decode? = some p ↔
      ds = p.map Step.encode ∧ AllReadable p.names := by
    induction ds generalizing p with
    | nil => cases p <;> simp [names]
    | cons d ds ih =>
      simp only [List.mapM_cons, Option.bind_eq_bind, Option.bind_eq_some_iff, ih]
      cases p with
      | nil => simp
      | cons step p =>
        simp [Step.decode?_eq_some, names, and_assoc, and_left_comm]
  cases d <;> simp [decode?, encode, steps]

/-- What documents keep: values, references, entries and paths with readable names. A rational is
read from any fraction of its number, a mapping from its listing. -/
theorem Document.decode_spec :
    Keeps Value.encode Value.decode? Value.names ∧
      Keeps TypeRef.encode TypeRef.decode? TypeRef.names ∧
      Keeps Entry.encode Entry.decode? Entry.names ∧
      Keeps Path.encode Path.decode? Path.names ∧
      (∀ (d : Document) (q : Rational), Rational.decode? d = some q ↔ ∃ a b : Int64,
        d.pair? "num" "den" = some (.integer a.toInt, .integer b.toInt) ∧
          b.toInt ≠ 0 ∧ q.num * b.toInt = a.toInt * q.den) ∧
      ∀ (ds : List Document) (v : Value), Value.decode? (.tagged "map" (.list ds)) = some v ↔
        ∃ table : Mapping Value, v = .map table ∧ Entry.decodeAll? ds = some table.entries := by
  refine ⟨.of_sound Value.decode?_encode fun d _ => Value.readable_of_decode? d,
    .of_sound TypeRef.decode?_encode fun d _ => TypeRef.readable_of_decode? d,
    .of_sound Entry.decode?_encode fun d _ => Entry.readable_of_decode? d, .of_sound ?_ ?_,
    fun d q => Rational.decode?_eq_some, ?_⟩
  · intro p readable
    exact Path.decode?_eq_some.2 ⟨rfl, readable⟩
  · intro d p found
    exact (Path.decode?_eq_some.1 found).2
  · intro ds v
    rw [Document.tagged, Value.decode?]
    simp only [Option.bind_eq_bind, Option.bind_eq_some_iff, Outcome.toOption_eq_some,
      Mapping.ofEntries_eq_ok]
    constructor
    · rintro ⟨_, found, table, rfl, whole⟩
      exact ⟨table, (Option.some.inj whole).symm, found⟩
    · rintro ⟨table, rfl, found⟩
      exact ⟨table.entries, found, table, rfl, rfl⟩

/-- A null stands for no value, a step of digits is still a field. -/
example : Value.decode? (.tagged "record" (.list [.list [.list [.text "a", .null],
      .list [.text "b", .text "void"]]])) = some (.record [(⟨"a"⟩, none), (⟨"b"⟩, some .void)]) ∧
    Path.decode? (.list [.text "0", .integer 0]) = some [.field ⟨"0"⟩, .index 0] :=
  ⟨rfl, rfl⟩

end TypedTree
