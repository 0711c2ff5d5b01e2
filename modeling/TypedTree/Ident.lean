/-!
# Identifiers

Names come in two parts. An `Ident` is a local name: a record field, a variant tag, an
enumeration member. A `GlobalId` is a local name inside a `Namespace`; primitive types and
type constructors are known by one.

The characters `.`, `[` and `]` separate the steps of a path, so no readable name holds one.
The structures below hold any text: `Ident.read`, `Namespace.read` and `GlobalId.read` are the
checked ways in.

## Main definitions

* `Ident`, `Namespace`, `GlobalId`: the names.
* `Name.isReserved`, `Name.check`: what a readable name may hold.
* `IdentError`: why a text is not a name.
-/

namespace TypedTree

/-- Why a text was not accepted as an identifier. -/
inductive IdentError where
  /-- Nothing was written. -/
  | empty
  /-- The text holds `found`, the first reserved character in it. -/
  | reserved (text : String) (found : Char)
  /-- A global identifier without a dot. -/
  | missingNamespace (text : String)
  deriving DecidableEq, Repr

namespace IdentError

/-- The sentence shown for an error. -/
def message : IdentError → String
  | .empty => "identifier must not be empty"
  | .reserved text found =>
    "identifier `" ++ text ++ "` contains reserved character `" ++ found.toString ++ "`"
  | .missingNamespace text =>
    "long identifier `" ++ text ++ "` must have the form `namespace.name`"

end IdentError

namespace Name

/-- The characters that separate path steps. -/
def isReserved (c : Char) : Bool :=
  c == '.' || c == '[' || c == ']'

/-- A readable name is not empty and holds no reserved character; the first one found is
reported. -/
def check (text : String) : Except IdentError Unit :=
  match text.toList with
  | [] => .error .empty
  | c :: cs =>
    match (c :: cs).find? isReserved with
    | some found => .error (.reserved text found)
    | none => .ok ()

/-- The texts that `check` accepts, said without it. -/
def Readable (text : String) : Prop :=
  text.toList ≠ [] ∧ ∀ c ∈ text.toList, isReserved c = false

/-- Checking accepts exactly the readable texts. -/
theorem check_eq_ok_iff {text : String} : check text = .ok () ↔ Readable text := by
  unfold check Readable
  cases text.toList with
  | nil => simp
  | cons c cs =>
    cases hf : (c :: cs).find? isReserved with
    | some found =>
      have hm := List.mem_of_find?_eq_some hf
      have hr := List.find?_some hf
      simp only [hf, reduceCtorEq, ne_eq, not_false_eq_true, true_and, false_iff]
      intro h
      simp [h _ hm] at hr
    | none =>
      simp only [hf, ne_eq, reduceCtorEq, not_false_eq_true, true_and, true_iff]
      intro x hx
      simpa using List.find?_eq_none.mp hf x hx

end Name

/-- A local name. -/
structure Ident where
  text : String
  deriving DecidableEq, Repr, Inhabited

namespace Ident

/-- The checked way from text to a local name. -/
def read (text : String) : Except IdentError Ident :=
  (Name.check text).map fun _ => ⟨text⟩

/-- How a local name is shown to a programmer. -/
def describe (id : Ident) : String :=
  "ShortId(" ++ id.text ++ ")"

end Ident

/-- The first half of a global identifier. -/
structure Namespace where
  text : String
  deriving DecidableEq, Repr, Inhabited

namespace Namespace

/-- The checked way from text to a namespace. -/
def read (text : String) : Except IdentError Namespace :=
  (Name.check text).map fun _ => ⟨text⟩

/-- How a namespace is shown to a programmer. -/
def describe (space : Namespace) : String :=
  "MediumId(" ++ space.text ++ ")"

end Namespace

/-- A local name inside a namespace. -/
structure GlobalId where
  space : Namespace
  name : Ident
  deriving DecidableEq, Repr, Inhabited

namespace GlobalId

/-- Both halves with a dot between them. -/
def text (id : GlobalId) : String :=
  id.space.text ++ "." ++ id.name.text

/-- How a global identifier is shown to a programmer. -/
def describe (id : GlobalId) : String :=
  "LongId(" ++ id.text ++ ")"

/-- Read a global identifier: the namespace ends at the first dot, and both halves are checked,
the namespace first. -/
def read (text : String) : Except IdentError GlobalId :=
  match text.toList.dropWhile (· != '.') with
  | [] => .error (.missingNamespace text)
  | _ :: name => do
    let space ← Namespace.read (String.ofList (text.toList.takeWhile (· != '.')))
    let name ← Ident.read (String.ofList name)
    pure ⟨space, name⟩

end GlobalId

end TypedTree
