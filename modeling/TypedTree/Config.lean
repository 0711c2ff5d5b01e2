import TypedTree.Text.Blank

/-!
# Configuration

What a type system does with references that do not resolve, and whether it remembers how types
relate.

## Main definitions

* `FailurePolicy`, `Config`: the settings.
* `FailurePolicy.read`, `Config.ofSetting`: settings from text.
-/

namespace TypedTree

/-- What to do with a reference that does not resolve. -/
inductive FailurePolicy where
  /-- Report the error. -/
  | strict
  /-- Go on with a stand-in. -/
  | substitute
  deriving DecidableEq, Repr

/-- A text that names no failure policy. -/
structure UnknownFailurePolicy where
  text : String
  deriving DecidableEq, Repr

/-- The sentence shown for an unknown policy. -/
def UnknownFailurePolicy.message (e : UnknownFailurePolicy) : String :=
  "unknown failure policy `" ++ e.text ++ "` (expected `strict` or `substitute`)"

namespace FailurePolicy

/-- Read a policy. Blanks around the word and the case of its letters do not matter. -/
def read (text : String) : Except UnknownFailurePolicy FailurePolicy :=
  match String.ofList ((Text.trim text).toList.map Char.toLower) with
  | "strict" => .ok .strict
  | "substitute" => .ok .substitute
  | _ => .error ⟨text⟩

/-- The word for a policy. -/
def name : FailurePolicy → String
  | .strict => "Strict"
  | .substitute => "Substitute"

end FailurePolicy

/-- The settings of a type system. -/
structure Config where
  policy : FailurePolicy
  /-- Remember how types relate. -/
  memoize : Bool
  deriving DecidableEq, Repr

namespace Config

/-- Strict, with memory. -/
def standard : Config := ⟨.strict, true⟩

/-- The standard settings, with the policy from a setting if there is one. -/
def ofSetting : Option String → Except UnknownFailurePolicy Config
  | none => .ok standard
  | some text => (FailurePolicy.read text).map fun policy => { standard with policy }

/-- How settings are shown to a programmer. -/
def describe (c : Config) : String :=
  "TypeSystemConfig \x7b failure_policy: " ++ c.policy.name ++ ", memoize_subtyping: " ++
    (if c.memoize then "true" else "false") ++ " \x7d"

end Config

end TypedTree
