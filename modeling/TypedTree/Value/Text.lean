import TypedTree.Text.Quoted
import TypedTree.Value

/-!
# Written values and references

The form in which values and type references are shown to people. Arrays stand in brackets,
tuples in parentheses; a record shows its active fields and a variant its tag before its fields;
a sum shows the index of its summand and a generic its bindings; a mapping lists its entries. A
reference shows its constructor with type arguments and, behind a semicolon, value arguments.

## Main definitions

* `Value.render`, `TypeRef.render`: the written forms.
-/

namespace TypedTree

/-- Items with a comma between them. -/
def commaList (items : List String) : String :=
  ", ".intercalate items

/-- Text between braces. -/
def braced (inner : String) : String :=
  "\x7b" ++ inner ++ "\x7d"

mutual

/-- The written form of a value. -/
def Value.render : Value → String
  | .void => "<blank>"
  | .bool b => if b then "true" else "false"
  | .int n => toString n.toInt
  | .rational q => q.text
  | .ident id => id.text
  | .text s => Text.quote s
  | .array items => "[" ++ commaList (Value.renderAll items) ++ "]"
  | .tuple items => "(" ++ commaList (Value.renderAll items) ++ ")"
  | .record slots => braced (commaList (Slots.renderAll slots))
  | .variant tag fields => tag.text ++ braced (commaList (Fields.renderAll fields))
  | .sum index value => "#" ++ toString index.toNat ++ "(" ++ value.render ++ ")"
  | .generic bindings inner =>
    "<" ++ commaList (TypeRef.renderAll bindings) ++ ">(" ++ inner.render ++ ")"
  | .map table => Mapping.render table
termination_by structural x => x

/-- The written form of a type reference. -/
def TypeRef.render : TypeRef → String
  | .primitive id => id.text
  | .constructed c types values =>
    c.text ++ "<" ++ commaList (TypeRef.renderAll types) ++
      (if values.isEmpty then "" else "; " ++ commaList (Value.renderAll values)) ++ ">"
termination_by structural x => x

/-- The written forms of the values in a list. -/
def Value.renderAll : List Value → List String
  | [] => []
  | v :: rest => v.render :: Value.renderAll rest
termination_by structural x => x

/-- The written forms of the references in a list. -/
def TypeRef.renderAll : List TypeRef → List String
  | [] => []
  | r :: rest => r.render :: TypeRef.renderAll rest
termination_by structural x => x

/-- The active slots, each as its name and its value. -/
def Slots.renderAll : List (Ident × Option Value) → List String
  | [] => []
  | (_, none) :: rest => Slots.renderAll rest
  | (id, some v) :: rest => (id.text ++ ": " ++ v.render) :: Slots.renderAll rest
termination_by structural x => x

/-- The fields, each as its name and its value. -/
def Fields.renderAll : List (Ident × Value) → List String
  | [] => []
  | (id, v) :: rest => (id.text ++ ": " ++ v.render) :: Fields.renderAll rest
termination_by structural x => x

/-- The entries of a mapping, the fallback under an underscore. -/
def Mapping.render : Mapping Value → String
  | ⟨rules, fallback⟩ =>
    braced (commaList (Rule.renderAll rules ++ ["_ -> " ++ Target.render fallback]))
termination_by structural x => x

/-- The rules in a list, each as its inputs and its answer. -/
def Rule.renderAll : List (Rule Value) → List String
  | [] => []
  | ⟨.exact v, t⟩ :: rest => (v.render ++ " -> " ++ Target.render t) :: Rule.renderAll rest
  | ⟨.range min max, t⟩ :: rest =>
    (min.render ++ "..=" ++ max.render ++ " -> " ++ Target.render t) :: Rule.renderAll rest
termination_by structural x => x

/-- The answer of a rule or fallback. -/
def Target.render : Target Value → String
  | .fixed v => v.render
  | .itself => "itself"
termination_by structural x => x

end

end TypedTree
