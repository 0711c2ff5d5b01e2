import TypedTree.Path
import TypedTree.Ty.Error

/-!
# Tree errors

Why a node of a value tree cannot be reached, read or changed.

## Main definitions

* `TreeError`: the causes.
* `TreeError.message`: the sentence shown for a cause.
-/

namespace TypedTree

/-- Why a step from a node leads nowhere. -/
inductive Obstacle where
  /-- The node, of the named type, has no child behind the step. -/
  | noChild (type : String)
  /-- The node, of the named type, has only so many children. -/
  | childCount (type : String) (count : Nat)
  deriving DecidableEq, Repr

/-- Why an operation on a tree failed. A failed operation leaves the tree as it was. -/
inductive TreeError where
  /-- A path cannot be followed beyond a step. -/
  | blocked (path : Path) (step : Step) (obstacle : Obstacle)
  /-- The node at a path is of another kind than the edit is for. -/
  | kindMismatch (path : Path) (expected found : String)
  /-- A view is older than the latest change of its tree. -/
  | staleView (path : Path) (view tree : Nat)
  /-- A view was taken from another tree. -/
  | foreignView (path : Path)
  /-- A type refused. -/
  | type (e : TypeError)
  deriving DecidableEq, Repr

/-- The sentence for an obstacle at a step. -/
def Obstacle.message (step : Step) : Obstacle → String
  | .noChild type => "`" ++ type ++ "` has no child `" ++ step.text ++ "`"
  | .childCount type count => "`" ++ type ++ "` has " ++ toString count ++ " children"

namespace TreeError

/-- The sentence shown for an error. -/
def message : TreeError → String
  | .blocked path step obstacle =>
    "cannot resolve `" ++ path.text ++ "` at `" ++ step.text ++ "`: " ++
      obstacle.message step
  | .kindMismatch path expected found =>
    "node at `" ++ path.text ++ "` is of kind " ++ found ++ ", expected " ++ expected
  | .staleView path view tree =>
    "view of `" ++ path.text ++ "` is stale (generation " ++ toString view ++ ", tree at " ++
      toString tree ++ ")"
  | .foreignView path => "view of `" ++ path.text ++ "` belongs to another tree"
  | .type e => e.message

end TreeError

end TypedTree
