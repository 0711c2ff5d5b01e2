import TypedTree.Ident

/-!
# Paths

A path says how to get from the root of a value tree to one of its nodes: through named fields
and numbered positions. It holds nothing of the tree that it is used on.

## Main definitions

* `Step`: one move down.
* `Path`: the moves, first to last.
* `Path.text`: the written form, which `Path.read` reads.
* `Path.cmp`: the order of paths.
-/

namespace TypedTree

/-- One move from a node to a child. -/
inductive Step where
  /-- To the child under a field name. -/
  | field (id : Ident)
  /-- To the child at a position. -/
  | index (i : UInt32)
  deriving DecidableEq, Repr

namespace Step

/-- The field name of a step. -/
def field? : Step → Option Ident
  | .field id => some id
  | .index _ => none

/-- The position of a step. -/
def index? : Step → Option UInt32
  | .field _ => none
  | .index i => some i

/-- A field is written as its name, a position in brackets. -/
def text : Step → String
  | .field id => id.text
  | .index i => "[" ++ toString i.toNat ++ "]"

/-- Fields come before positions; positions are ordered as numbers and names as texts. -/
def cmp : Step → Step → Ordering
  | .field a, .field b => compare a.text b.text
  | .field _, .index _ => .lt
  | .index _, .field _ => .gt
  | .index a, .index b => compare a b

end Step

/-- The steps from a root to a node. -/
abbrev Path := List Step

namespace Path

/-- The written form of the steps after the first: a dot goes before each field. -/
def tailText : Path → String
  | [] => ""
  | .field id :: rest => "." ++ id.text ++ tailText rest
  | .index i :: rest => (Step.index i).text ++ tailText rest

/-- The written form of a path. -/
def text : Path → String
  | [] => ""
  | step :: rest => step.text ++ tailText rest

/-- The path one step shorter; the root has none. -/
def parent? (p : Path) : Option Path :=
  if p.isEmpty then none else some p.dropLast

/-- Whether a path goes through the node that `start` leads to. -/
def startsWith (p start : Path) : Bool :=
  start.isPrefixOf p

/-- The lexicographic order over the order of steps. -/
def cmp : Path → Path → Ordering
  | [], [] => .eq
  | [], _ :: _ => .lt
  | _ :: _, [] => .gt
  | a :: p, b :: q => (a.cmp b).then (cmp p q)

end Path

end TypedTree
