/-!
# Documents

The tree form in which data is exchanged as text: nulls, truth values, numbers, texts, lists and
objects. Only whole numbers matter to the data kept here, so a number that is written with a
fraction or an exponent is kept as it was written.

## Main definitions

* `Document`: the trees.
* `Document.member?`: the content of an object under a key.
-/

namespace TypedTree

/-- A document. -/
inductive Document where
  | null
  | bool (b : Bool)
  | integer (n : Int)
  /-- A number that is not written as a whole number. -/
  | fractional (written : String)
  | text (s : String)
  | list (items : List Document)
  /-- Keys with their contents; no key stands twice. -/
  | object (members : List (String × Document))
  deriving Inhabited

namespace Document

/-- The content of an object under a key. -/
def member? (key : String) : Document → Option Document
  | .object members => members.lookup key
  | _ => none

end Document

end TypedTree
