import TypedTree.Text.Decimal
import TypedTree.Ty

/-!
# Name templates

The name of a constructed type is a text with holes, filled from the arguments of the
constructor. A hole is written between braces:

* `t` and a number: the name of that type argument; `v` and a number: that value argument;
* `t*:` and a separator: the names of all type arguments with the separator between them;
  `v*:` and a separator: all value arguments;
* `v`, a number, `*:` and a separator: the items of an array argument;
* `v`, a number, `~t:` and a separator: the items of an array argument, each with the name of
  the type argument at the same place.

Doubled braces stand for single ones. What is no hole stays as it is, and a missing argument
shows as a question mark, so a bad template spoils a name and nothing else.

## Main definitions

* `Template.Piece`: literal text or a hole.
* `Template.ofString`: a template from its text.
* `Template.render`: the name for given arguments.
-/

namespace TypedTree

namespace Template

/-- Literal text or a hole. -/
inductive Piece where
  | literal (text : String)
  /-- The name of a type argument. -/
  | type (i : Nat)
  /-- A value argument. -/
  | value (i : Nat)
  /-- The names of all type arguments. -/
  | types (sep : String)
  /-- All value arguments. -/
  | values (sep : String)
  /-- The items of an array argument. -/
  | items (i : Nat) (sep : String)
  /-- The items of an array argument with the names of the type arguments. -/
  | zipped (i : Nat) (sep : String)
  deriving DecidableEq, Repr

/-- One more than the largest number a hole may name. -/
def numberLimit : Nat := 0x10000000000000000

/-- The number of a type argument; a plus sign may stand before it. -/
def typeNumber? : List Char → Option Nat
  | '+' :: digits => Text.Decimal.read? numberLimit digits
  | digits => Text.Decimal.read? numberLimit digits

/-- What the text between two braces asks for. -/
def hole? : List Char → Option Piece
  | 't' :: '*' :: ':' :: sep => some (.types (String.ofList sep))
  | 'v' :: '*' :: ':' :: sep => some (.values (String.ofList sep))
  | 't' :: number => (typeNumber? number).map .type
  | 'v' :: rest => do
    let i ← Text.Decimal.read? numberLimit (rest.takeWhile Char.isDigit)
    match rest.dropWhile Char.isDigit with
    | [] => some (.value i)
    | '*' :: ':' :: sep => some (.items i (String.ofList sep))
    | '~' :: 't' :: ':' :: sep => some (.zipped i (String.ofList sep))
    | _ => none
  | _ => none

/-- The literal that was read so far, its last character first, if there is one. -/
def literal (done : List Char) : List Piece :=
  if done.isEmpty then [] else [.literal (String.ofList done.reverse)]

/-- The pieces of a text; `done` holds literal text read before it, the last character first.
A doubled brace comes before a hole, and a hole ends at the first closing brace. -/
def piecesFrom (done : List Char) (cs : List Char) : List Piece :=
  match cs with
  | [] => literal done
  | '\x7b' :: '\x7b' :: rest => piecesFrom ('\x7b' :: done) rest
  | '\x7d' :: '\x7d' :: rest => piecesFrom ('\x7d' :: done) rest
  | '\x7b' :: rest =>
    match h : rest.dropWhile (· != '\x7d') with
    | [] => literal (rest.reverse ++ '\x7b' :: done)
    | close :: after =>
      have : after.length < rest.length := by
        have := (List.dropWhile_sublist (l := rest) (· != '\x7d')).length_le
        rw [h] at this
        exact this
      let body := rest.takeWhile (· != '\x7d')
      match hole? body with
      | some piece => literal done ++ piece :: piecesFrom [] after
      | none => piecesFrom (close :: body.reverse ++ '\x7b' :: done) after
  | c :: rest => piecesFrom (c :: done) rest
  termination_by cs.length

end Template

/-- A text with holes. -/
structure Template where
  /-- The text the template was read from. -/
  source : String
  /-- What is read in it. -/
  pieces : List Template.Piece
  deriving DecidableEq, Repr

namespace Template

/-- Read a template; every text is one. -/
def ofString (source : String) : Template :=
  ⟨source, piecesFrom [] source.toList⟩

/-- What a piece shows for given arguments. -/
def Piece.render (types : List Ty) (values : List Value) : Piece → String
  | .literal text => text
  | .type i => (types[i]?.map (·.name)).getD "?"
  | .value i => (values[i]?.map (·.render)).getD "?"
  | .types sep => sep.intercalate (types.map (·.name))
  | .values sep => sep.intercalate (values.map (·.render))
  | .items i sep =>
    match values[i]?.bind (·.array?) with
    | some vs => sep.intercalate (vs.map (·.render))
    | none => "?"
  | .zipped i sep =>
    match values[i]?.bind (·.array?) with
    | some vs =>
      sep.intercalate (vs.mapIdx fun k v =>
        v.render ++ ": " ++ (types[k]?.map (·.name)).getD "?")
    | none => "?"

/-- The name for given arguments. -/
def render (t : Template) (types : List Ty) (values : List Value) : String :=
  String.join (t.pieces.map (·.render types values))

end Template

end TypedTree
