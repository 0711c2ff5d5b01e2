import TypedTree.Document
import TypedTree.Text.Decimal.Scaled

/-!
# Reading documents

Documents are read from JSON text in two stages. The characters are cut into tokens, and the
tokens drive a machine that keeps a stack of the lists and objects still open. Where an object
repeats a key, the last content stands. A number beyond the double-precision range is refused.

## Main definitions

* `Token`, `Token.ofChars?`: the first stage.
* `Document.Builder`, `Document.Builder.step?`: the machine of the second.
* `Document.read?`: both stages.
-/

namespace TypedTree

/-- A piece of the text of a document. -/
inductive Token where
  | openList
  | closeList
  | openObject
  | closeObject
  | comma
  | colon
  /-- A text in quotes. -/
  | text (s : String)
  /-- A null, a truth value or a number. -/
  | atom (d : Document)

namespace Token

/-- The digit that a hexadecimal character stands for. -/
def hexDigit? (c : Char) : Option Nat :=
  if c.isDigit then some (c.toNat - '0'.toNat)
  else if 'a' ≤ c ∧ c ≤ 'f' then some (c.toNat - 'a'.toNat + 10)
  else if 'A' ≤ c ∧ c ≤ 'F' then some (c.toNat - 'A'.toNat + 10)
  else none

/-- The 16-bit unit that four hexadecimal characters stand for. -/
def hexUnit? (a b c d : Char) : Option Nat := do
  let a ← hexDigit? a
  let b ← hexDigit? b
  let c ← hexDigit? c
  let d ← hexDigit? d
  some (((a * 16 + b) * 16 + c) * 16 + d)

/-- Whether a unit is the first half of a pair. -/
def isLeading (u : Nat) : Bool := 0xd800 ≤ u && u < 0xdc00

/-- Whether a unit is the second half of a pair. -/
def isTrailing (u : Nat) : Bool := 0xdc00 ≤ u && u < 0xe000

/-- The character of a short escape. -/
def shortEscape? : Char → Option Char
  | '\x22' => some '\x22'
  | '\\' => some '\\'
  | '/' => some '/'
  | 'b' => some '\x08'
  | 'f' => some '\x0c'
  | 'n' => some '\n'
  | 'r' => some '\r'
  | 't' => some '\t'
  | _ => none

/-- The text up to the closing quote, and what is left behind it; `done` holds the characters
read so far, the last one first. Half a pair of units is no text, and no control character
stands unescaped. -/
def readText (done : List Char) : List Char → Option (String × List Char)
  | [] => none
  | '\x22' :: rest => some (String.ofList done.reverse, rest)
  | '\\' :: 'u' :: a :: b :: c :: d :: rest =>
    match hexUnit? a b c d with
    | none => none
    | some u =>
      if isLeading u then
        match rest with
        | '\\' :: 'u' :: a :: b :: c :: d :: rest =>
          match hexUnit? a b c d with
          | none => none
          | some v =>
            if isTrailing v then
              readText (.ofNat (0x10000 + (u - 0xd800) * 0x400 + (v - 0xdc00)) :: done) rest
            else none
        | _ => none
      else if isTrailing u then none
      else readText (.ofNat u :: done) rest
  | '\\' :: c :: rest =>
    match shortEscape? c with
    | some e => readText (e :: done) rest
    | none => none
  | c :: rest => if c.toNat < 0x20 then none else readText (c :: done) rest

/-- Whether a character may stand in a number. -/
def inNumber (c : Char) : Bool :=
  c.isDigit || c == '-' || c == '+' || c == '.' || c == 'e' || c == 'E'

/-- Digits at the front, and what is left behind them. -/
def digits (cs : List Char) : List Char × List Char :=
  (cs.takeWhile Char.isDigit, cs.dropWhile Char.isDigit)

/-- The exponent of a number, zero if none is written. -/
def exponent? : List Char → Option Int
  | [] => some 0
  | e :: cs =>
    if e = 'e' ∨ e = 'E' then
      let (negative, cs) := match cs with
        | '-' :: cs => (true, cs)
        | '+' :: cs => (false, cs)
        | cs => (false, cs)
      if cs ≠ [] ∧ cs.all Char.isDigit then
        some (if negative then -(Text.Decimal.value cs) else Text.Decimal.value cs)
      else none
    else none

/-- The number that characters spell. The sign of a negative zero cannot be kept, so that is no
whole number. -/
def number? (written : List Char) : Option Document :=
  let (negative, cs) := match written with
    | '-' :: cs => (true, cs)
    | cs => (false, cs)
  match digits cs with
  | ([], _) => none
  | (whole, rest) =>
    if whole.length > 1 ∧ whole.head? = some '0' then none
    else
      let fraction := match rest with
        | '.' :: rest =>
          match digits rest with
          | ([], _) => none
          | fraction => some fraction
        | rest => some ([], rest)
      match fraction with
      | none => none
      | some (fraction, tail) =>
        match exponent? tail with
        | none => none
        | some exponent =>
          let n := Text.Decimal.value whole
          if (Text.Decimal.Scaled.ofDigits whole fraction exponent).isHuge then none
          else if rest = [] ∧ ¬(negative ∧ n = 0) then some (.integer (if negative then -n else n))
          else some (.fractional (String.ofList written))

/-- The tokens of a text; `fuel` bounds their number. -/
def ofCharsWithin? : Nat → List Char → Option (List Token)
  | _, [] => some []
  | 0, _ :: _ => none
  | fuel + 1, c :: rest =>
    match c with
    | ' ' | '\t' | '\n' | '\r' => ofCharsWithin? fuel rest
    | '[' => (ofCharsWithin? fuel rest).map (.openList :: ·)
    | ']' => (ofCharsWithin? fuel rest).map (.closeList :: ·)
    | '\x7b' => (ofCharsWithin? fuel rest).map (.openObject :: ·)
    | '\x7d' => (ofCharsWithin? fuel rest).map (.closeObject :: ·)
    | ',' => (ofCharsWithin? fuel rest).map (.comma :: ·)
    | ':' => (ofCharsWithin? fuel rest).map (.colon :: ·)
    | '\x22' =>
      match readText [] rest with
      | some (s, rest) => (ofCharsWithin? fuel rest).map (.text s :: ·)
      | none => none
    | c =>
      match c :: rest with
      | 'n' :: 'u' :: 'l' :: 'l' :: rest => (ofCharsWithin? fuel rest).map (.atom .null :: ·)
      | 't' :: 'r' :: 'u' :: 'e' :: rest => (ofCharsWithin? fuel rest).map (.atom (.bool true) :: ·)
      | 'f' :: 'a' :: 'l' :: 's' :: 'e' :: rest =>
        (ofCharsWithin? fuel rest).map (.atom (.bool false) :: ·)
      | cs =>
        match number? (cs.takeWhile inNumber) with
        | some n => (ofCharsWithin? fuel (cs.dropWhile inNumber)).map (.atom n :: ·)
        | none => none

/-- The tokens of a text. -/
def ofChars? (cs : List Char) : Option (List Token) :=
  ofCharsWithin? cs.length cs

end Token

namespace Document

namespace Builder

/-- A list or an object that is still open. -/
inductive Frame where
  /-- The items so far, the last one first. -/
  | list (items : List Document)
  /-- The members so far, and the key whose content comes next. -/
  | object (members : List (String × Document)) (key : String)

/-- What may come next. -/
inductive Phase where
  /-- A value, or the end of the list that was just opened. -/
  | value (mayClose : Bool)
  /-- A key, or the end of the object that was just opened. -/
  | key (mayClose : Bool)
  | colon
  /-- A comma or the end of the innermost frame. -/
  | next
  /-- Nothing. -/
  | finished (d : Document)

end Builder

/-- The machine that builds a document: the open frames, innermost first, and what may come
next. -/
structure Builder where
  frames : List Builder.Frame
  phase : Builder.Phase

namespace Builder

/-- Before the first token. -/
def start : Builder := ⟨[], .value false⟩

/-- Put a finished document where it belongs. A repeated key takes the new content. -/
def place (d : Document) : List Frame → Builder
  | [] => ⟨[], .finished d⟩
  | .list items :: frames => ⟨.list (d :: items) :: frames, .next⟩
  | .object members key :: frames =>
    ⟨.object (members.filter (·.1 != key) ++ [(key, d)]) key :: frames, .next⟩

/-- Take one token. -/
def step? (b : Builder) (t : Token) : Option Builder :=
  match b.phase, t, b.frames with
  | .value _, .atom d, frames => some (place d frames)
  | .value _, .text s, frames => some (place (.text s) frames)
  | .value _, .openList, frames => some ⟨.list [] :: frames, .value true⟩
  | .value _, .openObject, frames => some ⟨.object [] "" :: frames, .key true⟩
  | .value true, .closeList, .list items :: frames => some (place (.list items.reverse) frames)
  | .key _, .text key, .object members _ :: frames =>
    some ⟨.object members key :: frames, .colon⟩
  | .key true, .closeObject, .object members _ :: frames => some (place (.object members) frames)
  | .colon, .colon, frames => some ⟨frames, .value false⟩
  | .next, .comma, .list items :: frames => some ⟨.list items :: frames, .value false⟩
  | .next, .comma, .object members key :: frames =>
    some ⟨.object members key :: frames, .key false⟩
  | .next, .closeList, .list items :: frames => some (place (.list items.reverse) frames)
  | .next, .closeObject, .object members _ :: frames => some (place (.object members) frames)
  | _, _, _ => none

end Builder

/-- Read a document. -/
def read? (text : String) : Option Document := do
  let tokens ← Token.ofChars? text.toList
  let built ← tokens.foldlM Builder.step? Builder.start
  match built.phase with
  | .finished d => some d
  | _ => none

end Document

end TypedTree
