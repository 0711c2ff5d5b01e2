import TypedTree.Document

/-!
# Printing documents

Documents are printed as JSON text without blanks. Texts escape quotes, backslashes and control
characters, and show all other characters as they are.

## Main definitions

* `Document.print`: the text of a document.
-/

namespace TypedTree.Document

/-- How one character is written inside a text. -/
def escape (c : Char) : List Char :=
  match c with
  | '\x22' => ['\\', '\x22']
  | '\\' => ['\\', '\\']
  | c =>
    if c.toNat < 0x20 then
      ['\\', 'u', '0', '0'] ++ (if c.toNat < 0x10 then ['0'] else []) ++ Nat.toDigits 16 c.toNat
    else [c]

/-- A text in quotes. -/
def quote (s : String) : String :=
  String.ofList ('\x22' :: s.toList.flatMap escape ++ ['\x22'])

mutual

/-- The text of a document. -/
def print : Document → String
  | .null => "null"
  | .bool b => if b then "true" else "false"
  | .integer n => toString n
  | .fractional written => written
  | .text s => quote s
  | .list items => "[" ++ ",".intercalate (printItems items) ++ "]"
  | .object members => "\x7b" ++ ",".intercalate (printMembers members) ++ "\x7d"
termination_by structural x => x

/-- The texts of the items of a list. -/
def printItems : List Document → List String
  | [] => []
  | d :: rest => d.print :: printItems rest
termination_by structural x => x

/-- The texts of the members of an object. -/
def printMembers : List (String × Document) → List String
  | [] => []
  | (key, d) :: rest => (quote key ++ ":" ++ d.print) :: printMembers rest
termination_by structural x => x

end

end TypedTree.Document
