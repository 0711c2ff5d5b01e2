import TypedTree.Text.Unprintable

/-!
# Quoted text

A text in double quotes, with a backslash before a quote or a backslash, short escapes for the
usual control characters, and a code point in braces for every other character that has no
printed form.

## Main definitions

* `escape`: how one character is written between the quotes.
* `quote`: a whole text in quotes.
-/

namespace TypedTree.Text

/-- A code point in lower-case hexadecimal between braces. -/
def codePoint (c : Char) : List Char :=
  ['\\', 'u', '\x7b'] ++ Nat.toDigits 16 c.toNat ++ ['\x7d']

/-- How one character is written between the quotes. -/
def escape (c : Char) : List Char :=
  match c with
  | '\x00' => ['\\', '0']
  | '\t' => ['\\', 't']
  | '\r' => ['\\', 'r']
  | '\n' => ['\\', 'n']
  | '\x22' => ['\\', '\x22']
  | '\\' => ['\\', '\\']
  | c => if isUnprintable c then codePoint c else [c]

/-- A text in quotes. -/
def quote (text : String) : String :=
  String.ofList ('\x22' :: text.toList.flatMap escape ++ ['\x22'])

end TypedTree.Text
