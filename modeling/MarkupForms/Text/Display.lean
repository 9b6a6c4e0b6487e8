import MarkupForms.Text.Printable

/-!
# Text in diagnostics

A diagnostic shows a text between single quotes, or between double quotes when it holds a single
quote and no double quote.  The quote in use and the backslash are protected by a backslash, and
characters that do not print are shown by their code point.  A text in bytes has a letter in front
and shows the bytes beyond ASCII by their value.
-/

namespace MarkupForms.Text

/-- The last `width` hexadecimal digits of a number. -/
def hexDigits : Nat → Nat → List Char
  | 0, _ => []
  | width + 1, n => hexDigits width (n / 16) ++ [Nat.digitChar (n % 16)]

/-- One character of a text shown between the given quotes. -/
def displayChar (mark : Char) (c : Char) : List Char :=
  if c = mark ∨ c = '\\' then ['\\', c]
  else if c = '\n' then ['\\', 'n']
  else if c = '\r' then ['\\', 'r']
  else if c = '\t' then ['\\', 't']
  else if isPrintable c then [c]
  else if c.toNat ≤ 0xFF then '\\' :: 'x' :: hexDigits 2 c.toNat
  else if c.toNat ≤ 0xFFFF then '\\' :: 'u' :: hexDigits 4 c.toNat
  else '\\' :: 'U' :: hexDigits 8 c.toNat

/-- The quote that a text is shown with. -/
def displayQuote (s : List Char) : Char :=
  if s.contains '\'' && !s.contains '"' then '"' else '\''

/-- A text as diagnostics show it. -/
def display (s : String) : String :=
  let mark := displayQuote s.toList
  String.ofList (mark :: s.toList.flatMap (displayChar mark) ++ [mark])

/-- One byte of a text in bytes shown between the given quotes. -/
def displayByte (mark : Char) (b : UInt8) : List Char :=
  if b.toNat < 0x80 then displayChar mark (Char.ofNat b.toNat)
  else '\\' :: 'x' :: hexDigits 2 b.toNat

/-- A text in bytes as diagnostics show it. -/
def displayBytes (s : String) : String :=
  let mark := displayQuote s.toList
  String.ofList ('b' :: mark :: s.toUTF8.toList.flatMap (displayByte mark) ++ [mark])

/-- Several shown items between brackets. -/
def displayList (shown : List String) : String :=
  "[" ++ ", ".intercalate shown ++ "]"

/-- Several shown items between parentheses; a single one has a comma after it. -/
def displayTuple : List String → String
  | [one] => "(" ++ one ++ ",)"
  | shown => "(" ++ ", ".intercalate shown ++ ")"

end MarkupForms.Text
