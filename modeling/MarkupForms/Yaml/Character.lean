import MarkupForms.Yaml.Fault

/-!
# Characters of documents

A document has printable characters and line breaks only.  There are several ways to break a line;
before a document is read, the usual ones are replaced by the newline.
-/

namespace MarkupForms.Yaml

/-- Whether a document may have a character. -/
def isAllowed (c : Char) : Bool :=
  let n := c.toNat
  n == 0x09 || n == 0x0A || n == 0x0D || n == 0x85 || (0x20 ≤ n && n ≤ 0x7E) ||
    (0xA0 ≤ n && n ≤ 0xD7FF) || (0xE000 ≤ n && n ≤ 0xFFFD) || 0x10000 ≤ n

/-- The mark that may stand in front of a text. -/
def orderMark : Char := Char.ofNat 0xFEFF

/-- Whether a character separates lines or paragraphs. -/
def isSeparator (c : Char) : Bool :=
  c.toNat == 0x2028 || c.toNat == 0x2029

/-- Whether a character breaks a line. -/
def isBreak (c : Char) : Bool :=
  c == '\n' || isSeparator c

/-- The column after a character: every break starts a line, and the order mark has no width. -/
def columnAfter (column : Nat) (c : Char) : Nat :=
  if isBreak c then 0 else if c = orderMark then column else column + 1

/-- Whether a character is a blank on a line. -/
def isBlank (c : Char) : Bool :=
  c == ' ' || c == '\t'

/-- Whether a character ends a word. -/
def isWordEnd (c : Char) : Bool :=
  isBlank c || c == '\n'

/-- Whether a word ends before a text. -/
def wordEnds (s : List Char) : Bool :=
  match s with
  | [] => true
  | c :: _ => isWordEnd c

/-- Whether a text starts with the marker that opens a document. -/
def atOpening : List Char → Bool
  | '-' :: '-' :: '-' :: r => wordEnds r
  | _ => false

/-- Whether a text starts with the marker that ends a document. -/
def atEnding : List Char → Bool
  | '.' :: '.' :: '.' :: r => wordEnds r
  | _ => false

/-- Whether a text starts with a marker. -/
def atMarker (s : List Char) : Bool :=
  atOpening s || atEnding s

/-- Replace line breaks by newlines; a carriage return and a newline are one break. -/
def unifyBreaks : List Char → List Char
  | [] => []
  | '\r' :: '\n' :: r => '\n' :: unifyBreaks r
  | c :: r => (if c = '\r' ∨ c.toNat = 0x85 then '\n' else c) :: unifyBreaks r

/-- The characters of a document without a mark in front of them. -/
def characters (s : String) : Except Fault (List Char) :=
  match s.toList.find? fun c => !isAllowed c with
  | some c => .error (.unprintable c)
  | none =>
      match unifyBreaks s.toList with
      | [] => .ok []
      | c :: r => .ok (if c = orderMark then r else c :: r)

end MarkupForms.Yaml
