import MarkupForms.Yaml.Token

/-!
# The layout of documents

A document is read from left to right.  Outside of brackets the indentation decides what belongs
together: a list or a map starts where a dash or a key has more indentation than what it belongs to,
and ends before the first token with less.

That something is a key shows only at the colon after it.  So the places where a key may have
started are remembered, one for each pair of brackets around; a colon turns the innermost one into a
key.  A key must stand on one line and must not be longer than `keyLimit`.

* `Cursor.rest_skip` : skipping characters leaves the others.
-/

namespace MarkupForms.Yaml

/-! ## Places -/

/-- A place in a document and what follows it. -/
structure Cursor where
  /-- The characters that follow. -/
  rest : List Char
  /-- How many characters come before. -/
  index : Nat
  /-- How many lines come before. -/
  line : Nat
  /-- How many characters of the line come before. -/
  column : Nat
deriving DecidableEq, Repr

namespace Cursor

/-- The place after one more character. -/
def next (p : Cursor) : Cursor :=
  match p.rest with
  | [] => p
  | c :: r =>
      ⟨r, p.index + 1, if isBreak c then p.line + 1 else p.line, columnAfter p.column c⟩

/-- The place after several characters. -/
def skip (p : Cursor) : Nat → Cursor
  | 0 => p
  | n + 1 => p.next.skip n

/-- The place before a text that the document ends with. -/
def moveTo (p : Cursor) (rest : List Char) : Cursor :=
  p.skip (p.rest.length - rest.length)

theorem rest_next (p : Cursor) : p.next.rest = p.rest.tail := by
  unfold next
  split <;> simp_all

/-- Skipping characters leaves the others. -/
theorem rest_skip (p : Cursor) (n : Nat) : (p.skip n).rest = p.rest.drop n := by
  induction n generalizing p with
  | zero => rfl
  | succ n ih => rw [skip, ih, rest_next, List.drop_tail]

end Cursor

/-! ## The state of reading -/

/-- A place where a key may have started. -/
structure Layout.Mark where
  /-- How many tokens come before. -/
  number : Nat
  /-- Whether there has to be a key. -/
  required : Bool
  /-- The place. -/
  place : Cursor
deriving Repr

/-- What has been read of a document, and what is to be remembered. -/
structure Layout where
  /-- The place up to which the document has been read. -/
  place : Cursor
  /-- The tokens so far. -/
  tokens : Array Token
  /-- The indentations of the lists and maps around, the innermost first. -/
  indents : List Nat
  /-- Whether a key may start here. -/
  keyAllowed : Bool
  /-- Where a key may have started inside the innermost brackets. -/
  mark : Option Layout.Mark
  /-- The brackets around, the innermost first, and where a key may have started outside of them. -/
  brackets : List (Bracket × Option Layout.Mark)

namespace Layout

/-- The start of a document. -/
def start (s : List Char) : Layout where
  place := ⟨s, 0, 0, 0⟩
  tokens := #[]
  indents := []
  keyAllowed := true
  mark := none
  brackets := []

/-- Whether there are brackets around. -/
def inFlow (l : Layout) : Bool :=
  !l.brackets.isEmpty

/-- How long a key may be. -/
def keyLimit : Nat := 1024

/-- Add a token. -/
def emit (l : Layout) (t : Token) : Layout :=
  { l with tokens := l.tokens.push t }

/-- Add a token and go on after some characters. -/
def take (l : Layout) (n : Nat) (t : Token) : Layout :=
  { l.emit t with place := l.place.skip n }

/-! ## Places for keys -/

/-- Whether a key cannot go on at a place: it has another line or is too far. -/
def Mark.isStale (m : Mark) (p : Cursor) : Bool :=
  m.place.line != p.line || keyLimit < p.index - m.place.index

/-- A mark unless it is stale; one where a key has to be must not be. -/
def Mark.renewed (p : Cursor) : Option Mark → Except Fault (Option Mark)
  | none => .ok none
  | some m =>
      if !m.isStale p then .ok (some m)
      else if m.required then .error .misplaced
      else .ok none

/-- Forget the marks that are stale. -/
def renew (l : Layout) : Except Fault Layout := do
  let mark ← Mark.renewed l.place l.mark
  let brackets ← l.brackets.mapM fun b => return (b.1, ← Mark.renewed l.place b.2)
  return { l with mark, brackets }

/-- Whether something may turn out to be a key. -/
def hasMark (l : Layout) : Bool :=
  l.mark.isSome || l.brackets.any fun b => b.2.isSome

/-- Forget the innermost mark; there must be no key that has to be. -/
def dropMark (l : Layout) : Except Fault Layout :=
  match l.mark with
  | none => .ok l
  | some m => if m.required then .error .misplaced else .ok { l with mark := none }

/-- Remember that a key may start here, if it may. -/
def setMark (l : Layout) : Except Fault Layout := do
  if !l.keyAllowed then return l
  let l ← l.dropMark
  let required := !l.inFlow && l.indents.head? == some l.place.column
  return { l with mark := some ⟨l.tokens.size, required, l.place⟩ }

/-! ## Indentation -/

/-- End the lists and maps that have more indentation than a column. -/
def closeDeeper (l : Layout) (column : Nat) : Layout :=
  if l.inFlow then l
  else
    let closed := l.indents.takeWhile (column < ·)
    { l with
      indents := l.indents.dropWhile (column < ·)
      tokens := l.tokens ++ closed.map fun _ => Token.blockEnd }

/-- End all lists and maps that indentation shows. -/
def closeAll (l : Layout) : Layout :=
  if l.inFlow then l
  else
    { l with
      indents := []
      tokens := l.tokens ++ l.indents.map fun _ => Token.blockEnd }

/-- Whether a column has more indentation than what is around. -/
def isDeeper (l : Layout) (column : Nat) : Bool :=
  match l.indents with
  | [] => true
  | i :: _ => i < column

/-- The indentation that a scalar needs on the lines after its first one. -/
def innerIndent (l : Layout) : Nat :=
  match l.indents with
  | [] => 0
  | i :: _ => i + 1

/-- Start a list or a map here if the indentation shows one. -/
def openBlock (l : Layout) (t : Token) : Layout :=
  if l.isDeeper l.place.column then
    { l.emit t with indents := l.place.column :: l.indents }
  else l

/-! ## Tokens -/

/-- Whether a character between tokens is a blank.  Tabs are blanks only between brackets, where no
indentation counts. -/
def isGap (inFlow : Bool) (c : Char) : Bool :=
  c == ' ' || (inFlow && c == '\t')

/-- What follows blanks, breaks and comments, and whether a key may start there. -/
def skipBlank (inFlow inComment keyAllowed : Bool) : List Char → List Char × Bool
  | [] => ([], keyAllowed)
  | c :: r =>
      if c = '\n' ∨ (!inComment ∧ isSeparator c) then
        skipBlank inFlow false (keyAllowed || !inFlow) r
      else if inComment ∨ isGap inFlow c then skipBlank inFlow inComment keyAllowed r
      else if c = '#' then skipBlank inFlow true keyAllowed r
      else (c :: r, keyAllowed)

/-- Go on before the next token. -/
def toToken (l : Layout) : Layout :=
  let (rest, keyAllowed) := skipBlank l.inFlow false l.keyAllowed l.place.rest
  { l with place := l.place.moveTo rest, keyAllowed }

/-- A marker of a document. -/
def marker (l : Layout) (t : Token) : Except Fault Layout := do
  let l ← l.closeAll.dropMark
  return { l.take 3 t with keyAllowed := false }

/-- An opening bracket. -/
def opening (l : Layout) (b : Bracket) (t : Token) : Except Fault Layout := do
  let l ← l.setMark
  return { l.take 1 t with keyAllowed := true, mark := none, brackets := (b, l.mark) :: l.brackets }

/-- A closing bracket. -/
def closing (l : Layout) (t : Token) : Except Fault Layout := do
  let l := { (← l.dropMark).take 1 t with keyAllowed := false }
  match l.brackets with
  | [] => return l
  | (_, mark) :: brackets => return { l with mark, brackets }

/-- A comma between brackets. -/
def comma (l : Layout) : Except Fault Layout := do
  return { (← l.dropMark).take 1 .comma with keyAllowed := true }

/-- A dash before an item. -/
def item (l : Layout) : Except Fault Layout := do
  if !l.inFlow && !l.keyAllowed then throw .misplaced
  let l := if l.inFlow then l else l.openBlock .listStart
  return { (← l.dropMark).take 1 .item with keyAllowed := true }

/-- A question mark before a key. -/
def explicitKey (l : Layout) : Except Fault Layout := do
  if !l.inFlow && !l.keyAllowed then throw .misplaced
  let l := if l.inFlow then l else l.openBlock .mapStart
  return { (← l.dropMark).take 1 .key with keyAllowed := !l.inFlow }

/-- The tokens with a key, and maybe with the map that starts with it, where a mark is. -/
def keyed (l : Layout) (m : Mark) : Layout :=
  let startsMap := !l.inFlow && l.isDeeper m.place.column
  let new := if startsMap then #[Token.mapStart, .key] else #[Token.key]
  { l with
    tokens := l.tokens.take m.number ++ new ++ l.tokens.drop m.number
    indents := if startsMap then m.place.column :: l.indents else l.indents
    mark := none }

/-- A colon after a key. -/
def colon (l : Layout) : Except Fault Layout := do
  match l.mark with
  | some m => return { (l.keyed m).take 1 .value with keyAllowed := false }
  | none =>
      if !l.inFlow && !l.keyAllowed then throw .misplaced
      let l := if l.inFlow then l else l.openBlock .mapStart
      return { l.take 1 .value with keyAllowed := !l.inFlow }

/-- A scalar between quotes. -/
def quoted (l : Layout) (read : Except Fault (List Char × List Char)) : Except Fault Layout := do
  let l ← l.setMark
  let (text, rest) ← read
  return { l.emit (.scalar (String.ofList text) false) with
    place := l.place.moveTo rest
    keyAllowed := false }

/-- A plain scalar. -/
def plain (l : Layout) : Except Fault Layout := do
  if !startsPlain l.place.rest then throw .misplaced
  let l ← l.setMark
  let p := plainScalar l.inFlow l.innerIndent l.place.column l.place.rest
  return { l.emit (.scalar (String.ofList p.text) true) with
    place := l.place.moveTo p.rest
    keyAllowed := p.isBroken }

/-- Whether a colon before a text ends a key.  Between braces it does so also without a blank after
it, unless it stands right after another colon while something may still turn out to be a key. -/
def endsKey (l : Layout) (hadMark : Bool) (r : List Char) : Bool :=
  wordEnds r || match l.brackets with
    | (.map, _) :: _ => !(hadMark && l.tokens.back? == some .value)
    | _ => false

/-- Read the token that starts with a character.  Something may still turn out to be a key before it
if there was a mark. -/
def token (l : Layout) (hadMark : Bool) (c : Char) (r : List Char) : Except Fault Layout :=
  let atStart := l.place.column == 0
  if atStart && atOpening (c :: r) then l.marker .documentStart
  else if atStart && atEnding (c :: r) then l.marker .documentEnd
  else if c == '[' then l.opening .list .openList
  else if c == '\x7b' then l.opening .map .openMap
  else if c == ']' then l.closing .closeList
  else if c == '\x7d' then l.closing .closeMap
  else if c == ',' then l.comma
  else if c == '-' && wordEnds r then l.item
  else if c == '?' && (l.inFlow || wordEnds r) then l.explicitKey
  else if c == ':' && l.endsKey hadMark r then l.colon
  else if c == '\'' then l.quoted (single r)
  else if c == '"' then l.quoted (double r)
  else l.plain

/-- Read the rest of a document.  The fuel bounds the number of tokens. -/
def finish : Nat → Layout → Except Fault Layout
  | 0, _ => .error .misplaced
  | fuel + 1, l => do
      let l ← l.renew
      let next ← l.toToken.renew
      match next.place.rest with
      | [] => next.closeAll.dropMark
      | c :: r => finish fuel (← (next.closeDeeper next.place.column).token l.hasMark c r)

end Layout

/-- The tokens of a document. -/
def tokensOf (s : List Char) : Except Fault (List Token) := do
  return (← Layout.finish (s.length + 2) (.start s)).tokens.toList

end MarkupForms.Yaml
