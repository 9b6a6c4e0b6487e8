import MarkupForms.Yaml.Gap

/-!
# Plain scalars

A scalar without quotes ends where a word ends with a colon, before a comment or, inside brackets,
before a comma or a bracket.  It may go on over several lines as long as they have more indentation
than what the scalar belongs to.
-/

namespace MarkupForms.Yaml

/-- Whether a character separates items or opens or closes brackets. -/
def isFlowMark (c : Char) : Bool :=
  ",[]\x7b\x7d".toList.contains c

/-- Whether a plain scalar may start with a text.  A dash, a colon and a question mark are marks of
their own when the word ends after them. -/
def startsPlain : List Char → Bool
  | [] => false
  | c :: r =>
      if "-?:".toList.contains c then !wordEnds r
      else !(isWordEnd c || isSeparator c || isFlowMark c || "#&*!|>'\"%@".toList.contains c ||
        c == Char.ofNat 0x60)

/-- Whether a plain scalar stops at a character that a text follows. -/
def stopsPlain (inFlow : Bool) (c : Char) (r : List Char) : Bool :=
  isWordEnd c || (c == ':' && wordEnds r) || (inFlow && isFlowMark c)

/-- The characters of a plain scalar up to a blank, a break or its end, and what follows. -/
def plainRun (inFlow : Bool) : List Char → List Char × List Char
  | [] => ([], [])
  | c :: r =>
      if stopsPlain inFlow c r then ([], c :: r)
      else
        let (run, rest) := plainRun inFlow r
        (c :: run, rest)

/-- The gap at the start of a text, the column after it, and what follows.  It ends before a line
that starts with a marker. -/
def plainGap (g : Gap) (column : Nat) : List Char → Gap × Nat × List Char
  | [] => (g, column, [])
  | c :: r =>
      if c = ' ' then plainGap (g.addBlank c) (column + 1) r
      else if isBreak c then
        if atMarker r then (g.addBreak c, 0, r) else plainGap (g.addBreak c) 0 r
      else (g, column, c :: r)

/-- A plain scalar. -/
structure Plain where
  /-- Its text. -/
  text : List Char
  /-- What follows the blanks and breaks after it. -/
  rest : List Char
  /-- Whether there is a line break after it. -/
  isBroken : Bool
deriving DecidableEq, Repr

/-- Whether a plain scalar is over after a gap: when there is none, before a comment or a marker,
and at a column with too little indentation. -/
def plainIsOver (inFlow : Bool) (indent : Nat) (g : Gap) (column : Nat) (rest : List Char) : Bool :=
  g.text.isEmpty || rest.head? == some '#' || (g.isBroken && column == 0 && atMarker rest) ||
    (!inFlow && column < indent)

/-- The plain scalar at the start of a text, at a column; its words have at least the given
indentation.  The fuel bounds the number of words. -/
def plainWords (inFlow : Bool) (indent : Nat) : Nat → Nat → List Char → Plain
  | 0, _, s => ⟨[], s, false⟩
  | fuel + 1, start, s =>
      let (run, r) := plainRun inFlow s
      let (g, column, rest) := plainGap .empty (run.foldl columnAfter start) r
      if run.isEmpty then ⟨[], s, false⟩
      else if plainIsOver inFlow indent g column rest then ⟨run, rest, g.isBroken⟩
      else
        let more := plainWords inFlow indent fuel column rest
        if more.text.isEmpty then ⟨run, rest, g.isBroken⟩
        else ⟨run ++ g.text ++ more.text, more.rest, more.isBroken⟩

/-- The plain scalar at the start of a text, at a column. -/
def plainScalar (inFlow : Bool) (indent column : Nat) (s : List Char) : Plain :=
  plainWords inFlow indent (s.length + 1) column s

end MarkupForms.Yaml
