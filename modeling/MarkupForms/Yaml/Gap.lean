import MarkupForms.Yaml.Character

/-!
# Gaps in scalars

A scalar may go on over several lines.  Blanks before a line break and at the start of a line do not
count; one break stands for a space, and several ones stand for one newline less.
-/

namespace MarkupForms.Yaml

/-- Blanks and line breaks between two words of a scalar. -/
inductive Gap where
  /-- Blanks on a line. -/
  | blanks (cs : List Char)
  /-- Line breaks: the first one and the others. -/
  | breaks (first : Char) (others : List Char)
  /-- Line breaks after a first one that does not count. -/
  | joined (others : List Char)
deriving DecidableEq, Repr

namespace Gap

/-- No gap. -/
def empty : Gap := .blanks []

/-- A gap with one more blank. -/
def addBlank (c : Char) : Gap → Gap
  | .blanks cs => .blanks (cs ++ [c])
  | g => g

/-- A gap with one more line break. -/
def addBreak (c : Char) : Gap → Gap
  | .blanks _ => .breaks c []
  | .breaks first others => .breaks first (others ++ [c])
  | .joined others => .joined (others ++ [c])

/-- What a gap stands for. -/
def text : Gap → List Char
  | .blanks cs => cs
  | .breaks first others =>
      if first = '\n' then
        if others.isEmpty then [' '] else others
      else first :: others
  | .joined others => others

/-- Whether a gap has a line break. -/
def isBroken : Gap → Bool
  | .blanks _ => false
  | _ => true

end Gap

end MarkupForms.Yaml
