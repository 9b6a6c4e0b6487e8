/-!
# Places in a text

A place is the number of characters before it, its line and its column; lines and columns are
counted from one, and only the newline starts a new line.  Tokens that were not read from a text may
name any place, also one before its start.

* `Location.advanceBy_append` : walking over two texts is walking over one after the other.
-/

namespace MarkupForms

/-- A place in a text. -/
structure Location where
  /-- How many characters come before. -/
  position : Int
  /-- The line, from one. -/
  line : Int
  /-- The column in the line, from one. -/
  column : Int
deriving DecidableEq, Repr, Inhabited

namespace Location

/-- The place before the first character. -/
def origin : Location := ⟨0, 1, 1⟩

/-- The place after one character. -/
def advance (here : Location) (c : Char) : Location :=
  if c = '\n' then ⟨here.position + 1, here.line + 1, 1⟩
  else ⟨here.position + 1, here.line, here.column + 1⟩

/-- The place after a text. -/
def advanceBy (here : Location) (s : List Char) : Location :=
  s.foldl advance here

@[simp] theorem advanceBy_nil (here : Location) : here.advanceBy [] = here := rfl

@[simp] theorem advanceBy_cons (here : Location) (c : Char) (s : List Char) :
    here.advanceBy (c :: s) = (here.advance c).advanceBy s := rfl

theorem advanceBy_append (here : Location) (s t : List Char) :
    here.advanceBy (s ++ t) = (here.advanceBy s).advanceBy t :=
  List.foldl_append

@[simp] theorem position_advance (here : Location) (c : Char) :
    (here.advance c).position = here.position + 1 := by
  unfold advance
  split <;> rfl

/-- Each character moves the place by one. -/
theorem position_advanceBy (here : Location) (s : List Char) :
    (here.advanceBy s).position = here.position + s.length := by
  induction s generalizing here with
  | nil => simp
  | cons c s ih => simp [ih]; omega

/-- The place as an ending of an error message, empty when there is no line to name. -/
def note (here : Location) : String :=
  if here.line = 0 then "" else s!" at {here.line}:{here.column}"

end Location

end MarkupForms
