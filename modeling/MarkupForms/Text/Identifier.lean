import MarkupForms.Text.Word

/-!
# Identifier paths

A name starts with an ASCII letter or an underscore and goes on with word characters and hyphens.
A path is one or more names joined by dots.  `pathLength` measures the longest path at the start of
a text; a text is a path when that is all of it.

* `pathLength_le` : a path is part of the text.
* `joinDots_splitDots` : the segments between the dots make up the text.
* `splitDots_append` : cutting a text at one of its dots cuts both parts.
-/

namespace MarkupForms.Text

/-- Whether a character may start a name. -/
def isNameStart (c : Char) : Bool :=
  c.isAlpha || c == '_'

/-- Whether a character may continue a name. -/
def isNameChar (c : Char) : Bool :=
  isWord c || c == '-'

/-- Whether a text is a name. -/
def isName : List Char → Bool
  | [] => false
  | c :: r => isNameStart c && r.all isNameChar

/-- How many characters continue a path after a character of a name. -/
def pathTail : List Char → Nat
  | [] => 0
  | '.' :: c :: r => if isNameStart c then pathTail r + 2 else 0
  | c :: r => if isNameChar c then pathTail r + 1 else 0

/-- The length of the longest path at the start of a text, zero when there is none. -/
def pathLength : List Char → Nat
  | [] => 0
  | c :: r => if isNameStart c then pathTail r + 1 else 0

/-- Whether a text is a path. -/
def isPath (s : List Char) : Bool :=
  pathLength s != 0 && pathLength s == s.length

/-- The segments between the dots of a text. -/
def splitDots : List Char → List (List Char)
  | [] => [[]]
  | c :: r =>
      if c = '.' then [] :: splitDots r
      else
        match splitDots r with
        | [] => [[c]]
        | s :: rest => (c :: s) :: rest

/-- Segments with dots between them. -/
def joinDots : List (List Char) → List Char
  | [] => []
  | [s] => s
  | s :: rest => s ++ '.' :: joinDots rest

/-- The segments between the dots of a text. -/
def pathSegments (s : String) : List String :=
  (splitDots s.toList).map String.ofList

theorem pathTail_le (s : List Char) : pathTail s ≤ s.length := by
  fun_induction pathTail s <;> simp_all

theorem pathLength_le (s : List Char) : pathLength s ≤ s.length := by
  cases s with
  | nil => simp [pathLength]
  | cons c r =>
    have := pathTail_le r
    simp only [pathLength, List.length_cons]
    split <;> omega

theorem splitDots_ne_nil (s : List Char) : splitDots s ≠ [] := by
  cases s with
  | nil => simp [splitDots]
  | cons c r =>
    unfold splitDots
    split
    · simp
    · split <;> simp

/-- A text without dots is one segment. -/
theorem splitDots_of_not_mem {s : List Char} (h : '.' ∉ s) : splitDots s = [s] := by
  induction s with
  | nil => rfl
  | cons c r ih =>
    have hc : c ≠ '.' := fun e => h (by simp [e])
    have hr : '.' ∉ r := fun hm => h (by simp [hm])
    simp [splitDots, hc, ih hr]

/-- Cutting a text at one of its dots cuts both parts. -/
theorem splitDots_append (s t : List Char) :
    splitDots (s ++ '.' :: t) = splitDots s ++ splitDots t := by
  induction s with
  | nil => simp [splitDots]
  | cons c r ih =>
    by_cases hc : c = '.'
    · simp [splitDots, hc, ih]
    · cases hr : splitDots r with
      | nil => exact absurd hr (splitDots_ne_nil r)
      | cons u us => simp [splitDots, hc, ih, hr]

/-- The segments between the dots make up the text. -/
theorem joinDots_splitDots (s : List Char) : joinDots (splitDots s) = s := by
  induction s with
  | nil => rfl
  | cons c r ih =>
    by_cases hc : c = '.'
    · cases hr : splitDots r with
      | nil => exact absurd hr (splitDots_ne_nil r)
      | cons u us =>
        rw [hr] at ih
        simp [splitDots, hc, joinDots, hr, ih]
    · cases hr : splitDots r with
      | nil => exact absurd hr (splitDots_ne_nil r)
      | cons u us =>
        rw [hr] at ih
        cases us <;> simp_all [splitDots, joinDots]

end MarkupForms.Text
