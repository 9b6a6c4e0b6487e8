import MarkupForms.Text.Identifier

/-!
# References inside texts

A text is cut from left to right into characters that stand for themselves, doubled signs that stand
for one, and references: a sign and the longest path after it.  What a reference stands for is never
looked at again.

* `Segment.source_segments` : the segments of a text make up the text.
* `Segment.segments_of_not_mem` : a text without a sign stands for itself.
-/

namespace MarkupForms

/-- A part of a text. -/
inductive Segment where
  /-- A character that stands for itself. -/
  | char (c : Char)
  /-- A doubled sign. -/
  | sign
  /-- A reference to a variable. -/
  | reference (path : List Char)
deriving DecidableEq, Repr

namespace Segment

/-- A segment as it was written. -/
def source : Segment → List Char
  | .char c => [c]
  | .sign => ['$', '$']
  | .reference path => '$' :: path

/-- The segments after a number of characters that belong to the segment before. -/
def segmentsAfter : Nat → List Char → List Segment
  | _, [] => []
  | skip + 1, _ :: r => segmentsAfter skip r
  | 0, c :: r =>
      if c = '$' ∧ r.head? = some '$' then .sign :: segmentsAfter 1 r
      else if c = '$' ∧ Text.pathLength r ≠ 0 then
        .reference (r.take (Text.pathLength r)) :: segmentsAfter (Text.pathLength r) r
      else .char c :: segmentsAfter 0 r

/-- The segments of a text. -/
def segments (s : List Char) : List Segment :=
  segmentsAfter 0 s

theorem segmentsAfter_eq_drop (n : Nat) (s : List Char) :
    segmentsAfter n s = segmentsAfter 0 (s.drop n) := by
  induction n generalizing s with
  | zero => rfl
  | succ n ih =>
    cases s with
    | nil => simp [segmentsAfter]
    | cons c r => rw [segmentsAfter, List.drop_succ_cons, ih]

/-- The segments of a text make up the text. -/
theorem source_segments (s : List Char) : (segments s).flatMap source = s := by
  unfold segments
  induction h : s.length using Nat.strongRecOn generalizing s with
  | ind k ih =>
    cases s with
    | nil => simp [segmentsAfter]
    | cons c r =>
      have hr := ih r.length (by simp at h; omega) r rfl
      rw [segmentsAfter]
      split
      · rename_i hc
        obtain ⟨rfl, hr'⟩ := hc
        obtain ⟨t, rfl⟩ : ∃ t, r = '$' :: t := by
          cases r with
          | nil => simp at hr'
          | cons d t => exact ⟨t, by simpa using hr'⟩
        have ht := ih t.length (by simp at h; omega) t rfl
        rw [segmentsAfter_eq_drop]
        simp [source, ht]
      · split
        · rename_i hc
          have hd := ih (r.drop (Text.pathLength r)).length (by simp at h ⊢; omega) _ rfl
          rw [segmentsAfter_eq_drop]
          simp [source, hd, hc.1]
        · simp [source, hr]

/-- A text without a sign stands for itself. -/
theorem segments_of_not_mem {s : List Char} (h : '$' ∉ s) : segments s = s.map .char := by
  unfold segments
  induction s with
  | nil => rfl
  | cons c r ih =>
    have hc : c ≠ '$' := fun e => h (by simp [e])
    have hr : '$' ∉ r := fun hm => h (by simp [hm])
    rw [segmentsAfter]
    simp [hc, ih hr]

end Segment

end MarkupForms
