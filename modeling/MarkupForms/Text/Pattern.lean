import Mathlib.Data.List.Basic

/-!
# Patterns

A pattern is looked for at the start of a text.  There may be several ways to find it, and they come
in an order: of two alternatives the one that is written first comes first, and a repetition comes
the earlier the longer it is.  The first way that lets the rest of the pattern be found is the one
that counts.

* `Pattern.rests_many` : a repetition without a bound on the number of steps.
* `Pattern.suffix_of_mem_rests` : what is left is an end of the text.
* `Pattern.length_lt_of_mem_rests` : some patterns always take a character.
* `Pattern.match?_eq_some_iff` : what a pattern takes, and what is left.
-/

namespace MarkupForms.Text

/-- A pattern for the start of a text. -/
inductive Pattern where
  /-- A character. -/
  | char (p : Char → Bool)
  /-- One pattern after the other. -/
  | seq (a b : Pattern)
  /-- One pattern, or else the other one. -/
  | alt (a b : Pattern)
  /-- A pattern as often as possible, or not at all. -/
  | many (a : Pattern)
  /-- A pattern that is found but not taken. -/
  | ahead (a : Pattern)
  /-- The end of the text. -/
  | stop

namespace Pattern

/-- A certain character. -/
def lit (c : Char) : Pattern :=
  .char (· == c)

/-- A pattern once and then as often as possible. -/
def some (a : Pattern) : Pattern :=
  .seq a (.many a)

/-- What is left after as many steps as possible, each of which takes something, and after fewer
ones. -/
def repeated (step : List Char → List (List Char)) : Nat → List Char → List (List Char)
  | 0, s => [s]
  | n + 1, s => ((step s).filter (·.length < s.length)).flatMap (repeated step n) ++ [s]

/-- What is left of a text after the pattern, for all the ways to find it, in their order. -/
def rests : Pattern → List Char → List (List Char)
  | .char _, [] => []
  | .char p, c :: r => if p c then [r] else []
  | .seq a b, s => (a.rests s).flatMap b.rests
  | .alt a b, s => a.rests s ++ b.rests s
  | .many a, s => repeated a.rests s.length s
  | .ahead a, s => if (a.rests s).isEmpty then [] else [s]
  | .stop, s => if s.isEmpty then [s] else []

/-- What a pattern takes at the start of a text and what is left, if the pattern is found. -/
def match? (a : Pattern) (s : List Char) : Option (List Char × List Char) :=
  (a.rests s).head?.map fun r => (s.take (s.length - r.length), r)

/-- Whether a pattern has to take a character. -/
def takes : Pattern → Bool
  | .char _ => true
  | .seq a b => a.takes || b.takes
  | .alt a b => a.takes && b.takes
  | .many _ | .ahead _ | .stop => false

variable {a b : Pattern} {p : Char → Bool} {c : Char} {r s : List Char}

@[simp] theorem rests_char_cons (p : Char → Bool) (c : Char) (r : List Char) :
    (char p).rests (c :: r) = if p c then [r] else [] := rfl

@[simp] theorem rests_seq (a b : Pattern) (s : List Char) :
    (seq a b).rests s = (a.rests s).flatMap b.rests := rfl

@[simp] theorem rests_alt (a b : Pattern) (s : List Char) :
    (alt a b).rests s = a.rests s ++ b.rests s := rfl

/-! ## Repetitions -/

/-- More steps than characters make no difference. -/
theorem repeated_eq {step : List Char → List (List Char)} {m n : Nat} (hm : s.length ≤ m)
    (hn : s.length ≤ n) : repeated step m s = repeated step n s := by
  induction m generalizing n s with
  | zero =>
    obtain rfl := List.length_eq_zero_iff.1 (Nat.le_zero.1 hm)
    cases n <;> simp [repeated]
  | succ m ih =>
    cases n with
    | zero =>
      obtain rfl := List.length_eq_zero_iff.1 (Nat.le_zero.1 hn)
      simp [repeated]
    | succ n =>
      have hsame : ((step s).filter (·.length < s.length)).flatMap (repeated step m) =
          ((step s).filter (·.length < s.length)).flatMap (repeated step n) := by
        refine List.flatMap_congr fun r hr => ?_
        have hlt := of_decide_eq_true (List.mem_filter.1 hr).2
        exact ih (by omega) (by omega)
      rw [repeated, repeated, hsame]

/-- A repetition of a pattern that takes something: once more, or not any more. -/
theorem rests_many (a : Pattern) (s : List Char) :
    (many a).rests s =
      ((a.rests s).filter (·.length < s.length)).flatMap (many a).rests ++ [s] := by
  have hrest (r : List Char) (hr : r ∈ (a.rests s).filter (·.length < s.length)) :
      repeated a.rests s.length r = (many a).rests r :=
    repeated_eq (Nat.le_of_lt (of_decide_eq_true (List.mem_filter.1 hr).2)) (Nat.le_refl _)
  rw [← List.flatMap_congr hrest]
  exact repeated_eq (Nat.le_refl _) (Nat.le_succ _)

/-! ## What is left -/

theorem mem_rests_many_of_suffix (ha : ∀ s, ∀ r ∈ a.rests s, r <:+ s) (hr : r ∈ (many a).rests s) :
    r <:+ s := by
  induction hlength : s.length using Nat.strongRecOn generalizing s with
  | ind n ih =>
    rw [rests_many, List.mem_append, List.mem_flatMap, List.mem_singleton] at hr
    rcases hr with ⟨t, ht, hr⟩ | rfl
    · obtain ⟨hmem, hlt⟩ := List.mem_filter.1 ht
      exact (ih t.length (hlength ▸ of_decide_eq_true hlt) hr rfl).trans (ha s t hmem)
    · exact List.suffix_refl _

/-- What is left is an end of the text. -/
theorem suffix_of_mem_rests (hr : r ∈ a.rests s) : r <:+ s := by
  induction a generalizing s r with
  | char p =>
    cases s with
    | nil => cases hr
    | cons c s =>
      rw [rests_char_cons] at hr
      split at hr
      · rw [List.mem_singleton.1 hr]
        exact List.suffix_cons c s
      · cases hr
  | seq a b iha ihb =>
    obtain ⟨t, ht, hr⟩ := List.mem_flatMap.1 hr
    exact (ihb hr).trans (iha ht)
  | alt a b iha ihb => exact (List.mem_append.1 hr).elim iha ihb
  | many a ih => exact mem_rests_many_of_suffix (fun _ _ => ih) hr
  | ahead a =>
    rw [rests] at hr
    split at hr
    · cases hr
    · exact List.mem_singleton.1 hr ▸ List.suffix_refl _
  | stop =>
    rw [rests] at hr
    split at hr
    · exact List.mem_singleton.1 hr ▸ List.suffix_refl _
    · cases hr

/-- A pattern that has to take a character leaves less. -/
theorem length_lt_of_mem_rests (ha : a.takes = true) (hr : r ∈ a.rests s) :
    r.length < s.length := by
  induction a generalizing s r with
  | char p =>
    cases s with
    | nil => cases hr
    | cons c s =>
      rw [rests_char_cons] at hr
      split at hr
      · rw [List.mem_singleton.1 hr]
        exact Nat.lt_succ_self _
      · cases hr
  | seq a b iha ihb =>
    obtain ⟨t, ht, hr⟩ := List.mem_flatMap.1 hr
    rcases Bool.or_eq_true_iff.1 ha with ha | hb
    · exact Nat.lt_of_le_of_lt (suffix_of_mem_rests hr).length_le (iha ha ht)
    · exact Nat.lt_of_lt_of_le (ihb hb hr) (suffix_of_mem_rests ht).length_le
  | alt a b iha ihb =>
    obtain ⟨ha, hb⟩ := Bool.and_eq_true_iff.1 ha
    exact (List.mem_append.1 hr).elim (iha ha) (ihb hb)
  | many a => cases ha
  | ahead a => cases ha
  | stop => cases ha

/-- What a pattern takes and what it leaves make up the text. -/
theorem match?_eq_some_iff {u : List Char} :
    a.match? (u ++ r) = .some (u, r) ↔ (a.rests (u ++ r)).head? = .some r := by
  have htake : (u ++ r).take ((u ++ r).length - r.length) = u := by simp
  rw [match?, Option.map_eq_some_iff]
  constructor
  · rintro ⟨r', hr', heq⟩
    rw [hr', (Prod.mk.inj heq).2]
  · intro hr
    exact ⟨r, hr, by rw [htake]⟩

theorem match?_eq_none_iff : a.match? s = none ↔ a.rests s = [] := by
  rw [match?, Option.map_eq_none_iff, List.head?_eq_none_iff]

end Pattern

end MarkupForms.Text
