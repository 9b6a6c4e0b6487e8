import MarkupForms.Text.Integer
import Mathlib.Data.Nat.Digits.Defs
import Mathlib.Data.List.DropRight

/-!
# How integers are written

An integer may be written in many ways: with blanks around it, with a sign, with digits of any
script and with underscores between digits.  Here the ways to write one are given as a grammar, and
reading a text is compared with it: the reader finds the integer that a text spells and refuses all
other texts.  One of the ways is the canonical one, in which integers are printed.

How many digits a text may have is a matter of its own, so the limit is a parameter here.

* `Text.Spells` : the texts that spell an integer.
* `Text.readSigned_iff` : reading a text without blanks around it.
* `Text.readIntegerWithin_iff` : a text is read as an integer exactly if it spells it, within the
  limit.
* `Text.spells_toString` : what is printed spells the integer.
-/

namespace MarkupForms.Text

/-! ## Digits -/

/-- The number that decimal digits make up, the first one counting most. -/
def valueOf (ds : List Nat) : Nat :=
  Nat.ofDigits 10 ds.reverse

/-- What may follow a digit: more digits, each of them right away or after an underscore. -/
inductive Continues : List Char → List Nat → Prop where
  /-- The end. -/
  | nil : Continues [] []
  /-- A digit. -/
  | digit {c : Char} {d : Nat} {cs : List Char} {ds : List Nat} (hc : decimalDigit? c = some d)
      (h : Continues cs ds) : Continues (c :: cs) (d :: ds)
  /-- A digit after an underscore. -/
  | underscore {c : Char} {d : Nat} {cs : List Char} {ds : List Nat}
      (hc : decimalDigit? c = some d) (h : Continues cs ds) : Continues ('_' :: c :: cs) (d :: ds)

/-- The ways to write a natural number: a digit and what may follow it. -/
inductive Numeral : List Char → Nat → Prop where
  /-- The first digit and the others. -/
  | digits {c : Char} {d : Nat} {cs : List Char} {ds : List Nat} (hc : decimalDigit? c = some d)
      (h : Continues cs ds) : Numeral (c :: cs) (valueOf (d :: ds))

/-- The ways to write an integer without blanks around it. -/
inductive Signed : List Char → Int → Prop where
  /-- Without a sign. -/
  | bare {cs : List Char} {n : Nat} (h : Numeral cs n) : Signed cs n
  /-- With the sign of a positive number. -/
  | plus {cs : List Char} {n : Nat} (h : Numeral cs n) : Signed ('+' :: cs) n
  /-- With the sign of a negative number. -/
  | minus {cs : List Char} {n : Nat} (h : Numeral cs n) : Signed ('-' :: cs) (-n)

/-- Whether a text spells an integer: with blanks before and after it, or without them. -/
def Spells (s : String) (n : Int) : Prop :=
  ∃ before cs after, s.toList = before ++ cs ++ after ∧ (∀ c ∈ before, isBlank c = true) ∧
    (∀ c ∈ after, isBlank c = true) ∧ Signed cs n

theorem foldl_digits (n : Nat) (ds : List Nat) :
    ds.foldl (fun n d => 10 * n + d) n = n * 10 ^ ds.length + valueOf ds := by
  induction ds generalizing n with
  | nil => simp [valueOf]
  | cons d ds ih =>
    rw [List.foldl_cons, ih, valueOf, valueOf, List.reverse_cons, Nat.ofDigits_append,
      List.length_reverse, Nat.ofDigits_singleton, List.length_cons, pow_succ]
    ring

theorem foldl_digits_zero (ds : List Nat) : ds.foldl (fun n d => 10 * n + d) 0 = valueOf ds := by
  rw [foldl_digits, Nat.zero_mul, Nat.zero_add]

/-- No script has its digits among the blanks. -/
theorem isBlank_of_decimalDigit? {c : Char} {d : Nat} (h : decimalDigit? c = some d) :
    isBlank c = false := by
  have hzeros : ∀ first ∈ scriptZeros, 0xA0 < first ∧ first + 10 ≤ 0x1680 ∨
      0x1680 < first ∧ first + 10 ≤ 0x2000 ∨ 0x3000 < first := by decide
  unfold decimalDigit? at h
  split at h
  · split at h
    · rename_i hdigit
      have hrange := Char.isDigit_iff_toNat.1 hdigit
      simp only [Char.reduceToNat] at hrange
      simp only [isBlank, Bool.or_eq_false_iff, Bool.and_eq_false_iff, decide_eq_false_iff_not,
        beq_eq_false_iff_ne]
      omega
    · cases h
  · obtain ⟨first, hfind, rfl⟩ := Option.map_eq_some_iff.1 h
    have hfirst := hzeros first (List.mem_of_find?_eq_some hfind)
    have hrange := List.find?_some hfind
    simp only [Bool.and_eq_true, decide_eq_true_eq] at hrange
    simp only [isBlank, Bool.or_eq_false_iff, Bool.and_eq_false_iff, decide_eq_false_iff_not,
      beq_eq_false_iff_ne]
    omega

/-! ## Reading -/

theorem readDigits_iff (n : Nat) (cs : List Char) (v : Nat) :
    readDigits n cs = some v ↔
      ∃ ds, Continues cs ds ∧ v = ds.foldl (fun n d => 10 * n + d) n := by
  have hunderscore : decimalDigit? '_' = none := rfl
  fun_induction readDigits n cs with
  | case1 n =>
    constructor
    · rintro ⟨⟩
      exact ⟨[], .nil, rfl⟩
    · rintro ⟨ds, ⟨⟩, rfl⟩
      rfl
  | case2 n c r ih =>
    constructor
    · intro h
      obtain ⟨d, hc, hr⟩ := Option.bind_eq_some_iff.1 h
      obtain ⟨ds, hds, hv⟩ := (ih d).1 hr
      exact ⟨d :: ds, .underscore hc hds, hv⟩
    · rintro ⟨ds, hds, hv⟩
      cases hds with
      | digit hc _ =>
        rw [hunderscore] at hc
        cases hc
      | underscore hc hds => exact Option.bind_eq_some_iff.2 ⟨_, hc, (ih _).2 ⟨_, hds, hv⟩⟩
  | case3 n c r hne ih =>
    constructor
    · intro h
      obtain ⟨d, hc, hr⟩ := Option.bind_eq_some_iff.1 h
      obtain ⟨ds, hds, hv⟩ := (ih d).1 hr
      exact ⟨d :: ds, .digit hc hds, hv⟩
    · rintro ⟨ds, hds, hv⟩
      cases hds with
      | digit hc hds => exact Option.bind_eq_some_iff.2 ⟨_, hc, (ih _).2 ⟨_, hds, hv⟩⟩
      | underscore hc hds => exact absurd rfl (hne _ _ rfl)

theorem readNatural_iff (cs : List Char) (v : Nat) : readNatural cs = some v ↔ Numeral cs v := by
  constructor
  · intro h
    cases cs with
    | nil => cases h
    | cons c r =>
      obtain ⟨d, hc, hr⟩ := Option.bind_eq_some_iff.1 h
      obtain ⟨ds, hds, rfl⟩ := (readDigits_iff d r v).1 hr
      have hvalue := foldl_digits_zero (d :: ds)
      rw [List.foldl_cons, Nat.mul_zero, Nat.zero_add] at hvalue
      rw [hvalue]
      exact .digits hc hds
  · rintro ⟨hc, hds⟩
    rename_i c d cs ds
    refine Option.bind_eq_some_iff.2 ⟨d, hc, (readDigits_iff d cs _).2 ⟨ds, hds, ?_⟩⟩
    rw [← foldl_digits_zero, List.foldl_cons, Nat.mul_zero, Nat.zero_add]

theorem readSigned_of_digit {c : Char} {d : Nat} (hc : decimalDigit? c = some d) (cs : List Char) :
    readSigned (c :: cs) = (readNatural (c :: cs)).map Int.ofNat := by
  unfold readSigned
  split
  · rename_i heq
    obtain ⟨rfl, -⟩ := List.cons.inj heq
    cases hc
  · rename_i heq
    obtain ⟨rfl, -⟩ := List.cons.inj heq
    cases hc
  · rfl

/-- Reading a text without blanks around it. -/
theorem readSigned_iff (cs : List Char) (n : Int) : readSigned cs = some n ↔ Signed cs n := by
  constructor
  · intro h
    unfold readSigned at h
    split at h
    all_goals
      obtain ⟨m, hm, rfl⟩ := Option.map_eq_some_iff.1 h
      have hnumeral := (readNatural_iff _ m).1 hm
    · exact .plus hnumeral
    · exact .minus hnumeral
    · exact .bare hnumeral
  · intro h
    cases h with
    | bare h =>
      have hread := (readNatural_iff _ _).2 h
      cases h with
      | digits hc hds =>
        rename_i c d cs ds
        rw [readSigned_of_digit hc, hread]
        rfl
    | plus h =>
      rw [readSigned, (readNatural_iff _ _).2 h]
      rfl
    | minus h =>
      rw [readSigned, (readNatural_iff _ _).2 h]
      rfl

/-! ## Blanks -/

/-- Whether a character may be part of an integer. -/
def IsNumeric (c : Char) : Prop :=
  c ∈ ['_', '+', '-'] ∨ ∃ d, decimalDigit? c = some d

theorem Continues.isNumeric {cs : List Char} {ds : List Nat} (h : Continues cs ds) :
    ∀ c ∈ cs, IsNumeric c := by
  induction h with
  | nil => simp
  | digit hc _ ih => exact List.forall_mem_cons.2 ⟨.inr ⟨_, hc⟩, ih⟩
  | underscore hc _ ih =>
    exact List.forall_mem_cons.2 ⟨.inl (by simp), List.forall_mem_cons.2 ⟨.inr ⟨_, hc⟩, ih⟩⟩

theorem Numeral.isNumeric {cs : List Char} {n : Nat} (h : Numeral cs n) :
    ∀ c ∈ cs, IsNumeric c := by
  obtain ⟨hc, hds⟩ := h
  exact List.forall_mem_cons.2 ⟨.inr ⟨_, hc⟩, hds.isNumeric⟩

theorem Signed.isNumeric {cs : List Char} {n : Int} (h : Signed cs n) : ∀ c ∈ cs, IsNumeric c := by
  cases h with
  | bare h => exact h.isNumeric
  | plus h => exact List.forall_mem_cons.2 ⟨.inl (by simp), h.isNumeric⟩
  | minus h => exact List.forall_mem_cons.2 ⟨.inl (by simp), h.isNumeric⟩

theorem IsNumeric.not_blank {c : Char} (h : IsNumeric c) : isBlank c = false := by
  rcases h with hmem | ⟨d, hd⟩
  · simp only [List.mem_cons, List.not_mem_nil, or_false] at hmem
    rcases hmem with rfl | rfl | rfl <;> rfl
  · exact isBlank_of_decimalDigit? hd

theorem not_isNumeric_sign : ¬ IsNumeric '$' := by
  rintro (hmem | ⟨d, hd⟩)
  · simp at hmem
  · cases hd

/-- A text that spells an integer refers to no variable. -/
theorem Spells.not_mem_sign {s : String} {n : Int} (h : Spells s n) : '$' ∉ s.toList := by
  obtain ⟨before, cs, after, hs, hbefore, hafter, hsigned⟩ := h
  rw [hs, List.mem_append, List.mem_append]
  rintro ((hmem | hmem) | hmem)
  · cases hbefore _ hmem
  · exact not_isNumeric_sign (hsigned.isNumeric _ hmem)
  · cases hafter _ hmem

theorem dropWhile_isBlank {s : List Char} (h : ∀ c ∈ s, isBlank c = false) :
    s.dropWhile isBlank = s :=
  List.dropWhile_eq_self_iff.2 fun hs => by rw [h _ (List.getElem_mem hs)]; exact Bool.false_ne_true

theorem stripBlanks_append {before cs after : List Char} (hbefore : ∀ c ∈ before, isBlank c = true)
    (hafter : ∀ c ∈ after, isBlank c = true) (hcs : ∀ c ∈ cs, isBlank c = false) :
    stripBlanks (before ++ cs ++ after) = cs := by
  have hreverse : ∀ c ∈ cs.reverse, isBlank c = false := fun c hc => hcs c (List.mem_reverse.1 hc)
  rw [stripBlanks, List.append_assoc, List.dropWhile_append_of_pos hbefore, List.dropWhile_append,
    dropWhile_isBlank hcs]
  cases cs with
  | nil =>
    rw [List.isEmpty_nil, if_pos rfl, List.dropWhile_eq_nil_iff.2 hafter]
    rfl
  | cons c cs =>
    rw [List.isEmpty_cons, if_neg Bool.false_ne_true, List.reverse_append,
      List.dropWhile_append_of_pos fun d hd => hafter d (List.mem_reverse.1 hd),
      dropWhile_isBlank hreverse, List.reverse_reverse]

/-- What is stripped is blank. -/
theorem exists_append_stripBlanks (s : List Char) :
    ∃ before after, s = before ++ stripBlanks s ++ after ∧ (∀ c ∈ before, isBlank c = true) ∧
      ∀ c ∈ after, isBlank c = true := by
  refine ⟨s.takeWhile isBlank, (s.dropWhile isBlank).rtakeWhile isBlank, ?_,
    fun c hc => List.mem_takeWhile_imp hc, fun c hc => List.mem_rtakeWhile_imp hc⟩
  have hstrip : stripBlanks s = (s.dropWhile isBlank).rdropWhile isBlank := rfl
  rw [hstrip, List.append_assoc, List.rdropWhile_append_rtakeWhile,
    List.takeWhile_append_dropWhile]

/-! ## Texts -/

/-- The integer that a text denotes if texts may not have more digits than a limit. -/
def readIntegerWithin (limit : Option Nat) (s : String) : Option Int :=
  if ∀ n ∈ limit, digitCount s ≤ n then readSigned (stripBlanks s.toList) else none

theorem readIntegerWithin_digitLimit (s : String) :
    readIntegerWithin (some digitLimit) s = readInteger s := by
  simp only [readIntegerWithin, readInteger, Option.mem_some_iff, forall_eq']

/-- Whether a text spells an integer without more digits than a limit. -/
def SpellsWithin (limit : Option Nat) (s : String) (n : Int) : Prop :=
  Spells s n ∧ ∀ l ∈ limit, digitCount s ≤ l

theorem readSigned_stripBlanks_iff (s : String) (n : Int) :
    readSigned (stripBlanks s.toList) = some n ↔ Spells s n := by
  rw [readSigned_iff]
  constructor
  · intro h
    obtain ⟨before, after, hs, hbefore, hafter⟩ := exists_append_stripBlanks s.toList
    exact ⟨before, _, after, hs, hbefore, hafter, h⟩
  · rintro ⟨before, cs, after, hs, hbefore, hafter, hsigned⟩
    rw [hs, stripBlanks_append hbefore hafter fun c hc => (hsigned.isNumeric c hc).not_blank]
    exact hsigned

/-- **Integers are read as they are spelled.**  A text is read as an integer exactly if it spells it
and has no more digits than the limit allows, if there is one. -/
theorem readIntegerWithin_iff (limit : Option Nat) (s : String) (n : Int) :
    readIntegerWithin limit s = some n ↔ SpellsWithin limit s n := by
  rw [readIntegerWithin, SpellsWithin, ← readSigned_stripBlanks_iff]
  split
  · rename_i h
    exact ⟨fun hread => ⟨hread, h⟩, And.left⟩
  · rename_i h
    exact ⟨fun hread => (by cases hread), fun hread => absurd hread.2 h⟩

/-! ## Printing -/

theorem valueOf_toDigits (n : Nat) :
    valueOf ((Nat.toDigits 10 n).map fun c => c.toNat - 0x30) = n := by
  rw [← foldl_digits_zero, List.foldl_map]
  exact Nat.ofDigitChars_toDigits (by decide) (by decide)

theorem continues_of_isDigit {cs : List Char} (h : ∀ c ∈ cs, c.isDigit = true) :
    Continues cs (cs.map fun c => c.toNat - 0x30) := by
  induction cs with
  | nil => exact .nil
  | cons c cs ih =>
    exact .digit (decimalDigit?_ascii (h c List.mem_cons_self))
      (ih fun d hd => h d (List.mem_cons_of_mem c hd))

theorem numeral_repr (n : Nat) : Numeral n.repr.toList n := by
  have hdigits : ∀ c ∈ Nat.toDigits 10 n, c.isDigit = true :=
    fun c hc => Nat.isDigit_of_mem_toDigits (by decide) (by decide) hc
  have hvalue := valueOf_toDigits n
  rw [Nat.toList_repr]
  cases hcs : Nat.toDigits 10 n with
  | nil => exact absurd hcs Nat.toDigits_ne_nil
  | cons c cs =>
    rw [hcs] at hdigits hvalue
    have hnumeral := Numeral.digits (decimalDigit?_ascii (hdigits c List.mem_cons_self))
      (continues_of_isDigit fun d hd => hdigits d (List.mem_cons_of_mem c hd))
    rwa [← List.map_cons (f := fun c : Char => c.toNat - 0x30), hvalue] at hnumeral

/-- What is printed spells the integer. -/
theorem spells_toString (n : Int) : Spells (toString n) n := by
  have hsigned : Signed (toString n).toList n := by
    cases n with
    | ofNat m => exact .bare (numeral_repr m)
    | negSucc m =>
      change Signed ("-" ++ (m + 1).repr).toList (-((m + 1 : Nat) : Int))
      rw [String.toList_append]
      exact .minus (numeral_repr (m + 1))
  exact ⟨[], _, [], by simp, by simp, by simp, hsigned⟩

end MarkupForms.Text
