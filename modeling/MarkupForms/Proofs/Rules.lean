import MarkupForms.Proofs.Places
import MarkupForms.Proofs.References
import MarkupForms.Proofs.Paths
import MarkupForms.Token.Rule

/-!
# The scanner follows the rules

The tokens of a text by the rules are those that the scanner makes character by character.  At each
place the first rule that counts takes what a cut of the text has there: blanks as many as there
are, a parenthesis, a quoted text up to the first quote that no backslash protects, or a run up to
the next delimiter.  A run is a variable or a lone mark only as a whole, since what follows a path
or a mark has to be a delimiter.  Only the quote that is never closed is left for the rule that
refuses it.

* `Location.past_eq` : places are moved on over several characters at once.
* `Token.mem_rests_path_iff`, `Token.rests_closing` : where the patterns for paths and quoted texts
  are found.
* `Token.FirstTakes` : what the first rule takes; `Token.Lexer.next_of_hasSource` : it makes the
  token of a cut.
* `Token.ofRules_eq` : the scanner follows the rules.
-/

namespace MarkupForms

/-- The place after a text, at once and character by character. -/
theorem Location.past_eq (here : Location) (raw : List Char) :
    here.past raw = here.advanceBy raw := by
  induction raw using List.reverseRecOn with
  | nil => simp [past]
  | append_singleton raw c ih =>
    rw [advanceBy_append, ← ih, advanceBy_cons, advanceBy_nil]
    by_cases hc : c = '\n'
    · have hadvance (l : Location) : l.advance c = ⟨l.position + 1, l.line + 1, 1⟩ := by
        rw [advance, if_pos hc]
      rw [hadvance]
      by_cases hcount : raw.count '\n' = 0 <;> simp [past, hc, hcount] <;> omega
    · have hadvance (l : Location) : l.advance c = ⟨l.position + 1, l.line, l.column + 1⟩ := by
        rw [advance, if_neg hc]
      rw [hadvance]
      by_cases hcount : raw.count '\n' = 0 <;>
        simp [past, hc, hcount] <;> omega

namespace Text

/-! ## Names and paths -/

/-- Names with a dot in front of each of them. -/
def withDots (names : List (List Char)) : List Char :=
  names.flatMap ('.' :: ·)

theorem withDots_cons (name : List Char) (names : List (List Char)) :
    withDots (name :: names) = '.' :: (name ++ withDots names) := by
  rw [withDots, List.flatMap_cons, List.cons_append]
  rfl

theorem joinDots_cons (first : List Char) (names : List (List Char)) :
    joinDots (first :: names) = first ++ withDots names := by
  induction names generalizing first with
  | nil => simp [joinDots, withDots]
  | cons name names ih =>
    rw [joinDots, ih, withDots_cons]
    exact List.cons_ne_nil name names

/-- A path is a name, maybe with others after it. -/
theorem isPath_iff_exists_names {u : List Char} : isPath u = true ↔
    ∃ first names, isName first = true ∧ (∀ name ∈ names, isName name = true) ∧
      u = first ++ withDots names := by
  rw [isPath_iff]
  constructor
  · intro h
    obtain ⟨first, names, hsplit⟩ := List.exists_cons_of_ne_nil (splitDots_ne_nil u)
    rw [hsplit] at h
    obtain ⟨hfirst, hnames⟩ := List.forall_mem_cons.1 h
    exact ⟨first, names, hfirst, hnames, by rw [← joinDots_cons, ← hsplit, joinDots_splitDots]⟩
  · rintro ⟨first, names, hfirst, hnames, rfl⟩
    have hall : ∀ name ∈ first :: names, isName name = true :=
      List.forall_mem_cons.2 ⟨hfirst, hnames⟩
    rw [← joinDots_cons, splitDots_joinDots (List.cons_ne_nil first names) fun name hname =>
      (isName_iff.1 (hall name hname)).2]
    exact hall

namespace Pattern

variable {a b : Pattern} {p : Char → Bool} {c : Char} {r s : List Char}

/-! ## Repetitions -/

/-- Once more, or not any more. -/
theorem mem_rests_many_iff : r ∈ (many a).rests s ↔
    (∃ t ∈ a.rests s, t.length < s.length ∧ r ∈ (many a).rests t) ∨ r = s := by
  rw [rests_many]
  simp only [List.mem_append, List.mem_flatMap, List.mem_filter, decide_eq_true_eq, and_assoc,
    List.mem_singleton]

theorem rests_many_char_of_not (h : ∀ c ∈ s.head?, p c = false) :
    (many (char p)).rests s = [s] := by
  rw [rests_many]
  cases s with
  | nil => rfl
  | cons c s => simp [h c rfl]

theorem rests_many_char_cons (hc : p c = true) (s : List Char) :
    (many (char p)).rests (c :: s) = (many (char p)).rests s ++ [c :: s] := by
  rw [rests_many, rests_char_cons, if_pos hc]
  simp

/-- As many characters as possible are taken. -/
theorem head?_rests_many_char {u : List Char} (hu : ∀ c ∈ u, p c = true)
    (hr : ∀ c ∈ r.head?, p c = false) :
    ((many (char p)).rests (u ++ r)).head? = .some r := by
  induction u with
  | nil => rw [List.nil_append, rests_many_char_of_not hr, List.head?_cons]
  | cons c u ih =>
    obtain ⟨hc, hu⟩ := List.forall_mem_cons.1 hu
    rw [List.cons_append, rests_many_char_cons hc, List.head?_append, ih hu]
    rfl

theorem mem_rests_many_char_iff :
    r ∈ (many (char p)).rests s ↔ ∃ u, s = u ++ r ∧ ∀ c ∈ u, p c = true := by
  induction s with
  | nil =>
    rw [rests_many_char_of_not (by simp), List.mem_singleton]
    constructor
    · rintro rfl
      exact ⟨[], rfl, by simp⟩
    · rintro ⟨u, hu, -⟩
      exact (List.append_eq_nil_iff.1 hu.symm).2
  | cons c s ih =>
    rw [mem_rests_many_iff, rests_char_cons]
    constructor
    · rintro (⟨t, ht, -, hr⟩ | rfl)
      · split at ht
        · rename_i hc
          obtain rfl := List.mem_singleton.1 ht
          obtain ⟨u, rfl, hu⟩ := ih.1 hr
          exact ⟨c :: u, rfl, List.forall_mem_cons.2 ⟨hc, hu⟩⟩
        · cases ht
      · exact ⟨[], rfl, by simp⟩
    · rintro ⟨u, hs, hu⟩
      cases u with
      | nil => exact .inr hs.symm
      | cons d u =>
        obtain ⟨rfl, rfl⟩ := List.cons.inj hs
        obtain ⟨hc, hu⟩ := List.forall_mem_cons.1 hu
        exact .inl ⟨u ++ r, by simp [hc], Nat.lt_succ_self _, ih.2 ⟨u, rfl, hu⟩⟩

end Pattern

end Text

namespace Token

open Text Pattern

variable {r s : List Char}

/-! ## Patterns -/

theorem mem_rests_name_iff :
    r ∈ namePattern.rests s ↔ ∃ u, s = u ++ r ∧ isName u = true := by
  rw [namePattern, rests_seq, List.mem_flatMap]
  constructor
  · rintro ⟨t, ht, hr⟩
    cases s with
    | nil => cases ht
    | cons c s =>
      rw [rests_char_cons] at ht
      split at ht
      · rename_i hc
        obtain rfl := List.mem_singleton.1 ht
        obtain ⟨u, rfl, hu⟩ := mem_rests_many_char_iff.1 hr
        exact ⟨c :: u, rfl, by simpa [isName, hc] using hu⟩
      · cases ht
  · rintro ⟨u, rfl, hu⟩
    cases u with
    | nil => cases hu
    | cons c u =>
      simp only [isName, Bool.and_eq_true, List.all_eq_true] at hu
      exact ⟨u ++ r, by simp [hu.1], mem_rests_many_char_iff.2 ⟨u, rfl, hu.2⟩⟩

theorem mem_rests_names_iff : r ∈ (Pattern.many (.seq (.lit '.') namePattern)).rests s ↔
    ∃ names, (∀ name ∈ names, isName name = true) ∧ s = withDots names ++ r := by
  constructor
  · intro hr
    induction hlength : s.length using Nat.strongRecOn generalizing s with
    | ind n ih =>
      obtain ⟨t, ht, hlt, hr⟩ | rfl := mem_rests_many_iff.1 hr
      · obtain ⟨names, hnames, rfl⟩ := ih t.length (hlength ▸ hlt) hr rfl
        rw [rests_seq, List.mem_flatMap] at ht
        obtain ⟨t', ht', ht⟩ := ht
        obtain ⟨name, rfl, hname⟩ := mem_rests_name_iff.1 ht
        cases s with
        | nil => cases ht'
        | cons c s =>
          rw [Pattern.lit, rests_char_cons] at ht'
          split at ht'
          · rename_i hc
            obtain rfl := List.mem_singleton.1 ht'
            refine ⟨name :: names, List.forall_mem_cons.2 ⟨hname, hnames⟩, ?_⟩
            rw [withDots_cons, eq_of_beq hc, List.cons_append, List.append_assoc]
          · cases ht'
      · exact ⟨[], by simp, rfl⟩
  · rintro ⟨names, hnames, rfl⟩
    induction names with
    | nil => exact mem_rests_many_iff.2 (.inr rfl)
    | cons name names ih =>
      obtain ⟨hname, hnames⟩ := List.forall_mem_cons.1 hnames
      refine mem_rests_many_iff.2 (.inl ⟨withDots names ++ r, ?_, ?_, ih hnames⟩)
      · rw [rests_seq, List.mem_flatMap]
        exact ⟨name ++ (withDots names ++ r), by simp [withDots_cons, Pattern.lit],
          mem_rests_name_iff.2 ⟨name, rfl, hname⟩⟩
      · have hsuffix : withDots names ++ r <:+ name ++ (withDots names ++ r) :=
          List.suffix_append _ _
        rw [withDots_cons, List.cons_append, List.append_assoc]
        exact Nat.lt_succ_of_le hsuffix.length_le

/-- The pattern for paths is found in front of what it leaves exactly when a path is. -/
theorem mem_rests_path_iff : r ∈ pathPattern.rests s ↔ ∃ u, s = u ++ r ∧ isPath u = true := by
  rw [pathPattern, rests_seq, List.mem_flatMap]
  simp only [mem_rests_name_iff, mem_rests_names_iff, isPath_iff_exists_names]
  constructor
  · rintro ⟨_, ⟨first, rfl, hfirst⟩, names, hnames, rfl⟩
    exact ⟨first ++ withDots names, by simp, first, names, hfirst, hnames, rfl⟩
  · rintro ⟨_, rfl, first, names, hfirst, hnames, rfl⟩
    exact ⟨withDots names ++ r, ⟨first, by simp, hfirst⟩, names, hnames, rfl⟩

/-! ## Quoted texts -/

theorem rests_unit_plain {c : Char} (hquote : c ≠ '"') (hslash : c ≠ '\\') (s : List Char) :
    bodyUnit.rests (c :: s) = [s] := by
  simp [bodyUnit, Pattern.lit, hquote, hslash]

theorem rests_unit_guarded (c : Char) (s : List Char) : bodyUnit.rests ('\\' :: c :: s) = [s] := by
  simp [bodyUnit, Pattern.lit]

theorem rests_unit_quote (s : List Char) : bodyUnit.rests ('"' :: s) = [] := by
  simp [bodyUnit, Pattern.lit]

/-- What is taken from the text between quotes is part of one that nothing closes. -/
theorem exists_isBody_of_mem_rests (hr : r ∈ bodyPattern.rests s) :
    ∃ body, IsBody body ∧ s = body ++ r := by
  induction hlength : s.length using Nat.strongRecOn generalizing s with
  | ind n ih =>
    obtain ⟨t, ht, hlt, hr⟩ | rfl := mem_rests_many_iff.1 hr
    · obtain ⟨body, hbody, rfl⟩ := ih t.length (hlength ▸ hlt) hr rfl
      match s with
      | [] => cases ht
      | c :: s =>
        by_cases hquote : c = '"'
        · rw [hquote, rests_unit_quote] at ht
          cases ht
        by_cases hslash : c = '\\'
        · subst hslash
          match s with
          | [] => cases ht
          | d :: s =>
            rw [rests_unit_guarded, List.mem_singleton] at ht
            exact ⟨'\\' :: d :: body, .guarded hbody, by rw [← ht]; rfl⟩
        · rw [rests_unit_plain hquote hslash, List.mem_singleton] at ht
          exact ⟨c :: body, .plain hquote hslash hbody, by rw [← ht]; rfl⟩
    · exact ⟨[], .nil, rfl⟩

theorem rests_quote_of_ne {c : Char} (hc : c ≠ '"') (s : List Char) :
    (Pattern.lit '"').rests (c :: s) = [] := by
  simp [Pattern.lit, hc]

theorem rests_body_quote (s : List Char) : bodyPattern.rests ('"' :: s) = ['"' :: s] := by
  rw [bodyPattern, rests_many, rests_unit_quote]
  rfl

theorem rests_body_plain {c : Char} (hquote : c ≠ '"') (hslash : c ≠ '\\') (s : List Char) :
    bodyPattern.rests (c :: s) = bodyPattern.rests s ++ [c :: s] := by
  rw [bodyPattern, rests_many, rests_unit_plain hquote hslash]
  simp

theorem rests_body_guarded (c : Char) (s : List Char) :
    bodyPattern.rests ('\\' :: c :: s) = bodyPattern.rests s ++ ['\\' :: c :: s] := by
  have hlt : s.length < ('\\' :: c :: s).length := Nat.lt_add_of_pos_right (Nat.succ_pos 1)
  have hkept : [s].filter (·.length < ('\\' :: c :: s).length) = [s] :=
    List.filter_eq_self.2 fun t ht => decide_eq_true (List.mem_singleton.1 ht ▸ hlt)
  rw [bodyPattern, rests_many, rests_unit_guarded, hkept, List.flatMap_singleton]

/-- The quote after a text between quotes is found, and no other one. -/
theorem rests_closing {body : List Char} (hbody : IsBody body) (r : List Char) :
    (bodyPattern.rests (body ++ '"' :: r)).flatMap (Pattern.lit '"').rests = [r] := by
  induction hbody with
  | nil =>
    rw [List.nil_append, rests_body_quote]
    simp [Pattern.lit]
  | plain hquote hslash _ ih =>
    rw [List.cons_append, rests_body_plain hquote hslash, List.flatMap_append, ih]
    simp [rests_quote_of_ne hquote]
  | guarded _ ih =>
    rw [List.cons_append, List.cons_append, rests_body_guarded, List.flatMap_append, ih]
    simp [rests_quote_of_ne]

/-- No quote is found when there is none to be found. -/
theorem rests_closing_of_neverCloses (h : NeverCloses s) :
    (bodyPattern.rests s).flatMap (Pattern.lit '"').rests = [] := by
  refine List.flatMap_eq_nil_iff.2 fun t ht => ?_
  obtain ⟨body, hbody, rfl⟩ := exists_isBody_of_mem_rests ht
  cases t with
  | nil => rfl
  | cons c t =>
    refine rests_quote_of_ne ?_ t
    rintro rfl
    exact h body t hbody rfl

/-! ## Runs -/

open Scanner (StartsApart isDelimiter)

theorem mem_rests_atDelimiter_iff : r ∈ atDelimiter.rests s ↔ r = s ∧ StartsApart s := by
  cases s with
  | nil => simp [atDelimiter, rests, StartsApart]
  | cons c s =>
    by_cases hc : isDelimiter c = true <;> simp [atDelimiter, rests, StartsApart, hc]

/-- A path is found at the start of a run exactly when it is all of it. -/
theorem mem_rests_wholePath_iff {w : List Char} (hw : ∀ c ∈ w, isDelimiter c = false)
    (hr : StartsApart r) {t : List Char} :
    t ∈ (Pattern.seq pathPattern atDelimiter).rests (w ++ r) ↔ t = r ∧ isPath w = true := by
  simp only [rests_seq, List.mem_flatMap, mem_rests_path_iff, mem_rests_atDelimiter_iff]
  constructor
  · rintro ⟨_, ⟨u, heq, hu⟩, rfl, ht⟩
    have hpath : ∀ c ∈ u, isDelimiter c = false := fun c => isDelimiter_of_mem_path hu
    obtain rfl := run_unique heq hw hpath hr ht
    exact ⟨(List.append_cancel_left heq).symm, hu⟩
  · rintro ⟨rfl, hpath⟩
    exact ⟨t, ⟨w, rfl, hpath⟩, rfl, hr⟩

theorem head?_eq_some_of_forall {l : List (List Char)} (hr : r ∈ l) (h : ∀ t ∈ l, t = r) :
    l.head? = some r := by
  cases l with
  | nil => cases hr
  | cons t l => rw [List.head?_cons, h t List.mem_cons_self]

/-! ## The first rule that counts -/

section

variable {p : Char → Bool} {b : Pattern} {c d : Char}

theorem match?_lit (c : Char) (r : List Char) : (Pattern.lit c).match? (c :: r) = some ([c], r) :=
  (match?_eq_some_iff (u := [c])).2 (by simp [Pattern.lit])

theorem match?_lit_of_ne (hc : d ≠ c) (r : List Char) : (Pattern.lit c).match? (d :: r) = none :=
  match?_eq_none_iff.2 (by simp [Pattern.lit, hc])

theorem match?_seq_lit {u : List Char} (h : (b.rests (u ++ r)).head? = some r) (c : Char) :
    (Pattern.seq (.lit c) b).match? (c :: (u ++ r)) = some (c :: u, r) :=
  (match?_eq_some_iff (u := c :: u)).2 (by simpa [Pattern.lit] using h)

theorem match?_seq_lit_of_ne (hc : d ≠ c) (b : Pattern) (r : List Char) :
    (Pattern.seq (.lit c) b).match? (d :: r) = none :=
  match?_eq_none_iff.2 (by simp [Pattern.lit, hc])

/-- As many characters as possible, and at least one. -/
theorem match?_some_char {w : List Char} (hne : w ≠ []) (hw : ∀ c ∈ w, p c = true)
    (hr : ∀ c ∈ r.head?, p c = false) : (Pattern.some (.char p)).match? (w ++ r) = some (w, r) := by
  obtain ⟨c, w, rfl⟩ := List.exists_cons_of_ne_nil hne
  obtain ⟨hc, hw⟩ := List.forall_mem_cons.1 hw
  refine match?_eq_some_iff.2 ?_
  simpa [Pattern.some, hc] using head?_rests_many_char hw hr

theorem match?_some_char_of_not (hc : p c = false) (r : List Char) :
    (Pattern.some (.char p)).match? (c :: r) = none :=
  match?_eq_none_iff.2 (by simp [Pattern.some, hc])

/-- Whether the first rule that counts takes some text and makes something of it. -/
def FirstTakes (s : List Char) (make : Rule.Make) (raw rest : List Char) : Prop :=
  ∃ rule, firstRule? s = some (rule, raw, rest) ∧ rule.make = make

theorem firstTakes_blanks {w : List Char} (hne : w ≠ []) (hw : ∀ c ∈ w, isBlank c = true)
    (hr : ∀ c ∈ r.head?, isBlank c = false) : FirstTakes (w ++ r) .nothing w r := by
  have hfound := match?_some_char hne hw hr
  simp [FirstTakes, firstRule?, rules, hfound]

theorem firstTakes_open (r : List Char) : FirstTakes ('(' :: r) (.plain .lparen) ['('] r := by
  have hblank := match?_some_char_of_not (show isBlank '(' = false by decide) r
  simp [FirstTakes, firstRule?, rules, hblank, match?_lit]

theorem firstTakes_close (r : List Char) : FirstTakes (')' :: r) (.plain .rparen) [')'] r := by
  have hblank := match?_some_char_of_not (show isBlank ')' = false by decide) r
  simp [FirstTakes, firstRule?, rules, hblank, match?_lit, match?_lit_of_ne]

theorem firstTakes_quoted {body : List Char} (hbody : IsBody body) (r : List Char) :
    FirstTakes ('"' :: (body ++ '"' :: r)) .string ('"' :: (body ++ ['"'])) r := by
  have hblank := match?_some_char_of_not (show isBlank '"' = false by decide) (body ++ '"' :: r)
  have hfound : (Pattern.seq (.lit '"') (.seq bodyPattern (.lit '"'))).match?
      ('"' :: (body ++ '"' :: r)) = some ('"' :: (body ++ ['"']), r) := by
    have hclosing := rests_closing hbody r
    rw [List.append_cons] at hclosing ⊢
    exact match?_seq_lit (by rw [rests_seq, hclosing]; rfl) '"'
  simp [FirstTakes, firstRule?, rules, hblank, hfound, match?_lit_of_ne]

theorem firstTakes_unclosed {v : List Char} (hv : NeverCloses v) :
    FirstTakes ('"' :: v) .unclosed ['"'] v := by
  have hblank := match?_some_char_of_not (show isBlank '"' = false by decide) v
  have hnone : (Pattern.seq (.lit '"') (.seq bodyPattern (.lit '"'))).match? ('"' :: v) = none := by
    refine match?_eq_none_iff.2 ?_
    simpa [Pattern.lit] using rests_closing_of_neverCloses hv
  simp [FirstTakes, firstRule?, rules, hblank, hnone, match?_lit, match?_lit_of_ne]

/-- In front of a run, the rules for blanks, parentheses and quotes do not count. -/
theorem firstRule?_of_not_isDelimiter (hc : isDelimiter c = false) (r : List Char) :
    firstRule? (c :: r) = (rules.drop 5).findSome? fun rule =>
      (rule.pattern.match? (c :: r)).map fun found => (rule, found) := by
  simp only [isDelimiter, Bool.or_eq_false_iff, beq_eq_false_iff_ne, ne_eq] at hc
  obtain ⟨⟨⟨hblank, hopen⟩, hclose⟩, hquote⟩ := hc
  have hblanks := match?_some_char_of_not hblank r
  simp [firstRule?, rules, hblanks, match?_lit_of_ne, match?_seq_lit_of_ne, hopen, hclose, hquote]

theorem firstTakes_var {path : List Char} (hpath : isPath path = true) (hr : StartsApart r) :
    FirstTakes ('$' :: (path ++ r)) .var ('$' :: path) r := by
  have hplain : ∀ c ∈ path, isDelimiter c = false := fun c => isDelimiter_of_mem_path hpath
  have hmem {t : List Char} := mem_rests_wholePath_iff hplain hr (t := t)
  have hfound := match?_seq_lit
    (head?_eq_some_of_forall (hmem.2 ⟨rfl, hpath⟩) fun t ht => (hmem.1 ht).1) '$'
  simp [FirstTakes, firstRule?_of_not_isDelimiter (show isDelimiter '$' = false by decide), rules,
    hfound]

theorem firstTakes_mark (hr : StartsApart r) : FirstTakes ('@' :: r) .mark ['@'] r := by
  have hrest : (atDelimiter.rests ([] ++ r)).head? = some r :=
    head?_eq_some_of_forall (mem_rests_atDelimiter_iff.2 ⟨rfl, hr⟩) fun t ht =>
      (mem_rests_atDelimiter_iff.1 ht).1
  have hfound := match?_seq_lit hrest '@'
  rw [List.nil_append] at hfound
  simp [FirstTakes, firstRule?_of_not_isDelimiter (show isDelimiter '@' = false by decide), rules,
    hfound, match?_seq_lit_of_ne]

/-- No reference is found in front of another run. -/
theorem match?_reference_eq_none {w : List Char} (hw : ∀ c ∈ w, isDelimiter c = false)
    (hr : StartsApart r) (hvar : c = '$' → isPath w = false) :
    (Pattern.seq (.lit '$') (.seq pathPattern atDelimiter)).match? (c :: (w ++ r)) = none := by
  by_cases hc : c = '$'
  · refine match?_eq_none_iff.2 (List.eq_nil_iff_forall_not_mem.2 fun t ht => ?_)
    have hmem : t ∈ (Pattern.seq pathPattern atDelimiter).rests (w ++ r) := by
      simpa [hc, Pattern.lit] using ht
    have hpath := ((mem_rests_wholePath_iff hw hr).1 hmem).2
    rw [hvar hc] at hpath
    cases hpath
  · exact match?_seq_lit_of_ne hc _ _

/-- No lone mark is found in front of another run. -/
theorem match?_mark_eq_none {w : List Char} (hw : ∀ c ∈ w, isDelimiter c = false)
    (hmark : c = '@' → w ≠ []) :
    (Pattern.seq (.lit '@') atDelimiter).match? (c :: (w ++ r)) = none := by
  by_cases hc : c = '@'
  · refine match?_eq_none_iff.2 (List.eq_nil_iff_forall_not_mem.2 fun t ht => ?_)
    have hmem : t ∈ atDelimiter.rests (w ++ r) := by simpa [hc, Pattern.lit] using ht
    exact not_startsApart_of_isWord ⟨hmark hc, hw⟩ (mem_rests_atDelimiter_iff.1 hmem).2
  · exact match?_seq_lit_of_ne hc _ _

theorem firstTakes_atom {w : List Char} (hw : IsWord w) (hr : StartsApart r)
    (hvar : ∀ path, isPath path = true → w ≠ '$' :: path) (hmark : w ≠ ['@']) :
    FirstTakes (w ++ r) (.plain .atom) w r := by
  obtain ⟨c, w, rfl⟩ := List.exists_cons_of_ne_nil hw.1
  obtain ⟨hc, hplain⟩ := List.forall_mem_cons.1 hw.2
  have hreference := match?_reference_eq_none (c := c) hplain hr fun hsign =>
    Bool.not_eq_true _ ▸ fun hpath => hvar w hpath (hsign ▸ rfl)
  have hlone := match?_mark_eq_none (c := c) (r := r) hplain fun hsign hnil =>
    hmark (by rw [hsign, hnil])
  have hfound : (Pattern.some (.char fun c => !isDelimiter c)).match? (c :: (w ++ r)) =
      some (c :: w, r) :=
    match?_some_char hw.1 (by simpa using hw.2) (by simpa [StartsApart] using hr)
  rw [List.cons_append]
  simp [FirstTakes, firstRule?_of_not_isDelimiter hc, rules, hreference, hlone, hfound]

end

/-! ## Rules one after the other -/

namespace Lexer

variable {ts : List Token} {here : Location} {t : Token} {u v : List Char} {xs : List Lexeme}

/-- What is made of the text that the first rule takes. -/
theorem next_eq {make : Rule.Make} {raw rest : List Char} (hfirst : FirstTakes s make raw rest) :
    next ⟨ts, here, s⟩ = (make.push raw here ts).map (⟨·, here.advanceBy raw, rest⟩) := by
  obtain ⟨rule, hrule, rfl⟩ := hfirst
  rw [next, hrule]
  change (do return Lexer.mk (← rule.make.push raw here ts) (here.past raw) rest) = _
  rw [Location.past_eq]
  cases rule.make.push raw here ts <;> rfl

/-- One rule after the other. -/
theorem finish_eq {l : Lexer} (hne : l.rest ≠ []) : l.finish = l.next.bind finish := by
  rw [finish, if_neg hne]
  split
  all_goals
    rename_i hnext
    rw [hnext]
    rfl

theorem finish_of_next {l l' : Lexer} (hne : l.rest ≠ []) (h : l.next = .ok l') :
    l.finish = l'.finish := by
  rw [finish_eq hne, h]
  rfl

/-- A token is made of its source by the first rule that counts. -/
theorem next_of_hasSource {source rest : List Char}
    (h : HasSource (Scanner.endsOpen ts) here t source) (hcut : IsWord source → StartsApart rest) :
    next ⟨ts, here, source ++ rest⟩ = .ok ⟨t :: ts, here.advanceBy source, rest⟩ := by
  cases h with
  | lparen => exact next_eq (firstTakes_open rest)
  | rparen => exact next_eq (firstTakes_close rest)
  | @string body hbody =>
    have hfirst := firstTakes_quoted hbody rest
    rw [List.append_cons] at hfirst
    refine (next_eq hfirst).trans ?_
    simp [Rule.Make.push, Except.map]
  | var hpath => exact next_eq (firstTakes_var hpath (hcut (isWord_reference hpath)))
  | mark hopen =>
    refine (next_eq (firstTakes_mark (hcut (by decide)))).trans ?_
    rw [Rule.Make.push, hopen]
    rfl
  | atom hw hvar hmark =>
    by_cases hlone : source = ['@']
    · subst hlone
      have hopen : Scanner.endsOpen ts = false := Bool.not_eq_true _ ▸ fun h => hmark h rfl
      refine (next_eq (firstTakes_mark (hcut hw))).trans ?_
      rw [Rule.Make.push, hopen]
      rfl
    · exact next_eq (firstTakes_atom hw (hcut hw) hvar hlone)

/-- Several blanks are taken at once, or one after the other. -/
theorem finish_blank {c : Char} (hc : isBlank c = true) (r : List Char) :
    finish ⟨ts, here, c :: r⟩ = finish ⟨ts, here.advance c, r⟩ := by
  have hblanks : ∀ d ∈ r.takeWhile isBlank, isBlank d = true := fun d => List.mem_takeWhile_imp
  have hrest : ∀ d ∈ (r.dropWhile isBlank).head?, isBlank d = false := by
    intro d hd
    have hhead := List.head?_dropWhile_not isBlank r
    rw [Option.mem_def] at hd
    simpa [hd] using hhead
  rw [← List.takeWhile_append_dropWhile (p := isBlank) (l := r)]
  generalize r.takeWhile isBlank = w at *
  generalize r.dropWhile isBlank = r' at *
  have hfirst : next ⟨ts, here, (c :: w) ++ r'⟩ = .ok ⟨ts, here.advanceBy (c :: w), r'⟩ :=
    next_eq (firstTakes_blanks (List.cons_ne_nil c w) (List.forall_mem_cons.2 ⟨hc, hblanks⟩) hrest)
  refine (finish_of_next (List.cons_ne_nil c _) hfirst).trans ?_
  by_cases hw : w = []
  · rw [hw]
    rfl
  · have hrun : next ⟨ts, here.advance c, w ++ r'⟩ =
        .ok ⟨ts, (here.advance c).advanceBy w, r'⟩ :=
      next_eq (firstTakes_blanks hw hblanks hrest)
    exact (finish_of_next (by simp [hw]) hrun).symm

/-- The tokens of a cut are made by the rules, one after the other. -/
theorem finish_of_cuts (h : Cuts (Scanner.endsOpen ts) here u xs) (hv : StartsApart v) :
    finish ⟨ts, here, u ++ v⟩ =
      finish ⟨(xs.map Lexeme.token).reverse ++ ts, here.advanceBy u, v⟩ := by
  generalize hopen : Scanner.endsOpen ts = afterOpen at h
  induction h generalizing ts with
  | nil => rfl
  | blank hc _ ih => exact (finish_blank hc _).trans (ih hopen)
  | @token _ here t source rest xs hsource hcut _ ih =>
    subst hopen
    have hcut' : IsWord source → StartsApart (rest ++ v) := by
      intro hw
      cases rest with
      | nil => exact hv
      | cons c rest => exact hcut hw
    have hne : source ++ (rest ++ v) ≠ [] := by simp [hsource.ne_nil]
    rw [List.append_assoc, finish_of_next hne (next_of_hasSource hsource hcut'), ih rfl,
      Location.advanceBy_append]
    simp

end Lexer

/-- **The scanner follows the rules.**  For every text, the tokens by the rules are those of the
scanner, with the same places, and a text without tokens has the same fault.  So some rule counts at
every place: the fault for a place where none does is never reported. -/
theorem ofRules_eq (text : List Char) : ofRules text = (scan text).mapError .unclosed := by
  rcases cuts_or_breaks false .origin text with ⟨xs, hxs⟩ | ⟨opened, hbreaks⟩
  · have hall : ofRules (text ++ []) = Lexer.finish
        ⟨(xs.map Lexeme.token).reverse ++ [], Location.origin.advanceBy text, []⟩ :=
      Lexer.finish_of_cuts hxs fun c hc => by cases hc
    rw [List.append_nil] at hall
    rw [hall, scan_of_cuts hxs, Lexer.finish, if_pos rfl]
    simp [Except.mapError]
  · rw [scan_of_breaks hbreaks]
    obtain ⟨u, v, xs, rfl, hxs, hv, rfl⟩ := hbreaks
    have hall : ofRules (u ++ '"' :: v) = Lexer.finish
        ⟨(xs.map Lexeme.token).reverse ++ [], Location.origin.advanceBy u, '"' :: v⟩ := by
      refine Lexer.finish_of_cuts hxs fun c hc => ?_
      rw [← Option.some.inj hc]
      decide
    rw [hall, Lexer.finish_eq (List.cons_ne_nil '"' v), Lexer.next_eq (firstTakes_unclosed hv)]
    rfl

end Token

end MarkupForms
