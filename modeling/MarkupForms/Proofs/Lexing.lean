import MarkupForms.Token.Scanner
import Mathlib.Data.List.Chain

/-!
# What the scanner makes of a text

A scanner that stands between two tokens reads a word, which is a run without delimiters, into one
token, and so it does with a quoted text, which ends at the first quote that no backslash protects.
A word ends before a delimiter, whatever it is; so the tokens of a text that is put together from
pieces are those of the pieces, as long as each piece starts with a delimiter.

The other way round, every token that the scanner makes is written in a certain way: its value is
a word, a path, or anything at all between quotes.

* `Text.isPath_iff` : a path is names with dots between them.
* `Text.isBody_encodeBody` : what is written between two quotes has no unprotected quote.
* `Scanner.yields_word`, `Scanner.yields_quoted` : words and quoted texts are single tokens.
* `Scanner.Yields.append` : the tokens of two pieces.
* `Token.spelled_of_scan` : how the tokens of a text are written.
-/

namespace MarkupForms

/-! ## Names and paths -/

namespace Text

/-- No blank stands inside a name. -/
theorem isWord_of_isBlank {c : Char} (h : isBlank c = true) : isWord c = false := by
  have hcodes : ∀ n ∈ [9, 10, 11, 12, 13, 28, 29, 30, 31, 32, 0x85, 0xA0, 0x1680, 0x2000, 0x2001,
      0x2002, 0x2003, 0x2004, 0x2005, 0x2006, 0x2007, 0x2008, 0x2009, 0x200A, 0x2028, 0x2029,
      0x202F, 0x205F, 0x3000], isWord (Char.ofNat n) = false := by decide +kernel
  have hc := hcodes c.toNat
  rw [Char.ofNat_toNat] at hc
  apply hc
  simp only [isBlank, Bool.or_eq_true, Bool.and_eq_true, decide_eq_true_eq, beq_iff_eq] at h
  simp only [List.mem_cons, List.not_mem_nil, or_false]
  omega

theorem isNameChar_of_isNameStart {c : Char} (h : isNameStart c = true) : isNameChar c = true := by
  have hascii : c.toNat < 0x80 := by
    rw [isNameStart, Bool.or_eq_true] at h
    rcases h with hletter | hline
    · exact lt_of_isAlphanum (Bool.or_eq_true_iff.2 (.inl hletter))
    · rw [eq_of_beq hline]
      decide
  rw [isNameStart, Bool.or_eq_true] at h
  rw [isNameChar, isWord_of_ascii hascii, isAsciiWord, Char.isAlphanum]
  rcases h with h | h <;> simp [h]

/-- No delimiter stands inside a name. -/
theorem isDelimiter_of_isNameChar {c : Char} (h : isNameChar c = true) :
    Scanner.isDelimiter c = false := by
  have hblank : isBlank c = false := by
    cases hb : isBlank c with
    | false => rfl
    | true =>
      rw [isNameChar, isWord_of_isBlank hb, Bool.false_or, beq_iff_eq] at h
      rw [h] at hb
      exact absurd hb (by decide)
  have hparens : c ≠ '(' ∧ c ≠ ')' ∧ c ≠ '"' := by
    refine ⟨?_, ?_, ?_⟩ <;> rintro rfl <;> exact absurd h (by decide)
  simp [Scanner.isDelimiter, hblank, hparens]

/-- What follows a character of a name continues a path to its end exactly when its first segment
continues the name and the others are names. -/
theorem pathTail_eq_length_iff {s first : List Char} {rest : List (List Char)}
    (h : splitDots s = first :: rest) :
    pathTail s = s.length ↔ first.all isNameChar = true ∧ ∀ seg ∈ rest, isName seg = true := by
  fun_induction pathTail s generalizing first rest with
  | case1 =>
    obtain ⟨rfl, rfl⟩ := List.cons.inj h
    simp
  | case2 c r hc ih =>
    have hdot : c ≠ '.' := by rintro rfl; exact absurd hc (by decide)
    obtain ⟨u, us, hr⟩ := List.exists_cons_of_ne_nil (splitDots_ne_nil r)
    simp only [splitDots, if_true, if_neg hdot, hr, List.cons.injEq] at h
    obtain ⟨rfl, rfl⟩ := h
    simpa [isName, hc] using ih hr
  | case3 c r hc =>
    have hempty : 0 ≠ (('.' :: c :: r).length) := by simp
    simp only [hempty, false_iff, not_and, not_forall]
    intro _
    by_cases hdot : c = '.'
    · simp only [splitDots, if_true, hdot, List.cons.injEq] at h
      obtain ⟨rfl, rfl⟩ := h
      exact ⟨[], by simp, by simp [isName]⟩
    · obtain ⟨u, us, hr⟩ := List.exists_cons_of_ne_nil (splitDots_ne_nil r)
      simp only [splitDots, if_true, if_neg hdot, hr, List.cons.injEq] at h
      obtain ⟨rfl, rfl⟩ := h
      exact ⟨c :: u, by simp, by simp [isName, hc]⟩
  | case4 c r _ hc ih =>
    have hdot : c ≠ '.' := by rintro rfl; exact absurd hc (by decide)
    obtain ⟨u, us, hr⟩ := List.exists_cons_of_ne_nil (splitDots_ne_nil r)
    simp only [splitDots, if_neg hdot, hr, List.cons.injEq] at h
    obtain ⟨rfl, rfl⟩ := h
    simpa [hc] using ih hr
  | case5 c r hlone hc =>
    have hempty : 0 ≠ ((c :: r).length) := by simp
    simp only [hempty, false_iff, not_and, not_forall]
    by_cases hdot : c = '.'
    · cases r with
      | cons d r => exact absurd rfl (hlone d r hdot)
      | nil =>
        simp only [splitDots, if_pos hdot, List.cons.injEq] at h
        obtain ⟨rfl, rfl⟩ := h
        exact fun _ => ⟨[], by simp, by simp [isName]⟩
    · obtain ⟨u, us, hr⟩ := List.exists_cons_of_ne_nil (splitDots_ne_nil r)
      simp only [splitDots, if_neg hdot, hr, List.cons.injEq] at h
      obtain ⟨rfl, rfl⟩ := h
      simp [hc]

/-- A path is names with dots between them. -/
theorem isPath_iff (s : List Char) : isPath s = true ↔ ∀ seg ∈ splitDots s, isName seg = true := by
  cases s with
  | nil => simp [isPath, pathLength, splitDots, isName]
  | cons c r =>
    obtain ⟨u, us, hr⟩ := List.exists_cons_of_ne_nil (splitDots_ne_nil r)
    have htail := pathTail_eq_length_iff hr
    by_cases hc : isNameStart c = true
    · have hdot : c ≠ '.' := by rintro rfl; exact absurd hc (by decide)
      simpa [isPath, pathLength, hc, splitDots, hdot, hr, isName] using htail
    · have hpath : isPath (c :: r) = false := by simp [isPath, pathLength, hc]
      rw [hpath]
      by_cases hdot : c = '.' <;> simp [splitDots, hdot, hr, isName, hc]

/-- Every character that is no dot stands in a segment. -/
theorem exists_mem_splitDots {s : List Char} {c : Char} (hc : c ∈ s) (hdot : c ≠ '.') :
    ∃ seg ∈ splitDots s, c ∈ seg := by
  induction s with
  | nil => cases hc
  | cons d r ih =>
    obtain ⟨u, us, hr⟩ := List.exists_cons_of_ne_nil (splitDots_ne_nil r)
    rcases List.mem_cons.1 hc with rfl | hmem
    · exact ⟨c :: u, by simp [splitDots, hdot, hr], by simp⟩
    · obtain ⟨seg, hseg, hin⟩ := ih hmem
      by_cases hd : d = '.'
      · exact ⟨seg, by simp [splitDots, hd, hseg], hin⟩
      · rw [hr] at hseg
        rcases List.mem_cons.1 hseg with rfl | hseg
        · exact ⟨d :: seg, by simp [splitDots, hd, hr], by simp [hin]⟩
        · exact ⟨seg, by simp [splitDots, hd, hr, hseg], hin⟩

theorem isNameChar_of_mem_name {s : List Char} (h : isName s = true) {c : Char} (hc : c ∈ s) :
    isNameChar c = true := by
  cases s with
  | nil => cases hc
  | cons d r =>
    simp only [isName, Bool.and_eq_true, List.all_eq_true] at h
    rcases List.mem_cons.1 hc with rfl | hmem
    · exact isNameChar_of_isNameStart h.1
    · exact h.2 c hmem

/-- No delimiter stands inside a path. -/
theorem isDelimiter_of_mem_path {s : List Char} (h : isPath s = true) {c : Char} (hc : c ∈ s) :
    Scanner.isDelimiter c = false := by
  by_cases hdot : c = '.'
  · rw [hdot]
    decide
  · obtain ⟨seg, hseg, hin⟩ := exists_mem_splitDots hc hdot
    exact isDelimiter_of_isNameChar (isNameChar_of_mem_name ((isPath_iff s).1 h seg hseg) hin)

/-! ## Quoted texts -/

/-- The characters between two quotes: neither a quote nor a backslash, except that a backslash
protects the character after it. -/
inductive IsBody : List Char → Prop where
  /-- Nothing. -/
  | nil : IsBody []
  /-- A character that stands alone. -/
  | plain {c : Char} {s : List Char} (hquote : c ≠ '"') (hslash : c ≠ '\\') (hs : IsBody s) :
      IsBody (c :: s)
  /-- A protected character. -/
  | guarded {c : Char} {s : List Char} (hs : IsBody s) : IsBody ('\\' :: c :: s)

/-- Each quote and each backslash between the quotes is protected. -/
theorem isBody_encodeBody (s : List Char) : IsBody (encodeBody s) := by
  induction s with
  | nil => exact .nil
  | cons c s ih =>
    rw [encodeBody_cons, encodeChar]
    split
    case isTrue => exact .guarded ih
    case isFalse hplain =>
      rw [not_or] at hplain
      exact .plain hplain.1 hplain.2 ih

end Text

/-! ## Words -/

/-- A run of characters that the scanner reads as one token. -/
def IsWord (w : List Char) : Prop :=
  w ≠ [] ∧ ∀ c ∈ w, Scanner.isDelimiter c = false

instance (w : List Char) : Decidable (IsWord w) :=
  @instDecidableAnd _ _ inferInstance (List.decidableBAll _ w)

/-- A word that is read as a bare atom wherever it stands. -/
def IsAtom (w : List Char) : Prop :=
  IsWord w ∧ Scanner.isReference w = false ∧ w ≠ ['@']

instance (w : List Char) : Decidable (IsAtom w) :=
  inferInstanceAs (Decidable (_ ∧ _))

/-- The sign of a variable and a path make a word. -/
theorem isWord_reference {path : List Char} (h : Text.isPath path = true) :
    IsWord ('$' :: path) := by
  refine ⟨by simp, fun c hc => ?_⟩
  rcases List.mem_cons.1 hc with rfl | hmem
  · decide
  · exact Text.isDelimiter_of_mem_path h hmem

namespace Scanner

/-! ## Pieces of a text -/

/-- Whether the scanner stands outside of quotes. -/
def IsOutside (s : Scanner) : Prop :=
  ∀ start chars guarded, s.mode ≠ .quoted start chars guarded

/-- Reading a text makes the given tokens. -/
def Yields (s : Scanner) (u : List Char) (ts : List Token) : Prop :=
  (s.run u).IsOutside ∧ (s.run u).closeRun.tokens = ts.reverse ++ s.tokens

theorem isOutside_of_between {s : Scanner} (h : s.mode = .between) : s.IsOutside := by
  intro start chars guarded
  simp [h]

theorem mode_closeRun {s : Scanner} (h : s.IsOutside) : s.closeRun.mode = .between := by
  unfold closeRun
  split
  case h_1 => rfl
  case h_2 hrun =>
    cases hm : s.mode with
    | between => rfl
    | run start chars => exact absurd hm (hrun start chars)
    | quoted start chars guarded => exact absurd hm (h start chars guarded)

theorem closeRun_of_between {s : Scanner} (h : s.mode = .between) : s.closeRun = s := by
  simp [closeRun, h]

theorem cursor_closeRun (s : Scanner) : s.closeRun.cursor = s.cursor := by
  unfold closeRun
  split <;> rfl

/-- A delimiter ends the run before it. -/
theorem read_closeRun {s : Scanner} (h : s.IsOutside) {c : Char} (hc : isDelimiter c = true) :
    s.closeRun.read c = s.read c := by
  have hclosed := mode_closeRun h
  cases hm : s.mode with
  | between => rw [closeRun_of_between hm]
  | run start chars => simp only [read, hclosed, hm, hc, if_true]
  | quoted start chars guarded => exact absurd hm (h start chars guarded)

theorem run_closeRun {s : Scanner} (h : s.IsOutside) {c : Char} (hc : isDelimiter c = true)
    (u : List Char) : s.closeRun.run (c :: u) = s.run (c :: u) := by
  simp only [run_cons, step, read_closeRun h hc, cursor_closeRun]

/-- The tokens of two pieces, the second of which starts with a delimiter. -/
theorem Yields.append {s : Scanner} {u v : List Char} {ts us : List Token} (hu : s.Yields u ts)
    (hv : (s.run u).closeRun.Yields v us) (hcut : ∀ c ∈ v.head?, isDelimiter c = true) :
    s.Yields (u ++ v) (ts ++ us) := by
  have hrun : s.run (u ++ v) = (s.run u).closeRun.run v ∨ v = [] := by
    cases v with
    | nil => exact .inr rfl
    | cons c v => exact .inl (by rw [run_append, run_closeRun hu.1 (hcut c rfl)])
  rcases hrun with hrun | rfl
  · rw [Yields, hrun, List.reverse_append, List.append_assoc, ← hu.2]
    exact hv
  · have hus : us = [] := by
      have htokens := hv.2
      rw [run_nil, closeRun_of_between (mode_closeRun hu.1)] at htokens
      simpa using htokens
    simpa [hus] using hu

/-- The tokens of a character that makes some at once, and of what follows it. -/
theorem Yields.cons {s : Scanner} {c : Char} {v : List Char} {ts us : List Token}
    (hc : (s.step c).tokens = ts.reverse ++ s.tokens) (hv : (s.step c).Yields v us) :
    s.Yields (c :: v) (ts ++ us) := by
  refine ⟨hv.1, ?_⟩
  rw [run_cons, hv.2, hc, List.reverse_append, List.append_assoc]

/-! ## Single tokens -/

variable {s : Scanner}

theorem yields_nil (hs : s.mode = .between) : s.Yields [] [] :=
  ⟨isOutside_of_between hs, by rw [run_nil, closeRun_of_between hs]; rfl⟩

theorem step_blank (hs : s.mode = .between) {c : Char} (hc : Text.isBlank c = true) :
    s.step c = { s with cursor := s.cursor.advance c } := by
  simp [step, read, hs, startToken, hc]

theorem step_open (hs : s.mode = .between) :
    s.step '(' = { s with tokens := ⟨.lparen, "(", s.cursor⟩ :: s.tokens,
                          cursor := s.cursor.advance '(' } := by
  have hblank : Text.isBlank '(' = false := by decide
  simp [step, read, hs, startToken, hblank]

theorem step_close (hs : s.mode = .between) :
    s.step ')' = { s with tokens := ⟨.rparen, ")", s.cursor⟩ :: s.tokens,
                          cursor := s.cursor.advance ')' } := by
  have hblank : Text.isBlank ')' = false := by decide
  simp [step, read, hs, startToken, hblank]

/-- Ordinary characters make a run longer. -/
theorem run_inside {start : Location} {chars w : List Char} (hs : s.mode = .run start chars)
    (hw : ∀ c ∈ w, isDelimiter c = false) :
    s.run w = ⟨s.tokens, s.cursor.advanceBy w, .run start (w.reverse ++ chars)⟩ := by
  induction w generalizing s chars with
  | nil =>
    rw [List.reverse_nil, List.nil_append, ← hs]
    rfl
  | cons c w ih =>
    have hc : isDelimiter c = false := hw c List.mem_cons_self
    have hstep : s.step c = ⟨s.tokens, s.cursor.advance c, .run start (c :: chars)⟩ := by
      simp [step, read, hs, hc]
    rw [run_cons, hstep, ih rfl fun d hd => hw d (List.mem_cons_of_mem c hd)]
    simp

/-- A word starts a run and fills it. -/
theorem run_word (hs : s.mode = .between) {w : List Char} (hw : IsWord w) :
    s.run w = ⟨s.tokens, s.cursor.advanceBy w, .run s.cursor w.reverse⟩ := by
  obtain ⟨c, w, rfl⟩ := List.exists_cons_of_ne_nil hw.1
  have hc : isDelimiter c = false := hw.2 c List.mem_cons_self
  have hstep : s.step c = ⟨s.tokens, s.cursor.advance c, .run s.cursor [c]⟩ := by
    simp only [isDelimiter, Bool.or_eq_false_iff, beq_eq_false_iff_ne] at hc
    simp [step, read, hs, startToken, hc]
  rw [run_cons, hstep, run_inside rfl fun d hd => hw.2 d (List.mem_cons_of_mem c hd)]
  simp

/-- A word is one token. -/
theorem yields_word (hs : s.mode = .between) {w : List Char} (hw : IsWord w) :
    s.Yields w [runToken (endsOpen s.tokens) s.cursor w] := by
  rw [Yields, run_word hs hw]
  refine ⟨fun _ _ _ => by simp, ?_⟩
  simp [closeRun]

theorem runToken_of_isAtom {w : List Char} (hw : IsAtom w) (afterOpen : Bool) (l : Location) :
    runToken afterOpen l w = ⟨.atom, String.ofList w, l⟩ := by
  simp [runToken, hw.2.1, hw.2.2]

/-- The characters between quotes are kept as they are written. -/
theorem run_body {start : Location} {chars body : List Char} (hbody : Text.IsBody body)
    (hs : s.mode = .quoted start chars false) :
    s.run body =
      ⟨s.tokens, s.cursor.advanceBy body, .quoted start (body.reverse ++ chars) false⟩ := by
  induction hbody generalizing s chars with
  | nil =>
    rw [List.reverse_nil, List.nil_append, ← hs]
    rfl
  | @plain c body hquote hslash _ ih =>
    have hstep : s.step c = ⟨s.tokens, s.cursor.advance c, .quoted start (c :: chars) false⟩ := by
      simp [step, read, hs, hquote, hslash]
    rw [run_cons, hstep, ih rfl]
    simp
  | @guarded c body _ ih =>
    have hstep : (s.step '\\').step c =
        ⟨s.tokens, (s.cursor.advance '\\').advance c,
          .quoted start (c :: '\\' :: chars) false⟩ := by
      simp [step, read, hs]
    rw [run_cons, run_cons, hstep, ih rfl]
    simp

/-- A quoted text is one token, and the scanner stands between tokens after it. -/
theorem run_quoted (hs : s.mode = .between) {body : List Char} (hbody : Text.IsBody body) :
    s.run ('"' :: (body ++ ['"'])) =
      ⟨⟨.string, String.ofList (Text.decodeBody body), s.cursor⟩ :: s.tokens,
        s.cursor.advanceBy ('"' :: (body ++ ['"'])), .between⟩ := by
  have hblank : Text.isBlank '"' = false := by decide
  have hopen : s.step '"' = ⟨s.tokens, s.cursor.advance '"', .quoted s.cursor [] false⟩ := by
    simp [step, read, hs, startToken, hblank]
  rw [run_cons, hopen, run_append, run_body hbody rfl]
  simp [step, read, Location.advanceBy_append]

/-- A quoted text is one token. -/
theorem yields_quoted (hs : s.mode = .between) (t : List Char) :
    s.Yields (Text.quoteChars t) [⟨.string, String.ofList t, s.cursor⟩] := by
  have hrun := run_quoted hs (Text.isBody_encodeBody t)
  rw [Text.decodeBody_encodeBody] at hrun
  rw [Yields, Text.quoteChars, List.cons_append, hrun]
  exact ⟨isOutside_of_between rfl, rfl⟩

end Scanner

/-! ## How the tokens of a text are written -/

/-- How a token that is made from a text is written: a bare atom is a word and no reference, a
variable is a path, and the end of the text is never made. -/
def Token.IsSpelled (t : Token) : Prop :=
  match t.kind with
  | .atom => IsWord t.value.toList ∧ Scanner.isReference t.value.toList = false
  | .var => Text.isPath t.value.toList = true
  | .eof => False
  | _ => True

/-- Directly after an opening parenthesis a lone `@` is no atom. -/
def Token.MayPrecede (t u : Token) : Prop :=
  t.kind = .lparen → u.kind = .atom → u.value ≠ "@"

/-- How a sequence of tokens that is made from a text is written. -/
def Token.AreSpelled (ts : List Token) : Prop :=
  (∀ t ∈ ts, t.IsSpelled) ∧ ts.IsChain Token.MayPrecede

theorem Token.areSpelled_append {ts us : List Token} (h : AreSpelled (ts ++ us)) :
    AreSpelled ts ∧ AreSpelled us :=
  ⟨⟨fun t ht => h.1 t (List.mem_append_left us ht), (List.isChain_append.1 h.2).1⟩,
    ⟨fun t ht => h.1 t (List.mem_append_right ts ht), (List.isChain_append.1 h.2).2.1⟩⟩

theorem Token.areSpelled_cons {t : Token} {ts : List Token} (h : AreSpelled (t :: ts)) :
    t.IsSpelled ∧ AreSpelled ts ∧ ∀ u ∈ ts.head?, t.MayPrecede u :=
  have hchain := List.isChain_cons.1 h.2
  ⟨h.1 t List.mem_cons_self, ⟨fun u hu => h.1 u (List.mem_cons_of_mem t hu), hchain.2⟩, hchain.1⟩

/-- One token more at the end. -/
theorem Token.AreSpelled.concat {ts : List Token} {t : Token} (h : AreSpelled ts.reverse)
    (ht : t.IsSpelled) (hlast : ∀ u ∈ ts.head?, u.MayPrecede t) :
    AreSpelled (t :: ts).reverse := by
  rw [List.reverse_cons]
  refine ⟨fun u hu => ?_, List.isChain_append.2 ⟨h.2, .singleton t, fun u hu v hv => ?_⟩⟩
  · rcases List.mem_append.1 hu with hu | hu
    · exact h.1 u hu
    · exact List.mem_singleton.1 hu ▸ ht
  · rw [List.head?_cons, Option.mem_some_iff] at hv
    rw [List.getLast?_reverse] at hu
    exact hv ▸ hlast u hu

namespace Scanner

/-- What every scanner keeps: its tokens are written as they should be, and a run is a word. -/
structure IsSound (s : Scanner) : Prop where
  tokens : Token.AreSpelled s.tokens.reverse
  run : ∀ start chars, s.mode = .run start chars → IsWord chars.reverse

/-- Only an atom is restricted in what it may follow. -/
theorem mayPrecede_of_ne_atom {t : Token} (ht : t.kind ≠ .atom) (u : Token) : u.MayPrecede t :=
  fun _ hatom => absurd hatom ht

/-- The token of a run is written as it should be, also after the token before it. -/
theorem isSpelled_runToken {w : List Char} (hw : IsWord w) (ts : List Token) (l : Location) :
    (runToken (endsOpen ts) l w).IsSpelled ∧
      ∀ u ∈ ts.head?, u.MayPrecede (runToken (endsOpen ts) l w) := by
  unfold runToken
  split
  case isTrue href =>
    refine ⟨?_, fun u _ => mayPrecede_of_ne_atom (by simp) u⟩
    unfold isReference at href
    split at href
    · simpa [Token.IsSpelled] using href
    · cases href
  case isFalse href =>
    split
    case isTrue => exact ⟨trivial, fun u _ => mayPrecede_of_ne_atom (by simp) u⟩
    case isFalse hmark =>
      have hplain : isReference w = false := Bool.eq_false_iff.2 href
      refine ⟨by simpa [Token.IsSpelled] using ⟨hw, hplain⟩, ?_⟩
      intro u hu hopen _ hvalue
      refine hmark ⟨?_, ?_⟩
      · simpa using congrArg String.toList hvalue
      · cases ts with
        | nil => cases hu
        | cons t ts =>
          rw [List.head?_cons, Option.mem_some_iff] at hu
          simp [endsOpen, hu, hopen]

theorem IsSound.closeRun {s : Scanner} (h : s.IsSound) : s.closeRun.IsSound := by
  unfold Scanner.closeRun
  split
  case h_1 start chars hm =>
    have hword := isSpelled_runToken (h.run start chars hm) s.tokens start
    exact ⟨h.tokens.concat hword.1 hword.2, fun _ _ hmode => by cases hmode⟩
  case h_2 => exact h

/-- A scanner with one token more, between two tokens. -/
theorem IsSound.push {s : Scanner} (h : s.IsSound) {t : Token} (ht : t.IsSpelled)
    (hatom : t.kind ≠ .atom) (hs : s.mode = .between) :
    IsSound { s with tokens := t :: s.tokens } :=
  ⟨h.tokens.concat ht fun u _ => mayPrecede_of_ne_atom hatom u,
    fun start chars hm => by simp [hs] at hm⟩

theorem IsSound.startToken {s : Scanner} (h : s.IsSound) (hs : s.mode = .between) (c : Char) :
    (s.startToken c).IsSound := by
  unfold Scanner.startToken
  split
  case isTrue => exact h
  split
  case isTrue => exact h.push trivial (by simp) hs
  split
  case isTrue => exact h.push trivial (by simp) hs
  split
  case isTrue => exact ⟨h.tokens, fun _ _ hm => by cases hm⟩
  case isFalse hblank hopen hclose hquote =>
    refine ⟨h.tokens, fun start chars hm => ?_⟩
    cases hm
    refine ⟨by simp, fun d hd => ?_⟩
    have hdc : d = c := by simpa using hd
    simp [isDelimiter, hdc, hblank, hopen, hclose, hquote]

/-- One character keeps a scanner sound. -/
theorem IsSound.read {s : Scanner} (h : s.IsSound) (c : Char) : (s.read c).IsSound := by
  unfold Scanner.read
  split
  case h_1 hm => exact h.startToken hm c
  case h_2 start chars hm =>
    split
    case isTrue =>
      have hout : s.IsOutside := fun _ _ _ => by simp [hm]
      exact h.closeRun.startToken (mode_closeRun hout) c
    case isFalse hplain =>
      refine ⟨h.tokens, fun start' chars' hm' => ?_⟩
      cases hm'
      have hword := h.run start chars hm
      rw [List.reverse_cons]
      refine ⟨by simp, fun d hd => ?_⟩
      rcases List.mem_append.1 hd with hd | hd
      · exact hword.2 d hd
      · simpa [List.mem_singleton.1 hd] using hplain
  case h_3 start chars guarded hm =>
    split
    · exact ⟨h.tokens, fun _ _ hm => by cases hm⟩
    split
    · exact ⟨h.tokens, fun _ _ hm => by cases hm⟩
    split
    · exact ⟨h.tokens.concat trivial fun u _ => mayPrecede_of_ne_atom (by simp) u,
        fun _ _ hm => by cases hm⟩
    · exact ⟨h.tokens, fun _ _ hm => by cases hm⟩

theorem IsSound.step {s : Scanner} (h : s.IsSound) (c : Char) : (s.step c).IsSound :=
  ⟨(h.read c).tokens, (h.read c).run⟩

/-- Any text keeps a scanner sound. -/
theorem IsSound.run_text {s : Scanner} (h : s.IsSound) (text : List Char) :
    (s.run text).IsSound := by
  induction text generalizing s with
  | nil => exact h
  | cons c text ih => exact ih (h.step c)

theorem isSound_initial : initial.IsSound :=
  ⟨⟨fun t ht => by simp [initial] at ht, .nil⟩, fun _ _ hm => by cases hm⟩

end Scanner

/-- **How the tokens of a text are written.**  Apart from the end of the text, they are words, paths
and quoted texts, and no lone `@` is an atom directly after an opening parenthesis. -/
theorem Token.spelled_of_scan {text : List Char} {ts : List Token} (h : Token.scan text = .ok ts) :
    ∃ us e, ts = us ++ [e] ∧ e.kind = .eof ∧ AreSpelled us := by
  have hsound := (Scanner.isSound_initial.run_text text).closeRun
  unfold Token.scan Scanner.finish at h
  split at h
  · cases h
  · obtain rfl := Except.ok.inj h
    exact ⟨_, _, rfl, rfl, hsound.tokens⟩

/-- The tokens of a text that the scanner reads from the start. -/
theorem Token.scan_of_yields {text : List Char} {ts : List Token}
    (h : Scanner.initial.Yields text ts) :
    ∃ e, e.kind = .eof ∧ Token.scan text = .ok (ts ++ [e]) := by
  refine ⟨⟨.eof, "", (Scanner.initial.run text).cursor⟩, rfl, ?_⟩
  unfold Token.scan Scanner.finish
  split
  case h_1 start chars guarded hm => exact absurd hm (h.1 start chars guarded)
  case h_2 =>
    rw [h.2]
    simp [Scanner.initial]

end MarkupForms
