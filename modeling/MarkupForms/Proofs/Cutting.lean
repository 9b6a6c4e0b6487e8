import MarkupForms.Proofs.RoundTrip

/-!
# Texts are cut into tokens

A text is cut into tokens and blanks between them.  A parenthesis is a token of its own, a quoted
text ends at the first quote that no backslash protects, and a run of other characters is as long
as it can be.  The only text that cannot be cut is one with a quote that is never closed, where what
stands before the quote can be cut.

The cut goes from left to right, one token or one blank at a time, and it carries along where it is
and whether the token before is an opening parenthesis; the scanner does the same character by
character.

* `Token.Cuts` : how a text is cut; `Token.HasSource` : what a single token is read from.
* `Token.cuts_or_breaks` : a text can be cut, or it has a quote that is never closed.
* `Token.scan_of_cuts`, `Token.scan_of_breaks` : what the scanner makes of it.
-/

namespace MarkupForms

/-! ## Quotes that are never closed -/

namespace Text

/-- Whether an opening quote in front of a text is never closed. -/
def NeverCloses (v : List Char) : Prop :=
  ∀ body rest, IsBody body → v ≠ body ++ '"' :: rest

theorem NeverCloses.of_plain {c : Char} {v : List Char} (h : NeverCloses (c :: v))
    (hslash : c ≠ '\\') : c ≠ '"' ∧ NeverCloses v := by
  have hquote : c ≠ '"' := by
    rintro rfl
    exact h [] v .nil rfl
  refine ⟨hquote, ?_⟩
  rintro body rest hbody rfl
  exact h (c :: body) rest (.plain hquote hslash hbody) rfl

theorem NeverCloses.of_guarded {c : Char} {v : List Char} (h : NeverCloses ('\\' :: c :: v)) :
    NeverCloses v := by
  rintro body rest hbody rfl
  exact h ('\\' :: c :: body) rest (.guarded hbody) rfl

end Text

/-! ## Cuts -/

/-- A token and the characters that it is read from. -/
structure Lexeme where
  /-- The token. -/
  token : Token
  /-- The characters. -/
  source : List Char

namespace Lexeme

/-- The position of the first character. -/
def start (x : Lexeme) : Int :=
  x.token.location.position

/-- The position after the last character. -/
def stop (x : Lexeme) : Int :=
  x.start + x.source.length

/-- Whether a character belongs to the token. -/
def Covers (x : Lexeme) (i : Int) : Prop :=
  x.start ≤ i ∧ i < x.stop

end Lexeme

namespace Token

open Scanner (StartsApart)

/-- The characters that a token at a place is read from, given whether the token before it is an
opening parenthesis. -/
inductive HasSource (afterOpen : Bool) (l : Location) : Token → List Char → Prop where
  /-- An opening parenthesis. -/
  | lparen : HasSource afterOpen l ⟨.lparen, "(", l⟩ ['(']
  /-- A closing parenthesis. -/
  | rparen : HasSource afterOpen l ⟨.rparen, ")", l⟩ [')']
  /-- A text between quotes. -/
  | string {body : List Char} (hbody : Text.IsBody body) :
      HasSource afterOpen l ⟨.string, String.ofList (Text.decodeBody body), l⟩
        ('"' :: (body ++ ['"']))
  /-- The sign of a variable and a path. -/
  | var {path : List Char} (hpath : Text.isPath path = true) :
      HasSource afterOpen l ⟨.var, String.ofList path, l⟩ ('$' :: path)
  /-- A lone mark after an opening parenthesis. -/
  | mark (hopen : afterOpen = true) : HasSource afterOpen l ⟨.mark, "@", l⟩ ['@']
  /-- Any other run. -/
  | atom {w : List Char} (hw : IsWord w)
      (hvar : ∀ path, Text.isPath path = true → w ≠ '$' :: path)
      (hmark : afterOpen = true → w ≠ ['@']) : HasSource afterOpen l ⟨.atom, String.ofList w, l⟩ w

/-- A text from a place on is cut into tokens and blanks, given whether the token before it is an
opening parenthesis.  A run goes on as long as it can. -/
inductive Cuts : Bool → Location → List Char → List Lexeme → Prop where
  /-- Nothing is left. -/
  | nil {afterOpen : Bool} {l : Location} : Cuts afterOpen l [] []
  /-- A blank. -/
  | blank {afterOpen : Bool} {l : Location} {c : Char} {rest : List Char} {xs : List Lexeme}
      (hc : Text.isBlank c = true) (hrest : Cuts afterOpen (l.advance c) rest xs) :
      Cuts afterOpen l (c :: rest) xs
  /-- A token. -/
  | token {afterOpen : Bool} {l : Location} {t : Token} {source rest : List Char}
      {xs : List Lexeme} (hsource : HasSource afterOpen l t source)
      (hcut : IsWord source → StartsApart rest)
      (hrest : Cuts (t.kind == .lparen) (l.advanceBy source) rest xs) :
      Cuts afterOpen l (source ++ rest) (⟨t, source⟩ :: xs)

/-- A text from a place on has a quote that is never closed; what stands before it is cut. -/
def Breaks (afterOpen : Bool) (l : Location) (text : List Char) (opened : Location) : Prop :=
  ∃ u v xs, text = u ++ '"' :: v ∧ Cuts afterOpen l u xs ∧ Text.NeverCloses v ∧
    opened = l.advanceBy u

/-! ## Every text is cut or broken -/

section

variable {afterOpen : Bool} {l : Location} {t : Token} {source rest : List Char}

theorem HasSource.ne_nil (h : HasSource afterOpen l t source) : source ≠ [] := by
  cases h with
  | atom hw => exact hw.1
  | _ => simp

/-- A word is the source of some token. -/
theorem exists_hasSource {w : List Char} (hw : IsWord w) (afterOpen : Bool) (l : Location) :
    ∃ t, HasSource afterOpen l t w := by
  by_cases hvar : ∃ path, Text.isPath path = true ∧ w = '$' :: path
  · obtain ⟨path, hpath, rfl⟩ := hvar
    exact ⟨_, .var hpath⟩
  · by_cases hmark : afterOpen = true ∧ w = ['@']
    · obtain ⟨hopen, rfl⟩ := hmark
      exact ⟨_, .mark hopen⟩
    · refine ⟨_, .atom hw ?_ ?_⟩
      · intro path hpath heq
        exact hvar ⟨path, hpath, heq⟩
      · intro hopen heq
        exact hmark ⟨hopen, heq⟩

/-- Whether a text is cut or broken. -/
def CutsOrBreaks (afterOpen : Bool) (l : Location) (text : List Char) : Prop :=
  (∃ xs, Cuts afterOpen l text xs) ∨ ∃ opened, Breaks afterOpen l text opened

/-- One token in front of a text. -/
theorem CutsOrBreaks.token (h : CutsOrBreaks (t.kind == .lparen) (l.advanceBy source) rest)
    (hsource : HasSource afterOpen l t source) (hcut : IsWord source → StartsApart rest) :
    CutsOrBreaks afterOpen l (source ++ rest) := by
  rcases h with ⟨xs, hxs⟩ | ⟨opened, u, v, xs, rfl, hxs, hv, rfl⟩
  · exact .inl ⟨_, .token hsource hcut hxs⟩
  · have hcut' : IsWord source → StartsApart u := by
      intro hword
      have hapart := hcut hword
      cases u with
      | nil => simp [StartsApart]
      | cons c u => exact hapart
    refine .inr ⟨(l.advanceBy source).advanceBy u, source ++ u, v, ⟨t, source⟩ :: xs, ?_,
      .token hsource hcut' hxs, hv, ?_⟩
    · rw [List.append_assoc]
    · rw [Location.advanceBy_append]

/-- One blank in front of a text. -/
theorem CutsOrBreaks.blank {c : Char} (h : CutsOrBreaks afterOpen (l.advance c) rest)
    (hc : Text.isBlank c = true) : CutsOrBreaks afterOpen l (c :: rest) := by
  rcases h with ⟨xs, hxs⟩ | ⟨opened, u, v, xs, rfl, hxs, hv, rfl⟩
  · exact .inl ⟨xs, .blank hc hxs⟩
  · exact .inr ⟨_, c :: u, v, xs, rfl, .blank hc hxs, hv, rfl⟩

/-- A run that starts with a character goes on up to a delimiter. -/
theorem exists_word {c : Char} (hc : Scanner.isDelimiter c = false) (r : List Char) :
    ∃ w rest, c :: r = w ++ rest ∧ IsWord w ∧ StartsApart rest := by
  refine ⟨(c :: r).takeWhile (!Scanner.isDelimiter ·), (c :: r).dropWhile (!Scanner.isDelimiter ·),
    List.takeWhile_append_dropWhile.symm, ⟨by simp [hc], ?_⟩, ?_⟩
  · intro d hd
    simpa using List.mem_takeWhile_imp hd
  · intro d hd
    have hhead := List.head?_dropWhile_not (!Scanner.isDelimiter ·) (c :: r)
    rw [Option.mem_def] at hd
    simpa [hd] using hhead

/-- A text can be cut, or it has a quote that is never closed. -/
theorem cuts_or_breaks (afterOpen : Bool) (l : Location) (text : List Char) :
    CutsOrBreaks afterOpen l text := by
  -- what is left after a token or a blank is shorter
  induction hlength : text.length using Nat.strongRecOn generalizing afterOpen l text with
  | ind n ih =>
    subst hlength
    cases text with
    | nil => exact .inl ⟨[], .nil⟩
    | cons c r =>
      have hrest {rest : List Char} (hlt : rest.length < (c :: r).length) (b : Bool)
          (l' : Location) : CutsOrBreaks b l' rest := ih rest.length hlt b l' rest rfl
      by_cases hblank : Text.isBlank c = true
      · exact (hrest (by simp) _ _).blank hblank
      by_cases hopen : c = '('
      · subst hopen
        exact (hrest (by simp) _ _).token .lparen fun hword => absurd hword (by decide)
      by_cases hclose : c = ')'
      · subst hclose
        exact (hrest (by simp) _ _).token .rparen fun hword => absurd hword (by decide)
      by_cases hquote : c = '"'
      · subst hquote
        by_cases hnever : Text.NeverCloses r
        · exact .inr ⟨_, [], r, [], rfl, .nil, hnever, rfl⟩
        · simp only [Text.NeverCloses, ne_eq, not_forall, not_not] at hnever
          obtain ⟨body, rest, hbody, rfl⟩ := hnever
          have hlt : rest.length < ('"' :: (body ++ '"' :: rest)).length := by
            simp only [List.length_cons, List.length_append]
            omega
          have hsource : HasSource afterOpen l _ _ := .string hbody
          have hcut := (hrest hlt _ _).token hsource
            fun hword => absurd (hword.2 '"' List.mem_cons_self) (by decide)
          simpa using hcut
      · have hplain : Scanner.isDelimiter c = false := by
          simp [Scanner.isDelimiter, hblank, hopen, hclose, hquote]
        obtain ⟨w, rest, heq, hword, hapart⟩ := exists_word hplain r
        obtain ⟨t, ht⟩ := exists_hasSource hword afterOpen l
        have hlt : rest.length < (c :: r).length := by
          have hpos := List.length_pos_iff.2 hword.1
          rw [heq, List.length_append]
          omega
        rw [heq]
        exact (hrest hlt _ _).token ht fun _ => hapart

end

end Token

/-! ## What the scanner makes of a cut -/

namespace Scanner

variable {s : Scanner}

/-- A quote that is never closed. -/
theorem mode_run_of_neverCloses {start : Location} {chars v : List Char} (hv : Text.NeverCloses v)
    (hs : s.mode = .quoted start chars false) :
    ∃ chars' guarded, (s.run v).mode = .quoted start chars' guarded := by
  induction hlength : v.length using Nat.strongRecOn generalizing s chars v with
  | ind n ih =>
    subst hlength
    match v with
    | [] => exact ⟨chars, false, hs⟩
    | c :: r =>
      by_cases hslash : c = '\\'
      · subst hslash
        match r with
        | [] => exact ⟨'\\' :: chars, true, by simp [step, read, hs]⟩
        | d :: r =>
          have hmode : ((s.step '\\').step d).mode =
              .quoted start (d :: '\\' :: chars) false := by
            simp [step, read, hs]
          have hlt : r.length < ('\\' :: d :: r).length := by
            simp only [List.length_cons]
            omega
          have hrest := ih r.length hlt hv.of_guarded hmode rfl
          exact hrest
      · obtain ⟨hquote, hr⟩ := hv.of_plain hslash
        have hmode : (s.step c).mode = .quoted start (c :: chars) false := by
          simp [step, read, hs, hslash, hquote]
        have hrest := ih r.length (by simp) hr hmode rfl
        exact hrest

/-- The tokens of two pieces.  The second one starts with a delimiter, or the scanner stands
between tokens after the first one. -/
theorem Yields.trans {u v : List Char} {ts us : List Token} (hu : s.Yields u ts)
    (hv : (s.run u).closeRun.Yields v us) (hcut : (s.run u).mode = .between ∨ StartsApart v) :
    s.Yields (u ++ v) (ts ++ us) := by
  rcases hcut with hmode | hapart
  · rw [closeRun_of_between hmode] at hv
    refine ⟨by rw [run_append]; exact hv.1, ?_⟩
    rw [run_append, hv.2, List.reverse_append, List.append_assoc, ← hu.2, closeRun_of_between hmode]
  · exact hu.append hv hapart

theorem isReference_eq_false {w : List Char}
    (h : ∀ path, Text.isPath path = true → w ≠ '$' :: path) : isReference w = false := by
  unfold isReference
  split
  · rename_i path
    by_contra hpath
    exact h path (by simpa using hpath) rfl
  · rfl

/-- A token is read from its source. -/
theorem yields_of_hasSource (hs : s.mode = .between) {t : Token} {source : List Char}
    (h : Token.HasSource (endsOpen s.tokens) s.cursor t source) :
    s.Yields source [t] ∧ ((s.run source).mode = .between ∨ IsWord source) := by
  have hword {w : List Char} (hw : IsWord w)
      (ht : runToken (endsOpen s.tokens) s.cursor w = t) : s.Yields w [t] :=
    ht ▸ yields_word hs hw
  cases h with
  | lparen =>
    have hmode : (s.step '(').mode = .between := by rw [step_open hs]; exact hs
    have htokens : (s.step '(').tokens = [⟨.lparen, "(", s.cursor⟩].reverse ++ s.tokens := by
      rw [step_open hs]
      rfl
    exact ⟨(yields_nil hmode).cons htokens, .inl hmode⟩
  | rparen =>
    have hmode : (s.step ')').mode = .between := by rw [step_close hs]; exact hs
    have htokens : (s.step ')').tokens = [⟨.rparen, ")", s.cursor⟩].reverse ++ s.tokens := by
      rw [step_close hs]
      rfl
    exact ⟨(yields_nil hmode).cons htokens, .inl hmode⟩
  | @string body hbody =>
    have hmode : (s.run ('"' :: (body ++ ['"']))).mode = .between := by rw [run_quoted hs hbody]
    refine ⟨⟨isOutside_of_between hmode, ?_⟩, .inl hmode⟩
    rw [closeRun_of_between hmode, run_quoted hs hbody]
    rfl
  | var hpath =>
    have hw := isWord_reference hpath
    exact ⟨hword hw (by simp [runToken, isReference, hpath]), .inr hw⟩
  | mark hopen =>
    have hw : IsWord ['@'] := by decide
    exact ⟨hword hw (by simp [runToken, isReference, hopen]), .inr hw⟩
  | atom hw hvar hmark =>
    have hplain : isReference source = false := isReference_eq_false hvar
    have hlone : ¬ (source = ['@'] ∧ endsOpen s.tokens = true) := by
      rintro ⟨hsource, hopen⟩
      exact hmark hopen hsource
    exact ⟨hword hw (by simp [runToken, hplain, hlone]), .inr hw⟩

end Scanner

namespace Token

open Scanner

/-- The scanner reads the tokens of a cut. -/
theorem Cuts.yields {afterOpen : Bool} {l : Location} {text : List Char} {xs : List Lexeme}
    (h : Cuts afterOpen l text xs) {s : Scanner} (hs : s.mode = .between) (hl : s.cursor = l)
    (hopen : endsOpen s.tokens = afterOpen) : s.Yields text (xs.map Lexeme.token) := by
  induction h generalizing s with
  | nil => exact yields_nil hs
  | @blank _ _ c _ _ hc _ ih =>
    have hstep := step_blank hs hc
    have htokens : (s.step c).tokens = [].reverse ++ s.tokens := by
      rw [hstep]
      rfl
    refine Yields.cons htokens (ih ?_ ?_ ?_)
    · rw [hstep]
      exact hs
    · rw [hstep, ← hl]
    · rw [hstep]
      exact hopen
  | @token _ _ t source rest xs hsource hcut _ ih =>
    subst hl hopen
    obtain ⟨hyields, hmode⟩ := yields_of_hasSource hs hsource
    refine hyields.trans (ih (mode_closeRun hyields.1) ?_ ?_) (hmode.imp id hcut)
    · rw [cursor_closeRun, cursor_run]
    · rw [hyields.2]
      rfl

theorem scan_of_cuts {text : List Char} {xs : List Lexeme} (h : Cuts false .origin text xs) :
    scan text = .ok (xs.map Lexeme.token ++ [⟨.eof, "", Location.origin.advanceBy text⟩]) := by
  have hyields := h.yields (s := Scanner.initial) rfl rfl rfl
  unfold scan finish
  split
  case h_1 start chars guarded hm => exact absurd hm (hyields.1 start chars guarded)
  case h_2 =>
    rw [hyields.2, cursor_run]
    simp [Scanner.initial]

theorem scan_of_breaks {text : List Char} {opened : Location}
    (h : Breaks false .origin text opened) : scan text = .error ⟨opened⟩ := by
  obtain ⟨u, v, xs, rfl, hxs, hv, rfl⟩ := h
  have hyields := hxs.yields (s := Scanner.initial) rfl rfl rfl
  have hblank : Text.isBlank '"' = false := by decide
  have hmode : ((Scanner.initial.run u).closeRun.step '"').mode =
      .quoted (Location.origin.advanceBy u) [] false := by
    have hclosed := mode_closeRun hyields.1
    have hcursor : (Scanner.initial.run u).closeRun.cursor = Location.origin.advanceBy u := by
      rw [cursor_closeRun, cursor_run]
      rfl
    simp [Scanner.step, Scanner.read, Scanner.startToken, hclosed, hcursor, hblank]
  obtain ⟨chars, guarded, hend⟩ := mode_run_of_neverCloses hv hmode
  have hrun : (Scanner.initial.run (u ++ '"' :: v)).mode =
      .quoted (Location.origin.advanceBy u) chars guarded := by
    rw [run_append, ← run_closeRun hyields.1 (by decide), run_cons]
    exact hend
  rw [scan, finish, hrun]

end Token

end MarkupForms
