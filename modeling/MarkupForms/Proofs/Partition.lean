import MarkupForms.Proofs.Cutting

/-!
# Tokens partition a text

A cut of a text says of each character which token it belongs to.  The tokens have places one after
the other, and only blanks stand outside of them; parentheses, quoted texts and runs that cannot be
longer are single tokens.  There is at most one cut of a text, so the scanner, which reads the
tokens of the cut, answers with a partition or names the quote that is never closed.

* `Token.Cuts.place` : where a token of a cut stands, and what is on both sides of it.
* `Token.Cuts.isPartition` : what a cut says about each character of the text.
* `Token.Cuts.unique` : there are no two cuts of a text.
* `Token.scan_partitions` : all of this for the scanner.
-/

namespace MarkupForms

namespace Token

open Scanner

/-! ## What a cut says about the characters -/

/-- Whether a text ends where no run goes on. -/
def EndsApart (u : List Char) : Prop :=
  ∀ c ∈ u.getLast?, isDelimiter c = true

/-- Whether the last of some tokens is an opening parenthesis. -/
def endsOpening (afterOpen : Bool) : List Lexeme → Bool
  | [] => afterOpen
  | x :: xs => endsOpening (x.token.kind == .lparen) xs

/-- Whether a character stands outside of quoted texts. -/
def OutsideQuotes (xs : List Lexeme) (i : Int) : Prop :=
  ∀ x ∈ xs, x.token.kind = .string → ¬ x.Covers i

/-- What it means that a text is partitioned into tokens. -/
structure IsPartition (text : List Char) (xs : List Lexeme) : Prop where
  /-- The tokens stand one after the other. -/
  ordered : xs.Pairwise fun x y => x.stop ≤ y.start
  /-- Each token has characters. -/
  nonempty : ∀ x ∈ xs, x.start < x.stop
  /-- Only blanks stand outside of tokens. -/
  blank : ∀ pre c post, text = pre ++ c :: post → (∀ x ∈ xs, ¬ x.Covers pre.length) →
    Text.isBlank c = true
  /-- Each token is read from the characters at its place; of the others only the last one before it
  matters. -/
  source : ∀ ys x zs, xs = ys ++ x :: zs → ∃ pre post, text = pre ++ (x.source ++ post) ∧
    HasSource (endsOpening false ys) (Location.origin.advanceBy pre) x.token x.source
  /-- A parenthesis outside of quotes is a token of its own. -/
  paren : ∀ pre c post, text = pre ++ c :: post → c = '(' ∨ c = ')' →
    OutsideQuotes xs pre.length → ∃ x ∈ xs, x.start = pre.length ∧ x.source = [c]
  /-- A quote stands in a quoted text. -/
  quote : ∀ pre post, text = pre ++ '"' :: post →
    ∃ x ∈ xs, x.token.kind = .string ∧ x.Covers pre.length
  /-- A run outside of quotes that cannot be longer is a token. -/
  run : ∀ pre w post, text = pre ++ (w ++ post) → IsWord w → EndsApart pre → StartsApart post →
    OutsideQuotes xs pre.length → ∃ x ∈ xs, x.start = pre.length ∧ x.source = w

section

variable {afterOpen : Bool} {l : Location} {t : Token} {source rest text : List Char}
  {xs ys zs : List Lexeme} {x : Lexeme}

theorem HasSource.location (h : HasSource afterOpen l t source) : t.location = l := by
  cases h <;> rfl

/-- A token that is no run ends with a parenthesis or a quote. -/
theorem HasSource.isWord_or_endsApart (h : HasSource afterOpen l t source) :
    IsWord source ∨ EndsApart source := by
  cases h with
  | lparen => exact .inr (by simp [EndsApart, isDelimiter])
  | rparen => exact .inr (by simp [EndsApart, isDelimiter])
  | @string body =>
    refine .inr ?_
    have hlast : ('"' :: (body ++ ['"'])).getLast? = some '"' := by
      rw [← List.cons_append, List.getLast?_concat]
    intro c hc
    rw [hlast, Option.mem_some_iff] at hc
    rw [← hc]
    decide
  | var hpath => exact .inl (isWord_reference hpath)
  | mark => exact .inl (by decide)
  | atom hw => exact .inl hw

/-- What a character tells about the token that it belongs to. -/
theorem HasSource.of_mem (h : HasSource afterOpen l t source) {c : Char} (hc : c ∈ source) :
    t.kind = .string ∨ (source = [c] ∧ (c = '(' ∨ c = ')')) ∨ IsWord source := by
  cases h with
  | lparen =>
    obtain rfl := List.mem_singleton.1 hc
    exact .inr (.inl ⟨rfl, .inl rfl⟩)
  | rparen =>
    obtain rfl := List.mem_singleton.1 hc
    exact .inr (.inl ⟨rfl, .inr rfl⟩)
  | string => exact .inl rfl
  | var hpath => exact .inr (.inr (isWord_reference hpath))
  | mark => exact .inr (.inr (by decide))
  | atom hw => exact .inr (.inr hw)

theorem endsApart_append {u v : List Char} (hu : EndsApart u) (hv : EndsApart v) :
    EndsApart (u ++ v) := by
  cases v using List.reverseRecOn with
  | nil => simpa using hu
  | append_singleton v c =>
    intro d hd
    apply hv
    rwa [← List.append_assoc, List.getLast?_concat, ← List.getLast?_concat (l := v)] at hd

/-- A word does not start apart. -/
theorem not_startsApart_of_isWord {w : List Char} (hw : IsWord w) : ¬ StartsApart (w ++ rest) := by
  obtain ⟨c, w, rfl⟩ := List.exists_cons_of_ne_nil hw.1
  intro hapart
  have hplain := hw.2 c List.mem_cons_self
  rw [hapart c rfl] at hplain
  cases hplain

/-- Where a token of a cut stands: what comes before it and what comes after it are cut too, and a
run is as long as it can be on both sides. -/
theorem Cuts.place (h : Cuts afterOpen l text (ys ++ x :: zs)) :
    ∃ pre post, text = pre ++ (x.source ++ post) ∧ Cuts afterOpen l pre ys ∧
      HasSource (endsOpening afterOpen ys) (l.advanceBy pre) x.token x.source ∧
      (IsWord x.source → EndsApart pre ∧ StartsApart post) := by
  generalize hxs : ys ++ x :: zs = xs at h
  induction h generalizing ys with
  | nil => simp at hxs
  | @blank _ l c rest xs hc _ ih =>
    obtain ⟨pre, post, rfl, hpre, hsource, hword⟩ := ih hxs
    refine ⟨c :: pre, post, rfl, .blank hc hpre, hsource, ?_⟩
    intro hw
    have hapart : EndsApart [c] := by simp [EndsApart, isDelimiter, hc]
    exact ⟨endsApart_append hapart (hword hw).1, (hword hw).2⟩
  | @token _ l t source rest xs hsource hcut hrest ih =>
    cases ys with
    | nil =>
      obtain ⟨rfl, rfl⟩ := List.cons.inj hxs
      exact ⟨[], rest, rfl, .nil, hsource, fun hw => ⟨by simp [EndsApart], hcut hw⟩⟩
    | cons y ys =>
      obtain ⟨rfl, htail⟩ := List.cons.inj hxs
      obtain ⟨pre, post, rfl, hpre, hsource', hword⟩ := ih htail
      have hcut' : IsWord source → StartsApart pre := by
        intro hw
        cases pre with
        | nil => simp [StartsApart]
        | cons c pre => exact hcut hw
      refine ⟨source ++ pre, post, by simp, .token hsource hcut' hpre, ?_, ?_⟩
      · rw [Location.advanceBy_append]
        exact hsource'
      · intro hw
        refine ⟨?_, (hword hw).2⟩
        rcases hsource.isWord_or_endsApart with hrun | hend
        · -- the run before would have gone on
          cases pre with
          | nil =>
            have hapart : StartsApart (x.source ++ post) := hcut hrun
            exact absurd hapart (not_startsApart_of_isWord hw)
          | cons c pre =>
            intro d hd
            apply (hword hw).1
            rwa [List.getLast?_append_cons] at hd
        · exact endsApart_append hend (hword hw).1

/-- Only blanks stand outside of tokens. -/
theorem Cuts.isBlank_or_covers (h : Cuts afterOpen l text xs) {pre post : List Char} {c : Char}
    (htext : text = pre ++ c :: post) :
    Text.isBlank c = true ∨ ∃ x ∈ xs, x.Covers (l.position + pre.length) := by
  induction h generalizing pre with
  | nil => simp at htext
  | @blank _ l d rest xs hd _ ih =>
    cases pre with
    | nil =>
      obtain ⟨rfl, -⟩ := List.cons.inj htext
      exact .inl hd
    | cons e pre =>
      obtain ⟨-, htext⟩ := List.cons.inj htext
      refine (ih htext).imp_right ?_
      rintro ⟨x, hx, hcovers⟩
      refine ⟨x, hx, ?_⟩
      rw [Location.position_advance] at hcovers
      simp only [Lexeme.Covers, List.length_cons] at hcovers ⊢
      omega
  | @token _ l t source rest xs hsource _ _ ih =>
    by_cases hinside : pre.length < source.length
    · refine .inr ⟨⟨t, source⟩, List.mem_cons_self, ?_⟩
      simp only [Lexeme.Covers, Lexeme.stop, Lexeme.start, hsource.location]
      omega
    · have hpre : source.length ≤ pre.length := by omega
      obtain ⟨pre, rfl⟩ := List.prefix_of_prefix_length_le (List.prefix_append source rest)
        (htext ▸ List.prefix_append pre (c :: post)) hpre
      rw [List.append_assoc, List.append_cancel_left_eq] at htext
      refine (ih htext).imp_right ?_
      rintro ⟨x, hx, hcovers⟩
      refine ⟨x, List.mem_cons_of_mem _ hx, ?_⟩
      rw [Location.position_advanceBy] at hcovers
      simp only [Lexeme.Covers, List.length_append] at hcovers ⊢
      omega

/-- A character in the source of a token. -/
theorem exists_append_of_inside {pre post pre' post' : List Char} {c : Char}
    (h : pre ++ c :: post = pre' ++ (source ++ post')) (hge : pre'.length ≤ pre.length)
    (hlt : pre.length < pre'.length + source.length) :
    ∃ u v, pre = pre' ++ u ∧ source = u ++ c :: v ∧ post = v ++ post' := by
  obtain ⟨u, rfl⟩ := List.prefix_of_prefix_length_le (List.prefix_append pre' (source ++ post'))
    (h ▸ List.prefix_append pre (c :: post)) hge
  rw [List.append_assoc, List.append_cancel_left_eq] at h
  rw [List.length_append] at hlt
  rcases List.append_eq_append_iff.1 h with ⟨v, rfl, hv⟩ | ⟨v, rfl, -⟩
  · cases v with
    | nil => simp at hlt
    | cons d v =>
      obtain ⟨rfl, rfl⟩ := List.cons.inj hv
      exact ⟨u, v, rfl, rfl, rfl⟩
  · rw [List.length_append] at hlt
    omega

/-- Two runs that start at the same place and cannot be longer are the same. -/
theorem run_unique {u v post post' : List Char} (h : u ++ post = v ++ post')
    (hu : ∀ c ∈ u, isDelimiter c = false) (hv : ∀ c ∈ v, isDelimiter c = false)
    (hpost : StartsApart post) (hpost' : StartsApart post') : u = v := by
  have hlong {u v post post' : List Char} (h : u ++ post = v ++ post')
      (hv : ∀ c ∈ v, isDelimiter c = false) (hpost : StartsApart post) : v.length ≤ u.length := by
    rcases List.append_eq_append_iff.1 h with ⟨w, rfl, rfl⟩ | ⟨w, rfl, -⟩
    · cases w with
      | nil => simp
      | cons c w =>
        have hplain := hv c (by simp)
        rw [hpost c rfl] at hplain
        cases hplain
    · simp
  have hlength : u.length = v.length := Nat.le_antisymm (hlong h.symm hu hpost') (hlong h hv hpost)
  exact (List.append_inj h hlength).1

/-- A character outside of blanks belongs to a token, whose source it stands in. -/
theorem Cuts.exists_source (h : Cuts false .origin text xs) {pre post : List Char} {c : Char}
    (htext : text = pre ++ c :: post) (hc : Text.isBlank c = false) :
    ∃ x ∈ xs, x.Covers pre.length ∧ ∃ u v pre' post' afterOpen, x.source = u ++ c :: v ∧
      pre = pre' ++ u ∧ post = v ++ post' ∧
      HasSource afterOpen (Location.origin.advanceBy pre') x.token x.source ∧
      (IsWord x.source → EndsApart pre' ∧ StartsApart post') := by
  rcases h.isBlank_or_covers htext with hblank | ⟨x, hx, hcovers⟩
  · rw [hc] at hblank
    cases hblank
  · obtain ⟨ys, zs, rfl⟩ := List.append_of_mem hx
    obtain ⟨pre', post', htext', -, hsource, hword⟩ := h.place
    have hstart : x.start = pre'.length := by
      rw [Lexeme.start, hsource.location, Location.position_advanceBy]
      simp [Location.origin]
    have hcovers' : x.Covers pre.length := by simpa [Location.origin] using hcovers
    simp only [Lexeme.Covers, Lexeme.stop, hstart] at hcovers'
    obtain ⟨u, v, hpre, hin, hpost⟩ :=
      exists_append_of_inside (htext ▸ htext') (by omega) (by omega)
    refine ⟨x, hx, ?_, u, v, pre', post', _, hin, hpre, hpost, hsource, hword⟩
    simpa [Location.origin] using hcovers

/-- Tokens stand one after the other, and none starts before the cut does. -/
theorem Cuts.ordered (h : Cuts afterOpen l text xs) :
    (xs.Pairwise fun x y => x.stop ≤ y.start) ∧ ∀ x ∈ xs, l.position ≤ x.start := by
  induction h with
  | nil => simp
  | blank _ _ ih =>
    refine ⟨ih.1, ?_⟩
    intro x hx
    have hstart := ih.2 x hx
    rw [Location.position_advance] at hstart
    omega
  | @token _ l t source rest xs hsource _ _ ih =>
    have hafter : ∀ x ∈ xs, l.position + source.length ≤ x.start := by
      intro x hx
      have hstart := ih.2 x hx
      rwa [Location.position_advanceBy] at hstart
    have hfirst : (⟨t, source⟩ : Lexeme).start = l.position := by
      rw [Lexeme.start, hsource.location]
    refine ⟨List.pairwise_cons.2 ⟨?_, ih.1⟩, ?_⟩
    · intro x hx
      rw [Lexeme.stop, hfirst]
      exact hafter x hx
    · intro x hx
      rcases List.mem_cons.1 hx with rfl | hx
      · exact Int.le_of_eq hfirst.symm
      · have hstart := hafter x hx
        omega

/-- The place of a token is where its source stands. -/
theorem HasSource.start {pre : List Char}
    (h : HasSource afterOpen (Location.origin.advanceBy pre) x.token x.source) :
    x.start = pre.length := by
  rw [Lexeme.start, h.location, Location.position_advanceBy]
  simp [Location.origin]

/-- **A cut is a partition.** -/
theorem Cuts.isPartition (h : Cuts false .origin text xs) : IsPartition text xs where
  ordered := h.ordered.1
  nonempty := by
    intro x hx
    obtain ⟨ys, zs, rfl⟩ := List.append_of_mem hx
    obtain ⟨pre, post, -, -, hsource, -⟩ := h.place
    have hlength := List.length_pos_iff.2 hsource.ne_nil
    rw [Lexeme.stop]
    omega
  blank := by
    intro pre c post htext houtside
    cases hc : Text.isBlank c with
    | true => rfl
    | false =>
      obtain ⟨x, hx, hcovers, -⟩ := h.exists_source htext hc
      exact absurd hcovers (houtside x hx)
  source := by
    rintro ys x zs rfl
    obtain ⟨pre, post, htext, -, hsource, -⟩ := h.place
    exact ⟨pre, post, htext, hsource⟩
  paren := by
    intro pre c post htext hc houtside
    have hplain : Text.isBlank c = false := by rcases hc with rfl | rfl <;> decide
    obtain ⟨x, hx, hcovers, u, v, pre', post', b, hin, rfl, rfl, hsource, -⟩ :=
      h.exists_source htext hplain
    rcases hsource.of_mem (c := c) (by simp [hin]) with hstring | ⟨hsingle, -⟩ | hword
    · exact absurd hcovers (houtside x hx hstring)
    · rw [hsingle] at hin
      have hu : u = [] := by
        cases u with
        | nil => rfl
        | cons d u => simp at hin
      refine ⟨x, hx, ?_, hsingle⟩
      rw [hsource.start, hu, List.append_nil]
    · have hinside := hword.2 c (by simp [hin])
      rcases hc with rfl | rfl <;> exact absurd hinside (by decide)
  quote := by
    intro pre post htext
    obtain ⟨x, hx, hcovers, u, v, pre', post', b, hin, -, -, hsource, -⟩ :=
      h.exists_source htext (by decide)
    rcases hsource.of_mem (c := '"') (by simp [hin]) with hstring | ⟨-, hparen⟩ | hword
    · exact ⟨x, hx, hstring, hcovers⟩
    · exact absurd hparen (by decide)
    · exact absurd (hword.2 '"' (by simp [hin])) (by decide)
  run := by
    intro pre w post htext hw hpre hpost houtside
    obtain ⟨c, w, rfl⟩ := List.exists_cons_of_ne_nil hw.1
    have hplain : isDelimiter c = false := hw.2 c List.mem_cons_self
    have hblank : Text.isBlank c = false := by
      simp only [isDelimiter, Bool.or_eq_false_iff] at hplain
      exact hplain.1.1.1
    obtain ⟨x, hx, hcovers, u, v, pre', post', b, hin, rfl, hrest, hsource, hword⟩ :=
      h.exists_source htext hblank
    rcases hsource.of_mem (c := c) (by simp [hin]) with hstring | ⟨-, hparen⟩ | hrun
    · exact absurd hcovers (houtside x hx hstring)
    · rcases hparen with rfl | rfl <;> exact absurd hplain (by decide)
    · -- the token cannot start earlier, and it cannot stop elsewhere
      have hu : u = [] := by
        cases u using List.reverseRecOn with
        | nil => rfl
        | append_singleton u d =>
          have hd := hpre d (by rw [← List.append_assoc, List.getLast?_concat]; rfl)
          rw [hrun.2 d (by simp [hin])] at hd
          cases hd
      rw [hu, List.nil_append] at hin
      have hv : w = v := by
        refine run_unique hrest ?_ ?_ hpost (hword hrun).2
        · intro d hd
          exact hw.2 d (List.mem_cons_of_mem c hd)
        · intro d hd
          exact hrun.2 d (by simp [hin, hd])
      refine ⟨x, hx, ?_, ?_⟩
      · rw [hsource.start, hu, List.append_nil]
      · rw [hin, hv]

/-! ## A text is cut in one way -/

/-- A quoted text ends at the first quote that nothing protects. -/
theorem body_unique {body body' rest rest' : List Char} (hbody : Text.IsBody body)
    (hbody' : Text.IsBody body') (h : body ++ '"' :: rest = body' ++ '"' :: rest') :
    body = body' := by
  induction hbody generalizing body' with
  | nil =>
    cases hbody' with
    | nil => rfl
    | plain hquote => exact absurd (List.cons.inj h).1.symm hquote
    | guarded => exact absurd (List.cons.inj h).1 (by decide)
  | plain hquote hslash _ ih =>
    cases hbody' with
    | nil => exact absurd (List.cons.inj h).1 hquote
    | plain _ _ hs =>
      obtain ⟨rfl, htail⟩ := List.cons.inj h
      rw [ih hs htail]
    | guarded => exact absurd (List.cons.inj h).1 hslash
  | guarded _ ih =>
    cases hbody' with
    | nil => exact absurd (List.cons.inj h).1 (by decide)
    | plain _ hslash => exact absurd (List.cons.inj h).1.symm hslash
    | guarded hs =>
      obtain ⟨rfl, htail⟩ := List.cons.inj (List.cons.inj h).2
      rw [ih hs htail]

/-- What the first character of a source tells about it. -/
theorem HasSource.of_cons {c : Char} {r : List Char} (h : HasSource afterOpen l t (c :: r)) :
    ((c = '(' ∨ c = ')') ∧ r = []) ∨
      (c = '"' ∧ ∃ body, Text.IsBody body ∧ r = body ++ ['"']) ∨
      (isDelimiter c = false ∧ IsWord (c :: r)) := by
  have hword (hw : IsWord (c :: r)) : isDelimiter c = false ∧ IsWord (c :: r) :=
    ⟨hw.2 c List.mem_cons_self, hw⟩
  cases h with
  | lparen => exact .inl ⟨.inl rfl, rfl⟩
  | rparen => exact .inl ⟨.inr rfl, rfl⟩
  | string hbody => exact .inr (.inl ⟨rfl, _, hbody, rfl⟩)
  | var hpath => exact .inr (.inr (hword (isWord_reference hpath)))
  | mark => exact .inr (.inr (hword (by decide)))
  | atom hw => exact .inr (.inr (hword hw))

/-- Two tokens at the same place have the same source. -/
theorem HasSource.source_unique {t' : Token} {source' rest' : List Char}
    (h : HasSource afterOpen l t source) (h' : HasSource afterOpen l t' source')
    (hcut : IsWord source → StartsApart rest) (hcut' : IsWord source' → StartsApart rest')
    (heq : source ++ rest = source' ++ rest') : source = source' := by
  obtain ⟨c, r, rfl⟩ := List.exists_cons_of_ne_nil h.ne_nil
  obtain ⟨c', r', rfl⟩ := List.exists_cons_of_ne_nil h'.ne_nil
  obtain ⟨rfl, htail⟩ : c = c' ∧ r ++ rest = r' ++ rest' := List.cons.inj heq
  have hparen (hc : c = '(' ∨ c = ')') : isDelimiter c = true ∧ c ≠ '"' := by
    rcases hc with rfl | rfl <;> decide
  rcases h.of_cons with ⟨hc, rfl⟩ | ⟨hc, body, hbody, rfl⟩ | ⟨hc, hw⟩
  · rcases h'.of_cons with ⟨-, rfl⟩ | ⟨hc', -⟩ | ⟨hc', -⟩
    · rfl
    · exact absurd hc' (hparen hc).2
    · rw [(hparen hc).1] at hc'
      cases hc'
  · rcases h'.of_cons with ⟨hc', -⟩ | ⟨-, body', hbody', rfl⟩ | ⟨hc', -⟩
    · exact absurd hc (hparen hc').2
    · rw [List.append_assoc, List.append_assoc] at htail
      rw [body_unique hbody hbody' htail]
    · rw [hc] at hc'
      exact absurd hc' (by decide)
  · rcases h'.of_cons with ⟨hc', -⟩ | ⟨hc', -⟩ | ⟨-, hw'⟩
    · rw [(hparen hc').1] at hc
      cases hc
    · rw [hc'] at hc
      exact absurd hc (by decide)
    · exact run_unique heq hw.2 hw'.2 (hcut hw) (hcut' hw')

/-- Two tokens with the same source are the same, as a scanner reads them both. -/
theorem HasSource.token_unique {t' : Token} (h : HasSource afterOpen l t source)
    (h' : HasSource afterOpen l t' source) : t = t' := by
  obtain ⟨tokens, htokens⟩ : ∃ tokens, endsOpen tokens = afterOpen := by
    cases afterOpen with
    | false => exact ⟨[], rfl⟩
    | true => exact ⟨[⟨.lparen, "(", l⟩], rfl⟩
  subst htokens
  have hread := (yields_of_hasSource (s := ⟨tokens, l, .between⟩) rfl h).1.2
  have hread' := (yields_of_hasSource (s := ⟨tokens, l, .between⟩) rfl h').1.2
  rw [hread] at hread'
  simpa using hread'

/-- A text is cut in at most one way. -/
theorem Cuts.unique (h : Cuts afterOpen l text xs) (h' : Cuts afterOpen l text ys) : xs = ys := by
  -- a blank starts no token
  have hblank {afterOpen : Bool} {l : Location} {t : Token} {c : Char} {rest r : List Char}
      {source : List Char} (hc : Text.isBlank c = true) (ht : HasSource afterOpen l t source)
      (heq : source ++ r = c :: rest) : False := by
    obtain ⟨d, u, rfl⟩ := List.exists_cons_of_ne_nil ht.ne_nil
    obtain ⟨rfl, -⟩ := List.cons.inj heq
    rcases ht.of_cons with ⟨hd, -⟩ | ⟨hd, -⟩ | ⟨hd, -⟩
    · rcases hd with rfl | rfl <;> exact absurd hc (by decide)
    · rw [hd] at hc
      exact absurd hc (by decide)
    · simp [isDelimiter, hc] at hd
  induction h generalizing ys with
  | nil =>
    generalize htext : ([] : List Char) = text at h'
    cases h' with
    | nil => rfl
    | blank => cases htext
    | token ht => exact absurd (List.append_eq_nil_iff.1 htext.symm).1 ht.ne_nil
  | @blank afterOpen l c rest xs hc _ ih =>
    generalize htext : c :: rest = text at h'
    cases h' with
    | nil => cases htext
    | blank _ hrest =>
      obtain ⟨rfl, rfl⟩ := List.cons.inj htext
      exact ih hrest
    | token ht => exact (hblank hc ht htext.symm).elim
  | @token afterOpen l t source rest xs ht hcut _ ih =>
    generalize htext : source ++ rest = text at h'
    cases h' with
    | nil => exact absurd (List.append_eq_nil_iff.1 htext).1 ht.ne_nil
    | blank hc => exact (hblank hc ht htext).elim
    | token ht' hcut' hrest =>
      obtain rfl := ht.source_unique ht' hcut hcut' htext
      obtain rfl := ht.token_unique ht'
      obtain rfl := List.append_cancel_left htext
      rw [ih hrest]

end

/-- **Scanning partitions a text.**  The scanner fails exactly when the text has a quote that is
never closed, and it names that quote.  Otherwise the text is cut into tokens in exactly one way;
the cut is a partition, and its tokens are the answer, together with the end of the text. -/
theorem scan_partitions (text : String) :
    (∀ e, ofText text = .error e ↔ Breaks false .origin text.toList e.opened) ∧
      (∀ ts, ofText text = .ok ts ↔ ∃! xs, Cuts false .origin text.toList xs ∧
        IsPartition text.toList xs ∧
        ts = xs.map Lexeme.token ++ [⟨.eof, "", Location.origin.advanceBy text.toList⟩]) ∧
      (Location.origin.advanceBy text.toList).position = text.length := by
  refine ⟨?_, ?_, ?_⟩
  · intro e
    constructor
    · intro hscan
      rcases cuts_or_breaks false .origin text.toList with ⟨xs, hxs⟩ | ⟨opened, hbreaks⟩
      · rw [ofText, scan_of_cuts hxs] at hscan
        cases hscan
      · rw [ofText, scan_of_breaks hbreaks] at hscan
        cases hscan
        exact hbreaks
    · intro hbreaks
      exact scan_of_breaks hbreaks
  · intro ts
    constructor
    · intro hscan
      rcases cuts_or_breaks false .origin text.toList with ⟨xs, hxs⟩ | ⟨opened, hbreaks⟩
      · rw [ofText, scan_of_cuts hxs] at hscan
        refine ⟨xs, ⟨hxs, hxs.isPartition, (Except.ok.inj hscan).symm⟩, ?_⟩
        intro ys hys
        exact hys.1.unique hxs
      · rw [ofText, scan_of_breaks hbreaks] at hscan
        cases hscan
    · rintro ⟨xs, ⟨hxs, -, rfl⟩, -⟩
      exact scan_of_cuts hxs
  · rw [Location.position_advanceBy, String.length_toList]
    simp [Location.origin]

end Token

end MarkupForms
