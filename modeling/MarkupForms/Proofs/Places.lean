import MarkupForms.Proofs.Prefixes
import MarkupForms.Proofs.Spacing

/-!
# Places that are reported

The place that a token or a fault names is moved along character by character.  Its line and its
column can be read off the text all the same: the line counts the newlines before the place, and the
column is the distance from the last of them.

The scanner gives every token the place where its characters start, and it names the quote that is
never closed.  The parser names places of tokens only: that of the token that cannot stand there, or
that of a parenthesis which was read before.

* `lastNewline` : where the last newline of a text stands.
* `Location.follows_advanceBy` : the place after a text.
* `Token.isPlaced_of_ofText` : the places of tokens.
* `Form.places_exact` : the places of tokens and of faults.
-/

namespace MarkupForms

/-! ## Lines and columns -/

/-- The index of the last newline of a text, and minus one when there is none. -/
def lastNewline : List Char → Int
  | [] => -1
  | c :: r => if '\n' ∈ r then lastNewline r + 1 else if c = '\n' then 0 else -1

theorem lastNewline_concat (s : List Char) (c : Char) :
    lastNewline (s ++ [c]) = if c = '\n' then (s.length : Int) else lastNewline s := by
  induction s with
  | nil => simp [lastNewline]
  | cons d r ih =>
    rw [List.cons_append, lastNewline, ih]
    by_cases hc : c = '\n'
    · simp [hc]
    · have hmem : '\n' ∈ r ++ [c] ↔ '\n' ∈ r := by simp [Ne.symm hc]
      simp only [hmem, if_neg hc]
      rw [lastNewline]

example : lastNewline "a\nb\nc".toList = 3 := by decide

namespace Location

/-- Whether a place is the one after some text: its position counts the characters of the text, its
line the newlines, and its column the characters after the last newline, each from one. -/
structure Follows (l : Location) (before : List Char) : Prop where
  /-- The position counts the characters. -/
  position : l.position = before.length
  /-- The line counts the newlines. -/
  line : l.line = 1 + before.count '\n'
  /-- The column is the distance from the last newline. -/
  column : l.column = l.position - lastNewline before

/-- One character more. -/
theorem Follows.advance {l : Location} {before : List Char} (h : l.Follows before) (c : Char) :
    (l.advance c).Follows (before ++ [c]) := by
  have hposition : (l.advance c).position = (before ++ [c]).length := by simp [h.position]
  by_cases hc : c = '\n'
  · have hadvance : l.advance c = ⟨l.position + 1, l.line + 1, 1⟩ := by
      rw [Location.advance, if_pos hc]
    have hcount : (before ++ [c]).count '\n' = before.count '\n' + 1 := by simp [hc]
    have hlast : lastNewline (before ++ [c]) = before.length := by
      rw [lastNewline_concat, if_pos hc]
    refine ⟨hposition, ?_, ?_⟩
    · rw [hadvance, hcount]
      dsimp only
      rw [h.line]
      omega
    · rw [hadvance, hlast]
      dsimp only
      rw [h.position]
      omega
  · have hadvance : l.advance c = ⟨l.position + 1, l.line, l.column + 1⟩ := by
      rw [Location.advance, if_neg hc]
    have hcount : (before ++ [c]).count '\n' = before.count '\n' := by simp [hc]
    have hlast : lastNewline (before ++ [c]) = lastNewline before := by
      rw [lastNewline_concat, if_neg hc]
    refine ⟨hposition, ?_, ?_⟩
    · rw [hadvance, hcount, h.line]
    · rw [hadvance, hlast]
      dsimp only
      rw [h.column]
      omega

/-- The place after a text, reached character by character. -/
theorem follows_advanceBy (s : List Char) : (origin.advanceBy s).Follows s := by
  induction s using List.reverseRecOn with
  | nil => exact ⟨rfl, rfl, rfl⟩
  | append_singleton s c ih =>
    rw [advanceBy_append]
    exact ih.advance c

end Location

/-! ## Places of tokens -/

namespace Token

theorem HasSource.kind_ne_eof {afterOpen : Bool} {l : Location} {t : Token} {source : List Char}
    (h : HasSource afterOpen l t source) : t.kind ≠ .eof := by
  cases h <;> simp

/-- A cut holds no token for the end of the text. -/
theorem Cuts.kind_ne_eof {text : List Char} {xs : List Lexeme} (h : Cuts false .origin text xs) :
    ∀ t ∈ xs.map Lexeme.token, t.kind ≠ .eof := by
  intro t ht
  obtain ⟨x, hx, rfl⟩ := List.mem_map.1 ht
  obtain ⟨ys, zs, rfl⟩ := List.append_of_mem hx
  obtain ⟨pre, post, -, -, hsource, -⟩ := h.place
  exact hsource.kind_ne_eof

/-- Whether a token has its place in a text: its characters start after those before the place, and
the token for the end stands after all of them. -/
def IsPlaced (text : List Char) (t : Token) : Prop :=
  ∃ before after, text = before ++ after ∧ t.location.Follows before ∧
    ((t.kind = .eof ∧ after = []) ∨ ∃ afterOpen source rest, after = source ++ rest ∧
      HasSource afterOpen t.location t source)

theorem isPlaced_of_ofText {text : String} {ts : List Token} (h : ofText text = .ok ts) {t : Token}
    (ht : t ∈ ts) : IsPlaced text.toList t := by
  obtain ⟨xs, hxs, rfl⟩ := exists_cuts_of_ofText h
  rcases List.mem_append.1 ht with hmem | hmem
  · obtain ⟨x, hx, rfl⟩ := List.mem_map.1 hmem
    obtain ⟨ys, zs, rfl⟩ := List.append_of_mem hx
    obtain ⟨pre, post, htext, -, hsource, -⟩ := hxs.place
    have hlocation := hsource.location
    refine ⟨pre, x.source ++ post, htext, ?_, .inr ⟨_, x.source, post, rfl, hlocation ▸ hsource⟩⟩
    rw [hlocation]
    exact Location.follows_advanceBy pre
  · obtain rfl := List.mem_singleton.1 hmem
    exact ⟨text.toList, [], by simp, Location.follows_advanceBy _, .inl ⟨rfl, rfl⟩⟩

/-- The place of a token that is not the end lies inside the text. -/
theorem IsPlaced.inside {text : List Char} {t : Token} (h : IsPlaced text t) (ht : t.kind ≠ .eof) :
    0 ≤ t.location.position ∧ t.location.position < text.length := by
  obtain ⟨before, after, rfl, hfollows, ⟨hend, -⟩ | ⟨afterOpen, source, rest, rfl, hsource⟩⟩ := h
  · exact absurd hend ht
  · have hpos := List.length_pos_iff.2 hsource.ne_nil
    rw [hfollows.position, List.length_append, List.length_append]
    omega

/-- The quote that is never closed is named with the place after the characters before it. -/
theorem follows_of_unclosedQuote {text : String} {e : UnclosedQuote} (h : ofText text = .error e) :
    ∃ before after, text.toList = before ++ '"' :: after ∧ e.opened.Follows before := by
  rcases cuts_or_breaks false .origin text.toList with ⟨xs, hxs⟩ | ⟨opened, hbreaks⟩
  · rw [ofText, scan_of_cuts hxs] at h
    cases h
  · rw [ofText, scan_of_breaks hbreaks] at h
    obtain ⟨before, after, xs, htext, -, -, hopened⟩ := hbreaks
    cases h
    exact ⟨before, after, htext, hopened ▸ Location.follows_advanceBy before⟩

end Token

/-! ## Places of faults -/

namespace Form

/-- The faults of the tokens of a text. -/
theorem ofText?_eq_parse_iff {text : String} {e : ParseFailure} :
    ofText? text = .error (.parse e) ↔
      ∃ ts, Token.ofText text = .ok ts ∧ ofTokens? ts = .error e := by
  rw [ofText?]
  cases Token.ofText text with
  | error e' => simp
  | ok ts => cases hresult : ofTokens? ts <;> simp [hresult]

/-- A fault of a text names the place of one of its tokens, unless there is none. -/
theorem exists_token_of_ofText {text : String} {ts : List Token} {fault : ParseError}
    (hts : Token.ofText text = .ok ts) (h : ofTokens? ts = .error (.fault fault)) :
    (fault = ⟨.emptyTemplate, .origin⟩ ∧ ∀ t ∈ ts, t.kind = .eof) ∨
      ∃ t ∈ ts, t.kind ≠ .eof ∧ fault.location = t.location := by
  obtain ⟨xs, hxs, rfl⟩ := Token.exists_cuts_of_ofText hts
  have hfault := exists_token_of_fault h
  rw [beforeEnd_append_eof _ _ rfl, beforeEnd_eq_self hxs.kind_ne_eof] at hfault
  refine hfault.imp ?_ ?_
  · rintro ⟨hempty, hnone⟩
    refine ⟨hempty, ?_⟩
    simp [hnone]
  · rintro ⟨t, ht, hl⟩
    exact ⟨t, List.mem_append_left _ ht, hxs.kind_ne_eof t ht, hl⟩

/-- **Places are exact.**  The quote that is never closed and every token have the place after the
characters before them.  A fault of the tokens is at the place of one of them, inside the text,
unless there is no token. -/
theorem places_exact (text : String) :
    (∀ e, Token.ofText text = .error e →
        ∃ before after, text.toList = before ++ '"' :: after ∧ e.opened.Follows before) ∧
      (∀ ts, Token.ofText text = .ok ts → ∀ t ∈ ts, Token.IsPlaced text.toList t) ∧
      ∀ e, ofText? text = .error (.parse e) → ∃ ts fault, Token.ofText text = .ok ts ∧
        e = .fault fault ∧
          ((fault = ⟨.emptyTemplate, .origin⟩ ∧ ∀ t ∈ ts, t.kind = .eof) ∨
            ∃ t ∈ ts, t.kind ≠ .eof ∧ fault.location = t.location ∧
              0 ≤ t.location.position ∧ t.location.position < text.length) := by
  refine ⟨fun e h => Token.follows_of_unclosedQuote h,
    fun ts h t ht => Token.isPlaced_of_ofText h ht, ?_⟩
  intro e h
  obtain ⟨ts, hts, hparse⟩ := ofText?_eq_parse_iff.1 h
  obtain ⟨fault, rfl⟩ := ofTokens?_error hparse
  refine ⟨ts, fault, hts, rfl, (exists_token_of_ofText hts hparse).imp_right ?_⟩
  rintro ⟨t, ht, hkind, hl⟩
  have hinside := (Token.isPlaced_of_ofText hts ht).inside hkind
  rw [String.length_toList] at hinside
  exact ⟨t, ht, hkind, hl, hinside⟩

/-- A quote in the second line that is never closed, an empty form there, and the end after it. -/
theorem places_in_second_line :
    Token.ofText "(div\n \"x" = .error ⟨⟨6, 2, 2⟩⟩ ∧
      (∃ before after, "(div\n \"x".toList = before ++ '"' :: after ∧
        (⟨6, 2, 2⟩ : Location).Follows before) ∧
      ofText? "(div\n  ())" = .error (.parse (.fault ⟨.emptyForm, ⟨7, 2, 3⟩⟩)) ∧
      (∃ ts fault, Token.ofText "(div\n  ())" = .ok ts ∧
        ParseFailure.fault ⟨.emptyForm, ⟨7, 2, 3⟩⟩ = .fault fault ∧
          ((fault = ⟨.emptyTemplate, .origin⟩ ∧ ∀ t ∈ ts, t.kind = .eof) ∨
            ∃ t ∈ ts, t.kind ≠ .eof ∧ fault.location = t.location ∧
              0 ≤ t.location.position ∧ t.location.position < "(div\n  ())".length)) ∧
      Token.ofText "a\n" = .ok [⟨.atom, "a", ⟨0, 1, 1⟩⟩, ⟨.eof, "", ⟨2, 2, 1⟩⟩] ∧
      Token.IsPlaced "a\n".toList ⟨.eof, "", ⟨2, 2, 1⟩⟩ := by
  have hquote : Token.ofText "(div\n \"x" = .error ⟨⟨6, 2, 2⟩⟩ := by decide +kernel
  have hfault : ofText? "(div\n  ())" = .error (.parse (.fault ⟨.emptyForm, ⟨7, 2, 3⟩⟩)) := by
    decide +kernel
  have htokens : Token.ofText "a\n" = .ok [⟨.atom, "a", ⟨0, 1, 1⟩⟩, ⟨.eof, "", ⟨2, 2, 1⟩⟩] := by
    decide +kernel
  refine ⟨hquote, ?_, hfault, ?_, htokens, ?_⟩
  · exact (places_exact "(div\n \"x").1 _ hquote
  · exact (places_exact "(div\n  ())").2.2 _ hfault
  · exact (places_exact "a\n").2.1 _ htokens _ (by simp)

end Form

end MarkupForms
