import MarkupForms.Proofs.Spacing

/-!
# A written literal is one token

A text is written in a template between quotes, or bare where that is possible.  Between the quotes
the backslashes are doubled first, and then each quote gets a backslash; so no quote stands there
unprotected, and the first one that does is the last character of the literal.  A bare text has
neither delimiters nor a sign, and it is no lone `@`, so that it can be nothing but an atom.

A literal that stands apart from what is on both sides of it is therefore one token, and the texts
on both sides are read as they are on their own: a literal is no opening parenthesis, so it changes
nothing for the token after it.

* `Text.encodeBody_eq_protect` : what stands between the quotes, in two passes.
* `Token.hasSource_quote`, `Token.hasSource_bare` : the two spellings of a text are single tokens.
* `Token.isOneToken_of_hasSource` : a token that stands apart from the texts on both sides.
* `Token.literal_is_token` : a literal between two texts.
-/

namespace MarkupForms

/-! ## Between the quotes -/

namespace Text

/-- A text with a backslash in front of each character of one kind. -/
def protect (c : Char) (s : List Char) : List Char :=
  s.flatMap fun d => if d = c then ['\\', d] else [d]

/-- The backslashes are protected before the quotes, whose backslashes are not doubled. -/
theorem encodeBody_eq_protect (s : List Char) : encodeBody s = protect '"' (protect '\\' s) := by
  rw [protect, protect, List.flatMap_assoc]
  refine List.flatMap_congr fun c _ => ?_
  by_cases hslash : c = '\\'
  · subst hslash
    decide
  · by_cases hquote : c = '"'
    · subst hquote
      decide
    · simp [encodeChar, hslash, hquote]

/-- The other order would protect the backslash of a quote once more. -/
example : protect '\\' (protect '"' ['"']) = ['\\', '\\', '"'] := by decide

/-- What stands between the quotes reads back. -/
theorem exists_body (s : String) : ∃ body, quote s = "\"" ++ body ++ "\"" ∧
    body.toList = protect '"' (protect '\\' s.toList) ∧ unescape body = s := by
  refine ⟨String.ofList (encodeBody s.toList), ?_, ?_, ?_⟩
  · rw [← String.toList_inj]
    simp [quote, quoteChars, String.toList_append]
  · rw [String.toList_ofList, encodeBody_eq_protect]
  · rw [unescape, String.toList_ofList, decodeBody_encodeBody, String.ofList_toList]

end Text

namespace Token

open Scanner (StartsApart)

/-! ## One token -/

/-- What kind of token a literal of a text is: the text itself is an atom, and the text between
quotes is a string. -/
def IsLiteral (kind : Kind) (q s : String) : Prop :=
  (kind = .atom ∧ q = s) ∨ (kind = .string ∧ q = Text.quote s)

section

variable {afterOpen : Bool} {l : Location}

/-- A text between quotes is one token. -/
theorem hasSource_quote (s : String) :
    HasSource afterOpen l ⟨.string, s, l⟩ (Text.quote s).toList := by
  have hsource : HasSource afterOpen l _ _ := .string (Text.isBody_encodeBody s.toList)
  rw [Text.decodeBody_encodeBody, String.ofList_toList] at hsource
  rw [Text.quote, String.toList_ofList]
  exact hsource

/-- A text that is written bare is one token. -/
theorem hasSource_bare {s : String} (h : Node.isBare s.toList = true) :
    HasSource afterOpen l ⟨.atom, s, l⟩ s.toList := by
  obtain ⟨hword, hplain, hmark⟩ := isAtom_of_isBare h
  have hvar : ∀ path, Text.isPath path = true → s.toList ≠ '$' :: path := by
    intro path hpath heq
    rw [heq, Scanner.isReference, hpath] at hplain
    cases hplain
  have hsource : HasSource afterOpen l _ _ := .atom hword hvar fun _ => hmark
  rw [String.ofList_toList] at hsource
  exact hsource

/-- A literal of a text is the text between quotes, or the text itself if it can be bare. -/
theorem quoted_or_bare {q s : String} (hq : q = Text.quote s ∨ q = Text.literal s) :
    q = Text.quote s ∨ (q = s ∧ Node.isBare s.toList = true) := by
  rcases hq with hq | hq
  · exact .inl hq
  · cases hbare : Node.isBare s.toList with
    | true =>
      rw [Text.literal, Node.printLiteral_of_bare hbare, String.ofList_toList] at hq
      exact .inr ⟨hq, rfl⟩
    | false =>
      rw [Text.literal, Node.printLiteral_of_not_bare hbare] at hq
      exact .inl hq

/-- A literal is one token that means the text. -/
theorem exists_isLiteral {q s : String} (hq : q = Text.quote s ∨ q = Text.literal s) :
    ∃ kind, IsLiteral kind q s ∧ ∀ afterOpen l, HasSource afterOpen l ⟨kind, s, l⟩ q.toList := by
  rcases quoted_or_bare hq with rfl | ⟨rfl, hbare⟩
  · exact ⟨.string, .inr ⟨rfl, rfl⟩, fun _ _ => hasSource_quote s⟩
  · exact ⟨.atom, .inl ⟨rfl, rfl⟩, fun _ _ => hasSource_bare hbare⟩

/-! ## Between two texts -/

/-- A token at the end of a text that ends apart. -/
theorem Cuts.concat {u source : List Char} {xs : List Lexeme} {t : Token}
    (hu : Cuts false .origin u xs) (hend : EndsApart u)
    (ht : HasSource (endsOpening false xs) (Location.origin.advanceBy u) t source) :
    Cuts false .origin (u ++ source) (xs ++ [⟨t, source⟩]) := by
  have hnil : IsWord source → StartsApart [] := fun _ => by simp [StartsApart]
  have hlast := Cuts.token ht hnil .nil
  rw [List.append_nil] at hlast
  exact hu.append hlast (.inl hend)

end

/-- What it means that a piece between two texts is read as one token, given the tokens of the first
text. -/
structure IsOneToken (u q v : String) (us : List Token) (t : Token) : Prop where
  /-- If the second text can be read, the token stands between the tokens of the first one and those
  of the second one, which are moved to where it starts. -/
  tokens : ∀ vs, ofText v = .ok vs →
    ofText (u ++ q ++ v) =
      .ok (us.dropLast ++ t :: vs.map (moved (Location.origin.advanceBy (u ++ q).toList)))
  /-- The token is read from the characters of the piece, and from all of them. -/
  span : ∀ vs, ofText v = .ok vs → ∃ xs ys,
    Cuts false .origin (u ++ q ++ v).toList (xs ++ ⟨t, q.toList⟩ :: ys) ∧
      xs.map Lexeme.token = us.dropLast ∧
      ys.map Lexeme.token =
        vs.dropLast.map (moved (Location.origin.advanceBy (u ++ q).toList))
  /-- If the second text cannot be read, it is at fault here too. -/
  fault : ∀ e, ofText v = .error e →
    ofText (u ++ q ++ v) =
      .error ⟨(Location.origin.advanceBy (u ++ q).toList).shift e.opened⟩

/-- A token that is no opening parenthesis, between two texts that end and start apart. -/
theorem isOneToken_of_hasSource {u q v : String} {us : List Token} {t : Token}
    (hu : ofText u = .ok us) (hend : EndsApart u.toList) (hstart : StartsApart v.toList)
    (ht : ∀ afterOpen, HasSource afterOpen (Location.origin.advanceBy u.toList) t q.toList)
    (hopen : t.kind ≠ .lparen) : IsOneToken u q v us t := by
  obtain ⟨xs, hxs, hus⟩ := exists_cuts_of_ofText hu
  have hbefore : us.dropLast = xs.map Lexeme.token := by rw [hus, List.dropLast_concat]
  have hcut := hxs.concat hend (ht _)
  rw [← String.toList_append] at hcut
  have htokens : (xs ++ [(⟨t, q.toList⟩ : Lexeme)]).map Lexeme.token = us.dropLast ++ [t] := by
    rw [List.map_append, List.map_singleton, hbefore]
  -- a lone mark after the token stays an atom
  have hlast : lastIsOpening (us.dropLast ++ [t]) = false := by simp [lastIsOpening, hopen]
  have hread : ofText (u ++ q ++ v) = _ := ofText_append hcut (.inr hstart)
  rw [htokens] at hread
  refine ⟨fun vs hvs => ?tokens, fun vs hvs => ?span, fun e he => ?fault⟩
  case tokens =>
    rw [hread, hvs, Token.resumed, hlast, List.append_assoc]
    rfl
  case span =>
    obtain ⟨ys, hys, hvs⟩ := exists_cuts_of_ofText hvs
    obtain ⟨zs, hzs, hmoved⟩ := hys.resumed (endsOpening false (xs ++ [⟨t, q.toList⟩]))
      (Location.origin.advanceBy (u ++ q).toList)
    have hwhole := hcut.append hzs (.inr hstart)
    rw [← String.toList_append, List.append_assoc] at hwhole
    rw [endsOpening_false, htokens, hlast] at hmoved
    refine ⟨xs, zs, hwhole, hbefore.symm, ?_⟩
    rw [hvs, List.dropLast_concat, hmoved]
    rfl
  case fault => rw [hread, he, Token.resumed]

/-- **A written literal is one token.**  What stands between the quotes of a literal reads back.  A
literal, between quotes or bare, is one token between two texts if the first one ends apart and the
second one starts apart: an atom when it is bare and a string when it is quoted, which means the
text and is read from exactly the characters of the literal. -/
theorem literal_is_token (s : String) :
    (∃ body, Text.quote s = "\"" ++ body ++ "\"" ∧
        body.toList = Text.protect '"' (Text.protect '\\' s.toList) ∧ Text.unescape body = s) ∧
      ∀ (u q v : String) (us : List Token), q = Text.quote s ∨ q = Text.literal s →
        ofText u = .ok us → EndsApart u.toList → StartsApart v.toList →
        ∃ kind, IsLiteral kind q s ∧
          IsOneToken u q v us ⟨kind, s, Location.origin.advanceBy u.toList⟩ := by
  refine ⟨Text.exists_body s, ?_⟩
  intro u q v us hq hu hend hstart
  obtain ⟨kind, hkind, hsource⟩ := exists_isLiteral hq
  refine ⟨kind, hkind, isOneToken_of_hasSource hu hend hstart (fun b => hsource b _) ?_⟩
  rcases hkind with ⟨rfl, -⟩ | ⟨rfl, -⟩ <;> simp

/-- A lone mark after an opening parenthesis, and a word before a quote that is never closed. -/
theorem literal_after_parenthesis :
    Text.literal "@" = "\"@\"" ∧
      ofText "(" = .ok [⟨.lparen, "(", ⟨0, 1, 1⟩⟩, ⟨.eof, "", ⟨1, 1, 2⟩⟩] ∧
      (∃ kind, IsLiteral kind "\"@\"" "@" ∧
        IsOneToken "(" "\"@\"" ")" [⟨.lparen, "(", ⟨0, 1, 1⟩⟩, ⟨.eof, "", ⟨1, 1, 2⟩⟩]
          ⟨kind, "@", ⟨1, 1, 2⟩⟩) ∧
      Text.literal "é@" = "é@" ∧ ofText "" = .ok [⟨.eof, "", ⟨0, 1, 1⟩⟩] ∧
      ∃ kind, IsLiteral kind "é@" "é@" ∧
        IsOneToken "" "é@" "\n\"x" [⟨.eof, "", ⟨0, 1, 1⟩⟩] ⟨kind, "é@", ⟨0, 1, 1⟩⟩ := by
  have hmark : Text.literal "@" = "\"@\"" := by decide +kernel
  have hopen : ofText "(" = .ok [⟨.lparen, "(", ⟨0, 1, 1⟩⟩, ⟨.eof, "", ⟨1, 1, 2⟩⟩] := by
    decide +kernel
  have hword : Text.literal "é@" = "é@" := by decide +kernel
  have hempty : ofText "" = .ok [⟨.eof, "", ⟨0, 1, 1⟩⟩] := by decide +kernel
  refine ⟨hmark, hopen, ?_, hword, hempty, ?_⟩
  · exact (literal_is_token "@").2 "(" "\"@\"" ")" _ (.inr hmark.symm) hopen
      (by simp [EndsApart, Scanner.isDelimiter]) (by simp [StartsApart, Scanner.isDelimiter])
  · exact (literal_is_token "é@").2 "" "é@" "\n\"x" _ (.inr hword.symm) hempty
      (by simp [EndsApart]) (by simp [StartsApart, Scanner.isDelimiter, Text.isBlank])

end Token

end MarkupForms
