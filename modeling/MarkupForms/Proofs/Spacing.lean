import MarkupForms.Proofs.Partition

/-!
# Blanks between tokens

What stands on both sides of a blank between two tokens is read on its own.  The only thing that
the tokens on the right learn from those on the left is whether an opening parenthesis comes right
before them, where a lone `@` is a mark and no atom.  So it does not matter which blanks stand
between two tokens, and where two tokens touch each other blanks may be put between them: the tokens
keep what they are and mean, and the same tree is read.

A cut of a text comes apart at each place that is inside of no token, and two cuts are put together
where no run would go on.  What is cut may start anywhere, and only places tell the difference.

* `Token.Cuts.append`, `Token.Cuts.split` : cuts are put together and come apart.
* `Token.Cuts.alike`, `Token.Cuts.moved` : the same text at another place.
* `Token.ofText_append` : what follows a text that is cut is read on its own.
* `Grammar.isForm_of_alike` : a derivation does not depend on where its tokens stand.
* `Token.blanks_between_tokens` : what blanks do to a text and to the tree that is read from it.
-/

namespace MarkupForms

/-! ## The same text at another place -/

namespace Location

/-- A place in a text that itself starts at a place.  Only the first line is moved to the right. -/
def shift (base here : Location) : Location where
  position := base.position + here.position
  line := base.line + here.line - 1
  column := if here.line = 1 then base.column + here.column - 1 else here.column

@[simp] theorem shift_origin (base : Location) : base.shift origin = base := by
  simp [shift, origin]

theorem line_le_line_advance (here : Location) (c : Char) : here.line ≤ (here.advance c).line := by
  unfold advance
  split
  · show here.line ≤ here.line + 1
    omega
  · exact Int.le_refl here.line

theorem shift_advance {base here : Location} (h : 1 ≤ here.line) (c : Char) :
    base.shift (here.advance c) = (base.shift here).advance c := by
  by_cases hc : c = '\n'
  · have hline : ¬ here.line + 1 = 1 := by omega
    simp only [shift, advance, hc, if_true, if_neg hline, Location.mk.injEq, and_true]
    omega
  · by_cases hfirst : here.line = 1
    · simp only [shift, advance, hc, if_false, if_pos hfirst, Location.mk.injEq, true_and]
      omega
    · simp only [shift, advance, hc, if_false, if_neg hfirst, Location.mk.injEq, and_true]
      omega

theorem shift_advanceBy {base here : Location} (h : 1 ≤ here.line) (s : List Char) :
    base.shift (here.advanceBy s) = (base.shift here).advanceBy s ∧
      1 ≤ (here.advanceBy s).line := by
  induction s generalizing here with
  | nil => exact ⟨rfl, h⟩
  | cons c s ih =>
    have hline : 1 ≤ (here.advance c).line := Int.le_trans h (line_le_line_advance here c)
    rw [advanceBy_cons, advanceBy_cons, ← shift_advance h]
    exact ih hline

/-- Walking over a text from any place. -/
theorem advanceBy_eq_shift (base : Location) (s : List Char) :
    base.advanceBy s = base.shift (origin.advanceBy s) := by
  rw [(shift_advanceBy (by simp [origin]) s).1, shift_origin]

end Location

namespace Token

/-- What a token is and means, wherever it stands. -/
def meaning (t : Token) : Kind × String :=
  (t.kind, t.value)

/-- A token of a text that itself starts at a place. -/
def moved (base : Location) (t : Token) : Token :=
  { t with location := base.shift t.location }

/-- A token right after an opening parenthesis, where a lone `@` is a mark. -/
def opened (t : Token) : Token :=
  if t.kind = .atom ∧ t.value = "@" then { t with kind := .mark } else t

/-- Tokens after some others, given whether the last one of those is an opening parenthesis. -/
def following : Bool → List Token → List Token
  | true, t :: ts => t.opened :: ts
  | _, ts => ts

end Token

/-- The same lexeme in a text that itself starts at a place. -/
def Lexeme.moved (base : Location) (x : Lexeme) : Lexeme :=
  { x with token := x.token.moved base }

namespace Token

open Scanner (StartsApart isDelimiter)

section

variable {afterOpen : Bool} {l : Location} {t : Token} {source text u v : List Char}
  {xs ys : List Lexeme}

theorem HasSource.at (h : HasSource afterOpen l t source) (l' : Location) :
    HasSource afterOpen l' { t with location := l' } source := by
  cases h with
  | lparen => exact .lparen
  | rparen => exact .rparen
  | string hbody => exact .string hbody
  | var hpath => exact .var hpath
  | mark hopen => exact .mark hopen
  | atom hw hvar hmark => exact .atom hw hvar hmark

theorem HasSource.moved (h : HasSource afterOpen l t source) (base : Location) :
    HasSource afterOpen (base.shift l) (t.moved base) source := by
  rw [Token.moved, h.location]
  exact h.at (base.shift l)

/-- The same source right after an opening parenthesis. -/
theorem HasSource.opened (h : HasSource false l t source) :
    HasSource true l t.opened source := by
  cases h with
  | lparen => exact .lparen
  | rparen => exact .rparen
  | string hbody => exact .string hbody
  | var hpath => exact .var hpath
  | mark hopen => cases hopen
  | atom hw hvar =>
    by_cases hlone : source = ['@']
    · subst hlone
      exact .mark rfl
    · have hvalue : String.ofList source ≠ "@" := by
        intro heq
        apply hlone
        rw [← String.toList_ofList (l := source), heq]
        rfl
      have hopened :
          opened ⟨.atom, String.ofList source, l⟩ = ⟨.atom, String.ofList source, l⟩ := by
        simp [Token.opened, hvalue]
      rw [hopened]
      exact .atom hw hvar fun _ => hlone

theorem kind_opened (t : Token) : (t.opened.kind == .lparen) = (t.kind == .lparen) := by
  unfold opened
  split
  · rename_i hatom
    rw [hatom.1]
    rfl
  · rfl

/-- A cut of a text that starts at another place. -/
theorem Cuts.moved (h : Cuts afterOpen l text xs) (hl : 1 ≤ l.line) (base : Location) :
    Cuts afterOpen (base.shift l) text (xs.map (·.moved base)) := by
  induction h with
  | nil => exact .nil
  | @blank _ l c rest xs hc _ ih =>
    refine .blank hc ?_
    rw [← Location.shift_advance hl]
    exact ih (Int.le_trans hl (Location.line_le_line_advance l c))
  | @token _ l t source rest xs hsource hcut _ ih =>
    have hshift : base.shift (l.advanceBy source) = (base.shift l).advanceBy source ∧ _ :=
      Location.shift_advanceBy hl source
    refine .token (hsource.moved base) hcut ?_
    rw [← hshift.1]
    exact ih hshift.2

/-- A cut that starts at another place has tokens with the same meaning. -/
theorem Cuts.alike (h : Cuts afterOpen l text xs) (l' : Location) :
    ∃ ys, Cuts afterOpen l' text ys ∧
      ys.map (fun y => y.token.meaning) = xs.map (fun x => x.token.meaning) := by
  induction h generalizing l' with
  | nil => exact ⟨[], .nil, rfl⟩
  | @blank _ _ c _ _ hc _ ih =>
    obtain ⟨ys, hys, hmeaning⟩ := ih (l'.advance c)
    exact ⟨ys, .blank hc hys, hmeaning⟩
  | @token _ _ t source _ _ hsource hcut _ ih =>
    obtain ⟨ys, hys, hmeaning⟩ := ih (l'.advanceBy source)
    refine ⟨⟨{ t with location := l' }, source⟩ :: ys, .token (hsource.at l') hcut hys, ?_⟩
    rw [List.map_cons, List.map_cons, hmeaning]
    rfl

/-- A cut of a text right after an opening parenthesis. -/
theorem Cuts.opened (h : Cuts false l text xs) :
    ∃ ys, Cuts true l text ys ∧ ys.map Lexeme.token = following true (xs.map Lexeme.token) := by
  generalize hfalse : false = afterOpen at h
  induction h with
  | nil => exact ⟨[], .nil, rfl⟩
  | blank hc _ ih =>
    obtain ⟨ys, hys, htokens⟩ := ih hfalse
    exact ⟨ys, .blank hc hys, htokens⟩
  | @token _ _ t source _ xs hsource hcut hrest _ =>
    subst hfalse
    refine ⟨⟨t.opened, source⟩ :: xs, .token hsource.opened hcut ?_, rfl⟩
    rw [kind_opened]
    exact hrest

/-! ## Cuts are put together and come apart -/

theorem EndsApart.of_append (h : EndsApart (u ++ v)) : EndsApart v := by
  intro c hc
  apply h
  rw [List.getLast?_append]
  simp [Option.mem_def.1 hc]

/-- Two cuts are put together where no run goes on. -/
theorem Cuts.append (hu : Cuts afterOpen l u xs)
    (hv : Cuts (endsOpening afterOpen xs) (l.advanceBy u) v ys)
    (hapart : EndsApart u ∨ StartsApart v) : Cuts afterOpen l (u ++ v) (xs ++ ys) := by
  induction hu with
  | nil => exact hv
  | @blank _ _ c rest _ hc _ ih =>
    refine .blank hc (ih hv ?_)
    exact hapart.imp_left fun hend => EndsApart.of_append (u := [c]) hend
  | @token _ _ _ source rest _ hsource hcut _ ih =>
    rw [List.append_assoc, List.cons_append]
    rw [Location.advanceBy_append] at hv
    refine .token hsource ?_ (ih hv (hapart.imp_left EndsApart.of_append))
    intro hw
    cases rest with
    | cons c rest => exact hcut hw
    | nil =>
      rcases hapart with hend | hstart
      · -- a run does not end apart
        obtain ⟨c, hc⟩ := List.getLast?_isSome.2 hw.1 |> Option.isSome_iff_exists.1
        have hdelimiter := hend c (by simpa using hc)
        rw [hw.2 c (List.mem_of_getLast? hc)] at hdelimiter
        cases hdelimiter
      · exact hstart

/-- A cut comes apart at a place that is inside of no token. -/
theorem Cuts.split (h : Cuts afterOpen l (u ++ v) xs)
    (hplace : ∀ x ∈ xs, x.stop ≤ l.position + u.length ∨ l.position + u.length ≤ x.start) :
    ∃ ys zs, xs = ys ++ zs ∧ Cuts afterOpen l u ys ∧
      Cuts (endsOpening afterOpen ys) (l.advanceBy u) v zs := by
  generalize htext : u ++ v = text at h
  induction h generalizing u with
  | nil =>
    obtain ⟨rfl, rfl⟩ := List.append_eq_nil_iff.1 htext
    exact ⟨[], [], rfl, .nil, .nil⟩
  | @blank _ l c rest xs hc hrest ih =>
    cases u with
    | nil =>
      obtain rfl : v = c :: rest := htext
      exact ⟨[], xs, rfl, .nil, .blank hc hrest⟩
    | cons d u =>
      obtain ⟨rfl, htail⟩ := List.cons.inj htext
      have hplace' : ∀ x ∈ xs, x.stop ≤ (l.advance d).position + u.length ∨
          (l.advance d).position + u.length ≤ x.start := by
        intro x hx
        have hx' := hplace x hx
        rw [Location.position_advance]
        simp only [List.length_cons] at hx'
        omega
      obtain ⟨ys, zs, rfl, hys, hzs⟩ := ih hplace' htail
      exact ⟨ys, zs, rfl, .blank hc hys, hzs⟩
  | @token _ l t source rest xs hsource hcut hrest ih =>
    have hstart : (⟨t, source⟩ : Lexeme).start = l.position := by
      rw [Lexeme.start, hsource.location]
    have hstop : (⟨t, source⟩ : Lexeme).stop = l.position + source.length := by
      rw [Lexeme.stop, hstart]
    have hfirst := hplace ⟨t, source⟩ List.mem_cons_self
    rw [hstop, hstart] at hfirst
    by_cases hempty : u = []
    · subst hempty
      obtain rfl : v = source ++ rest := htext
      exact ⟨[], _, rfl, .nil, .token hsource hcut hrest⟩
    · have hpos := List.length_pos_iff.2 hempty
      have hlength : source.length ≤ u.length := by omega
      obtain ⟨u, rfl⟩ := List.prefix_of_prefix_length_le (List.prefix_append source rest)
        (htext ▸ List.prefix_append u v) hlength
      rw [List.append_assoc, List.append_cancel_left_eq] at htext
      have hplace' : ∀ x ∈ xs, x.stop ≤ (l.advanceBy source).position + u.length ∨
          (l.advanceBy source).position + u.length ≤ x.start := by
        intro x hx
        have hx' := hplace x (List.mem_cons_of_mem _ hx)
        rw [Location.position_advanceBy]
        simp only [List.length_append] at hx'
        omega
      obtain ⟨ys, zs, rfl, hys, hzs⟩ := ih hplace' htext
      have hcut' : IsWord source → StartsApart u := by
        intro hw
        have hapart := hcut hw
        rw [← htext] at hapart
        cases u with
        | nil => simp [StartsApart]
        | cons c u => exact hapart
      refine ⟨⟨t, source⟩ :: ys, zs, rfl, .token hsource hcut' hys, ?_⟩
      rw [Location.advanceBy_append]
      exact hzs

end

end Token

/-! ## Trees -/

namespace Grammar

open Token (meaning)

variable {ts us : List Token}

theorem isLeaf_of_alike {t u : Token} {n : Node} (h : t.meaning = u.meaning) (ht : IsLeaf t n) :
    IsLeaf u n := by
  obtain ⟨hkind, hvalue⟩ := Prod.mk.inj h
  cases ht with
  | atom ht =>
    rw [hvalue]
    exact .atom (hkind ▸ ht)
  | string ht =>
    rw [hvalue]
    exact .string (hkind ▸ ht)
  | var ht =>
    rw [hvalue]
    exact .var (hkind ▸ ht)

theorem isPairs_of_alike {as : Attributes} (h : IsPairs ts as)
    (hus : us.map meaning = ts.map meaning) : IsPairs us as := by
  induction h generalizing us with
  | nil =>
    obtain rfl := List.map_eq_nil_iff.1 hus
    exact .nil
  | cons ho hk hv hc _ ih =>
    simp only [List.map_cons, List.map_eq_cons_iff] at hus
    obtain ⟨o, _, rfl, ho', k, _, rfl, hk', v, _, rfl, hv', c, us, rfl, hc', hus⟩ := hus
    obtain ⟨hokind, -⟩ := Prod.mk.inj ho'
    obtain ⟨hkkind, hkvalue⟩ := Prod.mk.inj hk'
    obtain ⟨hckind, -⟩ := Prod.mk.inj hc'
    rw [← hkvalue]
    exact .cons (hokind.trans ho) (hkkind.trans hk) (isLeaf_of_alike hv'.symm hv)
      (hckind.trans hc) (ih hus)

theorem isOptionalBlock_of_alike {as : Option Attributes} (h : IsOptionalBlock ts as)
    (hus : us.map meaning = ts.map meaning) : IsOptionalBlock us as := by
  cases h with
  | none =>
    obtain rfl := List.map_eq_nil_iff.1 hus
    exact .none
  | some h =>
    obtain ⟨ho, hm, hpairs, hc, distinct⟩ := h
    simp only [List.map_cons, List.map_append, List.map_nil, List.cons_append,
      List.map_eq_cons_iff, List.map_eq_append_iff, List.map_eq_nil_iff] at hus
    obtain ⟨o, _, rfl, ho', m, _, rfl, hm', us, _, rfl, hus, c, _, rfl, hc', rfl⟩ := hus
    obtain ⟨hokind, -⟩ := Prod.mk.inj ho'
    obtain ⟨hmkind, -⟩ := Prod.mk.inj hm'
    obtain ⟨hckind, -⟩ := Prod.mk.inj hc'
    exact .some (.mk (hokind.trans ho) (hmkind.trans hm) (isPairs_of_alike hpairs hus)
      (hckind.trans hc) distinct)

mutual

/-- A derivation does not depend on where its tokens stand. -/
theorem isForm_of_alike {ts us : List Token} {f : Form} (h : IsForm ts f)
    (hus : us.map meaning = ts.map meaning) : IsForm us f := by
  match h with
  | .mk ho ha hblock hchildren hc =>
    simp only [List.map_cons, List.map_append, List.map_nil, List.cons_append,
      List.map_eq_cons_iff, List.map_eq_append_iff, List.map_eq_nil_iff] at hus
    obtain ⟨o, _, rfl, ho', a, _, rfl, ha', _, _, rfl, ⟨block, us, rfl, hblock', hus⟩, c, _, rfl,
      hc', rfl⟩ := hus
    obtain ⟨hokind, -⟩ := Prod.mk.inj ho'
    obtain ⟨hakind, havalue⟩ := Prod.mk.inj ha'
    obtain ⟨hckind, -⟩ := Prod.mk.inj hc'
    rw [← havalue]
    exact .mk (hokind.trans ho) (hakind.trans ha) (isOptionalBlock_of_alike hblock hblock')
      (isChildren_of_alike hchildren hus) (hckind.trans hc)

/-- The same for children. -/
theorem isChildren_of_alike {ts us : List Token} {ns : List Node} (h : IsChildren ts ns)
    (hus : us.map meaning = ts.map meaning) : IsChildren us ns := by
  match h with
  | .nil =>
    obtain rfl := List.map_eq_nil_iff.1 hus
    exact .nil
  | .leaf hleaf hrest =>
    obtain ⟨u, us, rfl, hu, hus⟩ := List.map_eq_cons_iff.1 hus
    exact .leaf (isLeaf_of_alike hu.symm hleaf) (isChildren_of_alike hrest hus)
  | .form hform hrest =>
    rw [List.map_append] at hus
    obtain ⟨first, us, rfl, hfirst, hus⟩ := List.map_eq_append_iff.1 hus
    exact .form (isForm_of_alike hform hfirst) (isChildren_of_alike hrest hus)

end

end Grammar

/-! ## Texts -/

/-- Whether two texts have the same tokens, wherever they stand, and the same tree. -/
structure ReadAlike (a b : String) : Prop where
  /-- The same tokens are read. -/
  tokens : (Token.ofText a).toOption.map (List.map Token.meaning) =
    (Token.ofText b).toOption.map (List.map Token.meaning)
  /-- The same tree is read. -/
  tree : (Form.ofText? a).toOption = (Form.ofText? b).toOption

namespace Form

/-- What is read from tokens does not depend on where they stand. -/
theorem toOption_ofTokens?_of_alike {ts us : List Token}
    (h : us.map Token.meaning = ts.map Token.meaning) :
    (ofTokens? us).toOption = (ofTokens? ts).toOption := by
  have hend : (beforeEnd us).map Token.meaning = (beforeEnd ts).map Token.meaning := by
    have hkind (xs : List Token) : (beforeEnd xs).map Token.meaning =
        (xs.map Token.meaning).takeWhile fun m => m.1 != .eof := by
      rw [List.takeWhile_map]
      rfl
    rw [hkind, hkind, h]
  have hread (f : Form) : ofTokens? us = .ok f ↔ ofTokens? ts = .ok f := by
    rw [ofTokens?_eq_ok_iff, ofTokens?_eq_ok_iff]
    constructor
    · intro hform
      exact Grammar.isForm_of_alike hform hend.symm
    · intro hform
      exact Grammar.isForm_of_alike hform hend
  cases hus : ofTokens? us with
  | ok f => rw [(hread f).1 hus]
  | error e =>
    cases hts : ofTokens? ts with
    | error e' => rfl
    | ok f =>
      rw [(hread f).2 hts] at hus
      cases hus

end Form

/-- Texts with the same tokens have the same tree. -/
theorem ReadAlike.of_tokens {a b : String}
    (h : (Token.ofText a).toOption.map (List.map Token.meaning) =
      (Token.ofText b).toOption.map (List.map Token.meaning)) : ReadAlike a b := by
  refine ⟨h, ?_⟩
  have htree (c : String) : (Form.ofText? c).toOption =
      (Token.ofText c).toOption.bind fun ts => (Form.ofTokens? ts).toOption := by
    unfold Form.ofText?
    cases Token.ofText c with
    | error e => rfl
    | ok ts =>
      cases hts : Form.ofTokens? ts <;> simp [Except.toOption, hts]
  rw [htree, htree]
  cases ha : (Token.ofText a).toOption with
  | none =>
    rw [ha] at h
    rw [Option.map_eq_none_iff.1 h.symm]
  | some ts =>
    rw [ha, Option.map_some, eq_comm, Option.map_eq_some_iff] at h
    obtain ⟨us, hb, hus⟩ := h
    rw [hb]
    exact Form.toOption_ofTokens?_of_alike hus.symm

/-- Blanks, at least one of them. -/
def IsGap (w : String) : Prop :=
  w ≠ "" ∧ ∀ c ∈ w.toList, Text.isBlank c = true

instance (w : String) : Decidable (IsGap w) :=
  @instDecidableAnd _ _ inferInstance (List.decidableBAll _ w.toList)

namespace Token

open Scanner (StartsApart isDelimiter)

/-- Whether the last of some tokens is an opening parenthesis. -/
def lastIsOpening (ts : List Token) : Bool :=
  ts.getLast?.any fun t => t.kind == .lparen

/-- The tokens before a gap, and after them what the rest of the text gives on its own, moved to
where it starts. -/
def resumed (us : List Token) (base : Location) :
    Except UnclosedQuote (List Token) → Except UnclosedQuote (List Token)
  | .ok vs => .ok (us ++ following (lastIsOpening us) (vs.map (moved base)))
  | .error e => .error ⟨base.shift e.opened⟩

/-- Whether two texts can be put together so that no token goes on from one to the other. -/
def Adjoining (u v : String) : Prop :=
  ∃ xs, Cuts false .origin (u ++ v).toList xs ∧
    ∀ x ∈ xs, x.stop ≤ u.length ∨ (u.length : Int) ≤ x.start

theorem endsOpening_eq (afterOpen : Bool) (xs : List Lexeme) :
    endsOpening afterOpen xs =
      if xs = [] then afterOpen else lastIsOpening (xs.map Lexeme.token) := by
  induction xs generalizing afterOpen with
  | nil => rfl
  | cons x xs ih =>
    rw [endsOpening, ih]
    cases xs with
    | nil => rfl
    | cons y ys => simp [lastIsOpening, List.getLast?_cons_cons]

theorem endsOpening_false (xs : List Lexeme) :
    endsOpening false xs = lastIsOpening (xs.map Lexeme.token) := by
  rw [endsOpening_eq]
  split
  · rename_i hempty
    rw [hempty]
    rfl
  · rfl

theorem exists_cuts_of_ofText {text : String} {ts : List Token} (h : ofText text = .ok ts) :
    ∃ xs, Cuts false .origin text.toList xs ∧
      ts = xs.map Lexeme.token ++ [⟨.eof, "", Location.origin.advanceBy text.toList⟩] := by
  rcases cuts_or_breaks false .origin text.toList with ⟨xs, hxs⟩ | ⟨opened, hbreaks⟩
  · rw [ofText, scan_of_cuts hxs] at h
    exact ⟨xs, hxs, (Except.ok.inj h).symm⟩
  · rw [ofText, scan_of_breaks hbreaks] at h
    cases h

theorem cuts_gap {w : String} (hw : IsGap w) (afterOpen : Bool) (l : Location) :
    Cuts afterOpen l w.toList [] := by
  have hblank := hw.2
  generalize w.toList = s at hblank
  induction s generalizing l with
  | nil => exact .nil
  | cons c s ih =>
    refine .blank (hblank c List.mem_cons_self) (ih _ ?_)
    intro d hd
    exact hblank d (List.mem_cons_of_mem c hd)

/-- Nothing goes on across a gap. -/
theorem apart_gap {w : String} (hw : IsGap w) (u : List Char) :
    StartsApart w.toList ∧ EndsApart (u ++ w.toList) := by
  have hdelimiter : ∀ c ∈ w.toList, isDelimiter c = true := by
    intro c hc
    simp [isDelimiter, hw.2 c hc]
  constructor
  · intro c hc
    exact hdelimiter c (List.mem_of_mem_head? hc)
  · intro c hc
    obtain ⟨d, hd⟩ : ∃ d, w.toList.getLast? = some d := by
      rw [← Option.isSome_iff_exists, List.getLast?_isSome, ne_eq, String.toList_eq_nil_iff]
      exact hw.1
    rw [List.getLast?_append, hd, Option.some_or, Option.mem_some_iff] at hc
    rw [← hc]
    exact hdelimiter d (List.mem_of_getLast? hd)

/-- A cut and a gap. -/
theorem Cuts.concat_gap {u : List Char} {w : String} {xs : List Lexeme}
    (hu : Cuts false .origin u xs) (hw : IsGap w) : Cuts false .origin (u ++ w.toList) xs := by
  have hgap := hu.append (cuts_gap hw _ _) (.inr (apart_gap hw u).1)
  rwa [List.append_nil] at hgap

/-- A cut, a gap and another cut. -/
theorem Cuts.append_gap {u v : List Char} {w : String} {xs ys : List Lexeme}
    (hu : Cuts false .origin u xs) (hw : IsGap w)
    (hv : Cuts (endsOpening false xs) (Location.origin.advanceBy (u ++ w.toList)) v ys) :
    Cuts false .origin (u ++ w.toList ++ v) (xs ++ ys) :=
  (hu.concat_gap hw).append hv (.inl (apart_gap hw u).2)

/-- A cut of a text after other tokens. -/
theorem Cuts.resumed {v : List Char} {ys : List Lexeme} (h : Cuts false .origin v ys)
    (afterOpen : Bool) (base : Location) :
    ∃ zs, Cuts afterOpen base v zs ∧
      zs.map Lexeme.token = following afterOpen ((ys.map Lexeme.token).map (Token.moved base)) := by
  have hmoved := h.moved (Int.le_refl 1) base
  rw [Location.shift_origin] at hmoved
  have htokens : (ys.map (·.moved base)).map Lexeme.token =
      (ys.map Lexeme.token).map (Token.moved base) := by
    rw [List.map_map, List.map_map]
    rfl
  cases afterOpen with
  | false => exact ⟨_, hmoved, htokens⟩
  | true =>
    obtain ⟨zs, hzs, hopened⟩ := hmoved.opened
    exact ⟨zs, hzs, by rw [hopened, htokens]⟩

theorem following_concat (afterOpen : Bool) (ts : List Token) {e : Token} (he : e.kind = .eof) :
    following afterOpen (ts ++ [e]) = following afterOpen ts ++ [e] := by
  cases afterOpen with
  | false => rfl
  | true =>
    cases ts with
    | nil => simp [following, opened, he]
    | cons t ts => rfl

/-- What follows a text that is cut is read on its own, where no run goes on from one to the
other. -/
theorem ofText_append {u v : String} {xs : List Lexeme} (hu : Cuts false .origin u.toList xs)
    (hapart : EndsApart u.toList ∨ StartsApart v.toList) :
    ofText (u ++ v) =
      resumed (xs.map Lexeme.token) (Location.origin.advanceBy u.toList) (ofText v) := by
  generalize hbase : Location.origin.advanceBy u.toList = base
  rw [ofText, String.toList_append]
  rcases cuts_or_breaks false .origin v.toList with ⟨ys, hys⟩ | ⟨opened, hbreaks⟩
  · obtain ⟨zs, hzs, htokens⟩ := hys.resumed (endsOpening false xs) base
    have hcut := hu.append (hbase ▸ hzs) hapart
    have hend : (⟨.eof, "", Location.origin.advanceBy (u.toList ++ v.toList)⟩ : Token) =
        moved base ⟨.eof, "", Location.origin.advanceBy v.toList⟩ := by
      rw [moved, Location.advanceBy_append, hbase, Location.advanceBy_eq_shift]
    rw [scan_of_cuts hcut, ofText, scan_of_cuts hys, Token.resumed, hend, List.map_append,
      htokens, List.map_append, List.map_singleton, following_concat _ _ rfl, endsOpening_false,
      List.append_assoc]
  · obtain ⟨inside, rest, ys, hv, hys, hnever, rfl⟩ := hbreaks
    obtain ⟨zs, hzs, -⟩ := hys.resumed (endsOpening false xs) base
    have hinside : EndsApart u.toList ∨ StartsApart inside := by
      refine hapart.imp_right fun hstart => ?_
      cases inside with
      | nil => simp [StartsApart]
      | cons c inside =>
        rw [hv] at hstart
        exact hstart
    have hcut := hu.append (hbase ▸ hzs) hinside
    have hopened : base.shift (Location.origin.advanceBy inside) =
        Location.origin.advanceBy (u.toList ++ inside) := by
      rw [← Location.advanceBy_eq_shift, Location.advanceBy_append, hbase]
    have hbroken : Breaks false .origin (u.toList ++ v.toList)
        (base.shift (Location.origin.advanceBy inside)) := by
      refine ⟨u.toList ++ inside, rest, xs ++ zs, ?_, hcut, hnever, hopened⟩
      rw [hv, List.append_assoc]
    rw [scan_of_breaks hbroken, ofText, scan_of_breaks ⟨inside, rest, ys, hv, hys, hnever, rfl⟩,
      Token.resumed]

/-- What stands on both sides of a gap is read on its own. -/
theorem ofText_gap {u w v : String} {us : List Token} (hu : ofText u = .ok us) (hw : IsGap w) :
    ofText (u ++ w ++ v) = resumed us.dropLast (Location.origin.advanceBy (u ++ w).toList)
      (ofText v) := by
  obtain ⟨xs, hxs, rfl⟩ := exists_cuts_of_ofText hu
  have hgap := hxs.concat_gap hw
  have hapart := (apart_gap hw u.toList).2
  rw [← String.toList_append] at hgap hapart
  rw [List.dropLast_concat, ofText_append hgap (.inl hapart)]

/-- Where the rest of the text starts makes no difference to what its tokens mean. -/
theorem meaning_resumed (us : List Token) (base base' : Location)
    (r : Except UnclosedQuote (List Token)) :
    (resumed us base r).toOption.map (List.map meaning) =
      (resumed us base' r).toOption.map (List.map meaning) := by
  have hmoved (b : Location) (t : Token) :
      (t.moved b).meaning = t.meaning ∧ (t.moved b).opened.meaning = t.opened.meaning := by
    refine ⟨rfl, ?_⟩
    unfold opened
    rw [apply_ite meaning, apply_ite meaning]
    rfl
  have hmap (b : Location) (vs : List Token) :
      (vs.map (moved b)).map meaning = vs.map meaning := by
    rw [List.map_map]
    exact List.map_congr_left fun t _ => (hmoved b t).1
  cases r with
  | error e => rfl
  | ok vs =>
    have hfollowing (b : Location) : (following (lastIsOpening us) (vs.map (moved b))).map meaning =
        (following (lastIsOpening us) vs).map meaning := by
      cases lastIsOpening us with
      | false => exact hmap b vs
      | true =>
        cases vs with
        | nil => rfl
        | cons v vs =>
          simp only [following, List.map_cons, (hmoved b v).2, hmap b vs]
    simp only [resumed, Except.toOption, Option.map_some, List.map_append, hfollowing]

/-- It does not matter which blanks stand between two tokens. -/
theorem readAlike_of_gaps {u w w' v : String} {us : List Token} (hu : ofText u = .ok us)
    (hw : IsGap w) (hw' : IsGap w') : ReadAlike (u ++ w ++ v) (u ++ w' ++ v) := by
  apply ReadAlike.of_tokens
  rw [ofText_gap hu hw, ofText_gap hu hw']
  exact meaning_resumed _ _ _ _

/-- Blanks may be put where no token goes on. -/
theorem readAlike_of_adjoining {u w v : String} (h : Adjoining u v) (hw : IsGap w) :
    ReadAlike (u ++ w ++ v) (u ++ v) := by
  obtain ⟨xs, hxs, hplace⟩ := h
  rw [String.toList_append] at hxs
  have hplace' : ∀ x ∈ xs, x.stop ≤ Location.origin.position + u.toList.length ∨
      Location.origin.position + u.toList.length ≤ x.start := by
    intro x hx
    have hx' := hplace x hx
    rw [String.length_toList]
    simpa [Location.origin] using hx'
  obtain ⟨ys, zs, rfl, hys, hzs⟩ := hxs.split hplace'
  obtain ⟨zs', hzs', hmeaning⟩ := hzs.alike (Location.origin.advanceBy (u.toList ++ w.toList))
  have hcut := hys.append_gap hw hzs'
  apply ReadAlike.of_tokens
  rw [ofText, ofText, String.toList_append, String.toList_append, String.toList_append,
    scan_of_cuts hxs, scan_of_cuts hcut]
  have hlist (ms : List Lexeme) : (ms.map Lexeme.token).map meaning =
      ms.map fun x => x.token.meaning := by
    rw [List.map_map]
    rfl
  simp only [Except.toOption, Option.map_some, List.map_append, hlist, hmeaning]
  rfl

/-- **Blanks between tokens.**  What stands on both sides of a gap is read on its own, where the
right side is moved to its place and a lone `@` at its start is a mark after an opening parenthesis.
So other blanks between two tokens, and blanks where there were none, change neither the tokens nor
the tree. -/
theorem blanks_between_tokens :
    (∀ (u w v : String) (us : List Token), ofText u = .ok us → IsGap w →
        ofText (u ++ w ++ v) =
          resumed us.dropLast (Location.origin.advanceBy (u ++ w).toList) (ofText v)) ∧
      (∀ (u w w' v : String) (us : List Token), ofText u = .ok us → IsGap w → IsGap w' →
        ReadAlike (u ++ w ++ v) (u ++ w' ++ v)) ∧
      ∀ u w v : String, Adjoining u v → IsGap w → ReadAlike (u ++ w ++ v) (u ++ v) := by
  refine ⟨?_, ?_, ?_⟩
  · intro u w v us hu hw
    exact ofText_gap hu hw
  · intro u w w' v us hu hw hw'
    exact readAlike_of_gaps hu hw hw'
  · intro u w v huv hw
    exact readAlike_of_adjoining huv hw

/-- A mark at the start of a line, other blanks before it, and none. -/
theorem blanks_before_mark :
    ofText "( @" = .ok [⟨.lparen, "(", ⟨0, 1, 1⟩⟩, ⟨.mark, "@", ⟨2, 1, 3⟩⟩, ⟨.eof, "", ⟨3, 1, 4⟩⟩] ∧
      ReadAlike "( @" "(\n\t@" ∧ ReadAlike "( @" "(@" := by
  have hopen : ofText "(" = .ok [⟨.lparen, "(", ⟨0, 1, 1⟩⟩, ⟨.eof, "", ⟨1, 1, 2⟩⟩] := by
    decide +kernel
  refine ⟨?_, ?_, ?_⟩
  · exact (blanks_between_tokens.1 "(" " " "@" _ hopen (by decide)).trans (by decide +kernel)
  · exact blanks_between_tokens.2.1 "(" " " "\n\t" "@" _ hopen (by decide) (by decide)
  · refine blanks_between_tokens.2.2 "(" " " "@" ?_ (by decide)
    refine ⟨[⟨⟨.lparen, "(", .origin⟩, ['(']⟩, ⟨⟨.mark, "@", ⟨1, 1, 2⟩⟩, ['@']⟩], ?_,
      by decide +kernel⟩
    exact .token .lparen (fun hw => absurd hw (by decide))
      (.token (.mark rfl) (fun _ => by simp [StartsApart]) .nil)

end Token

end MarkupForms
