import MarkupForms.Yaml.Inline

/-!
# The tokens of written documents

A document that is written with a line for each entry of a map is cut into the tokens of these
entries.  That something is a key shows at the colon after it only: up to there the place where it
started is remembered, and a key on a line of its own must not be too long.  Between brackets
nothing has to be a key, and no indentation counts.

A reading is a sequence of steps from one state to another one, with at most one token for each
character in between, so that the bound on the number of tokens is never met.

* `Layout.Stands`, `Layout.Reached` : the states that are met.
* `Layout.finish_eq` : one step.
* `Layout.Reached.leads_key` : a key is read with the colon after it.
* `Layout.leads_chars`, `Layout.leads_items`, `Layout.leads_entries` : a value is read up to its
  end.
* `tokensOf_lines` : the tokens of a document.
-/

namespace MarkupForms.Yaml

/-! ## Places -/

namespace Cursor

variable {p : Cursor} {a r : List Char}

theorem skip_append (h : p.rest = a ++ r) : p.moveTo r = p.skip a.length := by
  rw [moveTo, h, List.length_append, Nat.add_sub_cancel]

theorem rest_moveTo (h : p.rest = a ++ r) : (p.moveTo r).rest = r := by
  rw [skip_append h, rest_skip, h, List.drop_left]

theorem next_of_cons {c : Char} (h : p.rest = c :: r) :
    p.next =
      ⟨r, p.index + 1, if isBreak c then p.line + 1 else p.line, columnAfter p.column c⟩ := by
  rw [next]
  split
  · rename_i hnil
    rw [hnil] at h
    cases h
  · rename_i hcons
    rw [hcons] at h
    cases h
    rfl

theorem index_moveTo (h : p.rest = a ++ r) : (p.moveTo r).index = p.index + a.length := by
  rw [skip_append h]
  induction a generalizing p with
  | nil => rfl
  | cons c a ih =>
    have hnext := next_of_cons h
    have hindex := ih (p := p.next) (by rw [hnext]; rfl)
    have hstep : p.next.index = p.index + 1 := by rw [hnext]
    rw [List.length_cons, skip, hindex, hstep]
    omega

/-- The line stays the same unless there is a break. -/
theorem line_moveTo (h : p.rest = a ++ r) (ha : ∀ c ∈ a, isBreak c = false) :
    (p.moveTo r).line = p.line := by
  rw [skip_append h]
  induction a generalizing p with
  | nil => rfl
  | cons c a ih =>
    obtain ⟨hc, ha⟩ := List.forall_mem_cons.1 ha
    have hnext := next_of_cons h
    have hline := ih (p := p.next) (by rw [hnext]; rfl) ha
    rw [List.length_cons, skip, hline, hnext, hc, if_neg Bool.false_ne_true]

/-- After a newline a line starts. -/
theorem column_moveTo (h : p.rest = (a ++ ['\n']) ++ r) : (p.moveTo r).column = 0 := by
  rw [skip_append h]
  induction a generalizing p with
  | nil =>
    rw [List.nil_append, List.singleton_append] at h
    have hnext := next_of_cons h
    change p.next.column = 0
    rw [hnext]
    rfl
  | cons c a ih =>
    have hnext := next_of_cons h
    rw [List.cons_append, List.length_cons, skip]
    exact ih (by rw [hnext]; rfl)

end Cursor

namespace Layout

/-! ## One token -/

variable {l l' : Layout} {rest : List Char} {ts : List Token} {indents : List Nat}
  {flow : List Bracket}

/-- Whether no key has to start where one may have started. -/
def IsLoose (o : Option Mark) : Prop :=
  ∀ m ∈ o, m.required = false

/-- What a document has come to, apart from where a key may have started last. -/
structure Stands (l : Layout) (rest : List Char) (ts : List Token) (indents : List Nat)
    (flow : List Bracket) : Prop where
  /-- What follows. -/
  rest : l.place.rest = rest
  /-- The tokens so far. -/
  tokens : l.tokens.toList = ts
  /-- The indentations around. -/
  indents : l.indents = indents
  /-- The brackets around. -/
  flow : l.brackets.map Prod.fst = flow
  /-- No key has to start outside of them. -/
  loose : ∀ b ∈ l.brackets, IsLoose b.2

theorem IsLoose.renewed {o : Option Mark} (h : IsLoose o) (p : Cursor) :
    ∃ o', Mark.renewed p o = .ok o' ∧ IsLoose o' ∧ (o = none → o' = none) := by
  cases o with
  | none => exact ⟨none, rfl, h, id⟩
  | some m =>
    have hm := h m rfl
    rw [Mark.renewed]
    cases m.isStale p with
    | true => exact ⟨none, by simp [hm], nofun, nofun⟩
    | false => exact ⟨some m, by simp, h, nofun⟩

theorem renewed_of_fresh {m : Mark} {p : Cursor} (h : m.isStale p = false) :
    Mark.renewed p (some m) = .ok (some m) := by
  simp [Mark.renewed, h]

theorem exists_renewed_all {p : Cursor} {bs : List (Bracket × Option Mark)}
    (h : ∀ b ∈ bs, IsLoose b.2) :
    ∃ bs', bs.mapM (fun b => return (b.1, ← Mark.renewed p b.2)) = .ok bs' ∧
      bs'.map Prod.fst = bs.map Prod.fst ∧ ∀ b ∈ bs', IsLoose b.2 := by
  induction bs with
  | nil => exact ⟨[], rfl, rfl, nofun⟩
  | cons b bs ih =>
    obtain ⟨hb, hbs⟩ := List.forall_mem_cons.1 h
    obtain ⟨o, ho, hloose, -⟩ := hb.renewed p
    obtain ⟨bs', hbs', hfst, hall⟩ := ih hbs
    refine ⟨(b.1, o) :: bs', ?_, by simp [hfst], List.forall_mem_cons.2 ⟨hloose, hall⟩⟩
    rw [List.mapM_cons, ho, hbs']
    rfl

/-- Forgetting stale marks changes nothing else. -/
theorem Stands.renew (h : l.Stands rest ts indents flow) {o : Option Mark}
    (ho : Mark.renewed l.place l.mark = .ok o) :
    ∃ l', l.renew = .ok l' ∧ l'.Stands rest ts indents flow ∧ l'.place = l.place ∧
      l'.keyAllowed = l.keyAllowed ∧ l'.mark = o := by
  obtain ⟨bs, hbs, hfst, hloose⟩ := exists_renewed_all (p := l.place) h.loose
  refine ⟨{ l with mark := o, brackets := bs }, ?_,
    ⟨h.rest, h.tokens, h.indents, hfst.trans h.flow, hloose⟩, rfl, rfl, rfl⟩
  rw [Layout.renew, ho, hbs]
  rfl

theorem inFlow_eq (h : l.Stands rest ts indents flow) : l.inFlow = !flow.isEmpty := by
  rw [inFlow, ← h.flow, List.isEmpty_map]

/-- Between tokens without indentation nothing ends. -/
theorem closeDeeper_eq (l : Layout) (column : Nat) (h : ∀ i ∈ l.indents, i = 0) :
    l.closeDeeper column = l := by
  have hdeeper : ∀ i ∈ l.indents, ¬ column < i := by
    intro i hi
    rw [h i hi]
    exact Nat.not_lt_zero _
  have htake : l.indents.takeWhile (column < ·) = [] := by
    cases hl : l.indents with
    | nil => rfl
    | cons i is => simp [hdeeper i (hl ▸ List.mem_cons_self)]
  have hdrop : l.indents.dropWhile (column < ·) = l.indents := by
    cases hl : l.indents with
    | nil => rfl
    | cons i is => simp [hdeeper i (hl ▸ List.mem_cons_self)]
  rw [closeDeeper]
  split
  · rfl
  · simp only [htake, hdrop, List.map_nil]
    cases l
    simp

/-- Before the next token or the end, stale marks are forgotten and blanks are skipped. -/
theorem finish_eq (h : l.Stands rest ts indents flow) {o o' : Option Mark}
    (ho : Mark.renewed l.place l.mark = .ok o) {s : List Char} {allowed : Bool}
    (hrest : s <:+ rest)
    (hskip : skipBlank l.inFlow false l.keyAllowed rest = (s, allowed))
    (ho' : Mark.renewed (l.place.moveTo s) o = .ok o') :
    ∃ (hadMark : Bool) (next : Layout), next.Stands s ts indents flow ∧
      next.keyAllowed = allowed ∧ next.place = l.place.moveTo s ∧ next.mark = o' ∧
      ∀ fuel, (s = [] → finish (fuel + 1) l = next.closeAll.dropMark) ∧
        ∀ c r, s = c :: r → finish (fuel + 1) l =
          ((next.closeDeeper next.place.column).token hadMark c r).bind (finish fuel) := by
  obtain ⟨gap, hgap⟩ := hrest
  obtain ⟨l₁, hl₁, hstands₁, hplace₁, hallowed₁, hmark₁⟩ := h.renew ho
  have htoken : l₁.toToken = { l₁ with place := l.place.moveTo s, keyAllowed := allowed } := by
    rw [toToken, inFlow_eq hstands₁, ← inFlow_eq h, hallowed₁, hstands₁.rest, hskip, hplace₁]
  have hstands₂ : l₁.toToken.Stands s ts indents flow := by
    rw [htoken]
    exact ⟨Cursor.rest_moveTo (h.rest.trans hgap.symm), hstands₁.tokens, hstands₁.indents,
      hstands₁.flow, hstands₁.loose⟩
  obtain ⟨next, hnext, hstands, hplace, hallowed, hmark⟩ := hstands₂.renew (o := o') (by
    rw [htoken, hmark₁]
    exact ho')
  refine ⟨l₁.hasMark, next, hstands, ?_, ?_, hmark, fun fuel => ?_⟩
  · rw [hallowed, htoken]
  · rw [hplace, htoken]
  · constructor
    · rintro rfl
      simp only [finish, hl₁, hnext, bind, Except.bind, hstands.rest]
    · rintro c r rfl
      simp only [finish, hl₁, hnext, bind, Except.bind, hstands.rest]

/-- The next token is read from the place where it starts. -/
theorem finish_succ (h : l.Stands rest ts indents flow) (hindents : ∀ i ∈ indents, i = 0)
    {o o' : Option Mark} (ho : Mark.renewed l.place l.mark = .ok o)
    {c : Char} {r : List Char} {allowed : Bool} (hrest : c :: r <:+ rest)
    (hskip : skipBlank l.inFlow false l.keyAllowed rest = (c :: r, allowed))
    (ho' : Mark.renewed (l.place.moveTo (c :: r)) o = .ok o') :
    ∃ (hadMark : Bool) (next : Layout),
      next.Stands (c :: r) ts indents flow ∧ next.keyAllowed = allowed ∧
      next.place = l.place.moveTo (c :: r) ∧ next.mark = o' ∧
      ∀ fuel, finish (fuel + 1) l = (next.token hadMark c r).bind (finish fuel) := by
  obtain ⟨hadMark, next, hstands, hallowed, hplace, hmark, hfinish⟩ :=
    finish_eq h ho hrest hskip ho'
  refine ⟨hadMark, next, hstands, hallowed, hplace, hmark, fun fuel => ?_⟩
  rw [(hfinish fuel).2 c r rfl, closeDeeper_eq next _ (hstands.indents ▸ hindents)]

/-- Whether a character is none that is skipped between tokens. -/
def startsToken (c : Char) : Bool :=
  !(c == '\n' || isSeparator c || isGap true c || c == '#')

theorem skipBlank_of_startsToken {c : Char} (hc : startsToken c = true) (inFlow allowed : Bool)
    (r : List Char) : skipBlank inFlow false allowed (c :: r) = (c :: r, allowed) := by
  have hgap : isGap inFlow c = false := by
    cases inFlow <;> simp_all [startsToken, isGap]
  simp only [startsToken, Bool.not_eq_true', Bool.or_eq_false_iff, beq_eq_false_iff_ne, ne_eq] at hc
  obtain ⟨⟨⟨hnewline, hseparator⟩, -⟩, hcomment⟩ := hc
  simp [skipBlank, hnewline, hseparator, hgap, hcomment]

theorem skipBlank_space (inFlow allowed : Bool) (r : List Char) :
    skipBlank inFlow false allowed (' ' :: r) = skipBlank inFlow false allowed r := by
  simp [skipBlank, isSeparator, isGap]

/-- A space before a token does not count. -/
theorem skipBlank_gap {gap : List Char} (hgap : gap = [] ∨ gap = [' ']) {c : Char}
    (hc : startsToken c = true) (inFlow allowed : Bool) (r : List Char) :
    skipBlank inFlow false allowed (gap ++ c :: r) = (c :: r, allowed) := by
  rcases hgap with rfl | rfl
  · exact skipBlank_of_startsToken hc _ _ _
  · exact (skipBlank_space _ _ _).trans (skipBlank_of_startsToken hc _ _ _)

theorem skipBlank_newline (allowed : Bool) (r : List Char) :
    skipBlank false false allowed ('\n' :: r) = skipBlank false false true r := by
  simp [skipBlank]

/-- Whether reading goes on from one state in another one, after at most one token for each
character between them. -/
def Leads (l l' : Layout) : Prop :=
  ∃ n, n + l'.place.rest.length ≤ l.place.rest.length ∧
    ∀ fuel, finish (fuel + n) l = finish fuel l'

theorem Leads.refl (l : Layout) : l.Leads l :=
  ⟨0, by omega, fun _ => rfl⟩

theorem Leads.trans {l'' : Layout} (h : l.Leads l') (h' : l'.Leads l'') : l.Leads l'' := by
  obtain ⟨n, hn, hfinish⟩ := h
  obtain ⟨n', hn', hfinish'⟩ := h'
  refine ⟨n' + n, by omega, fun fuel => ?_⟩
  rw [← Nat.add_assoc, hfinish, hfinish']

/-- What a document has come to, where no key has to start. -/
structure Reached (l : Layout) (rest : List Char) (ts : List Token) (indents : List Nat)
    (flow : List Bracket) (allowed : Bool) : Prop extends l.Stands rest ts indents flow where
  /-- Whether a key may start here. -/
  allowed : l.keyAllowed = allowed
  /-- No key has to start where one may have started last. -/
  mark : IsLoose l.mark

/-- One token more. -/
theorem Reached.leads {allowed allowed' : Bool} (h : l.Reached rest ts indents flow allowed)
    (hindents : ∀ i ∈ indents, i = 0) {c : Char} {r : List Char} (hrest : c :: r <:+ rest)
    (hskip : skipBlank (!flow.isEmpty) false allowed rest = (c :: r, allowed'))
    {P : Layout → Prop}
    (htoken : ∀ (hadMark : Bool) (next : Layout), next.Reached (c :: r) ts indents flow allowed' →
      next.place = l.place.moveTo (c :: r) →
      ∃ l', next.token hadMark c r = .ok l' ∧ l'.place.rest.length ≤ r.length ∧ P l') :
    ∃ l', l.Leads l' ∧ P l' := by
  obtain ⟨o, ho, hloose, -⟩ := h.mark.renewed l.place
  obtain ⟨o', ho', hloose', -⟩ := hloose.renewed (l.place.moveTo (c :: r))
  rw [← inFlow_eq h.toStands, ← h.allowed] at hskip
  obtain ⟨hadMark, next, hstands, hallowed, hplace, hmark, hfinish⟩ :=
    finish_succ h.toStands hindents ho hrest hskip ho'
  obtain ⟨l', hl', hlength, hP⟩ :=
    htoken hadMark next ⟨hstands, hallowed, hmark ▸ hloose'⟩ hplace
  refine ⟨l', ⟨1, ?_, fun fuel => ?_⟩, hP⟩
  · have hle := hrest.length_le
    rw [List.length_cons] at hle
    rw [h.rest]
    omega
  · rw [hfinish, hl']
    rfl

theorem dropMark_of_isLoose (hmark : IsLoose l.mark) :
    l.dropMark = .ok { l with mark := none } := by
  obtain ⟨_, _, _, _, mark, _⟩ := l
  cases mark with
  | none => rfl
  | some m => simp [dropMark, hmark m rfl]

/-- Remembering that a key may start here. -/
theorem setMark_of_allowed (hmark : IsLoose l.mark) (hallowed : l.keyAllowed = true) :
    l.setMark = .ok { l with mark := some ⟨l.tokens.size,
      !l.inFlow && l.indents.head? == some l.place.column, l.place⟩ } := by
  rw [setMark, if_neg (by simp [hallowed]), dropMark_of_isLoose hmark]
  rfl

theorem setMark_of_not_allowed (hallowed : l.keyAllowed = false) : l.setMark = .ok l := by
  rw [setMark, if_pos (by simp [hallowed])]
  rfl

/-- Where a key does not have to start, none has to start afterwards. -/
theorem Reached.setMark {allowed : Bool} (h : l.Reached rest ts indents flow allowed)
    (hfree : flow ≠ [] ∨ allowed = false) :
    ∃ o, l.setMark = .ok { l with mark := o } ∧ IsLoose o := by
  by_cases hallowed : l.keyAllowed = true
  · have hflow : flow ≠ [] := hfree.resolve_right (by rw [← h.allowed, hallowed]; simp)
    refine ⟨_, setMark_of_allowed h.mark hallowed, fun m hm => ?_⟩
    obtain rfl := Option.some.inj hm
    simp [inFlow_eq h.toStands, hflow]
  · exact ⟨l.mark, setMark_of_not_allowed (by simpa using hallowed), h.mark⟩

/-! ## Texts -/

theorem staysOnLine_iff {c : Char} : staysOnLine c = true ↔
    isAllowed c = true ∧ isBreak c = false ∧ c ≠ '\r' ∧ c.toNat ≠ 0x85 := by
  simp [staysOnLine, and_assoc]

/-- Quotes break no line. -/
theorem isBreak_quote {s : String} (hs : IsLine s) : ∀ c ∈ quote s, isBreak c = false := by
  have hquote : isBreak '\'' = false := rfl
  intro c hc
  rw [quote, List.mem_cons, List.mem_append, List.mem_singleton, protectSingle,
    List.mem_flatMap] at hc
  obtain rfl | ⟨d, hd, hc⟩ | rfl := hc
  · exact hquote
  · have hd' := (staysOnLine_iff.1 (hs d hd)).2.1
    split at hc
    · rename_i hdq
      rcases List.mem_cons.1 hc with rfl | hc
      · exact hquote
      · rw [List.mem_singleton.1 hc]
        exact hquote
    · rw [List.mem_singleton.1 hc]
      exact hd'
  · exact hquote

theorem token_quote (l : Layout) (hadMark : Bool) (r : List Char) :
    l.token hadMark '\'' r = l.quoted (single r) := by
  simp [token, atOpening, atEnding]

/-- A text between quotes is one token. -/
theorem quoted_eq {s : String} (hs : IsLine s) (hrest : rest.head? ≠ some '\'')
    {o : Option Mark} (hmark : l.setMark = .ok { l with mark := o }) :
    l.quoted (single (protectSingle s.toList ++ '\'' :: rest)) =
      .ok { l.emit (.scalar s false) with
        mark := o, place := l.place.moveTo rest, keyAllowed := false } := by
  have hsingle := single_encode s.toList rest (fun c hc => (staysOnLine_iff.1 (hs c hc)).2.1) hrest
  rw [quoted, hmark, hsingle]
  simp [emit, bind, Except.bind, pure, Except.pure]

theorem quote_append (s : String) (r : List Char) :
    quote s ++ r = '\'' :: (protectSingle s.toList ++ '\'' :: r) := by
  simp [quote]

/-- A text that is no key is read. -/
theorem Reached.text {allowed : Bool} {s : String}
    (h : l.Reached (quote s ++ rest) ts indents flow allowed) (hs : IsLine s)
    (hrest : rest.head? ≠ some '\'') (hfree : flow ≠ [] ∨ allowed = false) (hadMark : Bool) :
    ∃ l', l.token hadMark '\'' (protectSingle s.toList ++ '\'' :: rest) = .ok l' ∧
      l'.Reached rest (ts ++ [.scalar s false]) indents flow false := by
  obtain ⟨o, ho, hloose⟩ := h.setMark hfree
  refine ⟨_, (token_quote _ _ _).trans (quoted_eq hs hrest ho), ?_⟩
  exact ⟨⟨Cursor.rest_moveTo h.rest, by simp [emit, h.tokens], h.indents, h.flow, h.loose⟩,
    rfl, hloose⟩

/-! ## Brackets -/

/-- The bracket that opens a list or a map. -/
def openingOf : Bracket → Char × Token
  | .list => ('[', .openList)
  | .map => ('\x7b', .openMap)

/-- The bracket that closes a list or a map. -/
def closingOf : Bracket → Char × Token
  | .list => (']', .closeList)
  | .map => ('\x7d', .closeMap)

theorem rest_take {c : Char} {r : List Char} (h : l.place.rest = c :: r) :
    (l.place.skip 1).rest = r := by
  rw [Cursor.rest_skip, h]
  rfl

theorem Reached.opening {allowed : Bool} (b : Bracket)
    (h : l.Reached ((openingOf b).1 :: rest) ts indents flow allowed)
    (hfree : flow ≠ [] ∨ allowed = false) (hadMark : Bool) :
    ∃ l', l.token hadMark (openingOf b).1 rest = .ok l' ∧
      l'.Reached rest (ts ++ [(openingOf b).2]) indents (b :: flow) true := by
  obtain ⟨o, ho, hloose⟩ := h.setMark hfree
  have htoken : l.token hadMark (openingOf b).1 rest = l.opening b (openingOf b).2 := by
    cases b <;> simp [token, openingOf, atOpening, atEnding]
  rw [htoken, Layout.opening, ho]
  refine ⟨_, rfl, ⟨⟨rest_take h.rest, ?_, h.indents, ?_, ?_⟩, rfl, nofun⟩⟩
  · simp [take, emit, h.tokens]
  · exact congrArg (b :: ·) h.flow
  · exact List.forall_mem_cons.2 ⟨hloose, h.loose⟩

theorem Reached.closing {allowed : Bool} (b : Bracket)
    (h : l.Reached ((closingOf b).1 :: rest) ts indents (b :: flow) allowed) (hadMark : Bool) :
    ∃ l', l.token hadMark (closingOf b).1 rest = .ok l' ∧
      l'.Reached rest (ts ++ [(closingOf b).2]) indents flow false := by
  have htoken : l.token hadMark (closingOf b).1 rest = l.closing (closingOf b).2 := by
    cases b <;> simp [token, closingOf, atOpening, atEnding]
  obtain ⟨⟨b', mark⟩, brackets, hbrackets, -, hflow⟩ := List.map_eq_cons_iff.1 h.flow
  have hloose := h.loose
  rw [hbrackets] at hloose
  obtain ⟨hmark, hbs⟩ := List.forall_mem_cons.1 hloose
  rw [htoken, Layout.closing, dropMark_of_isLoose h.mark]
  simp only [bind, Except.bind, take, emit, hbrackets, pure, Except.pure]
  exact ⟨_, rfl, ⟨⟨rest_take h.rest, by simp [h.tokens], h.indents, hflow, hbs⟩, rfl, hmark⟩⟩

theorem Reached.comma {allowed : Bool} (h : l.Reached (',' :: rest) ts indents flow allowed)
    (hadMark : Bool) :
    ∃ l', l.token hadMark ',' rest = .ok l' ∧
      l'.Reached rest (ts ++ [.comma]) indents flow true := by
  have htoken : l.token hadMark ',' rest = l.comma := by
    simp [token, atOpening, atEnding]
  rw [htoken, Layout.comma, dropMark_of_isLoose h.mark]
  exact ⟨_, rfl, ⟨⟨rest_take h.rest, by simp [take, emit, h.tokens], h.indents, h.flow, h.loose⟩,
    rfl, nofun⟩⟩

/-! ## Words -/

/-- Whether a word may have a character. -/
def isWordChar (c : Char) : Bool :=
  c.isAlphanum || c == '-'

/-- Whether a character has a use of its own in documents. -/
def isSpecial (c : Char) : Bool :=
  isWordEnd c || isSeparator c || isFlowMark c || "?:#&*!|>'\"%@".toList.contains c ||
    c == Char.ofNat 0x60

theorem lt_of_isWordChar {c : Char} (h : isWordChar c = true) : c.toNat < 128 := by
  rcases Bool.or_eq_true_iff.1 h with halphanum | hdash
  · exact Text.lt_of_isAlphanum halphanum
  · rw [eq_of_beq hdash]
    decide

/-- A property of the characters of words has to be looked up among the first ones only. -/
theorem of_isWordChar {P : Char → Prop}
    (hall : ∀ n < 128, isWordChar (Char.ofNat n) = true → P (Char.ofNat n)) {c : Char}
    (h : isWordChar c = true) : P c := by
  have hc := hall c.toNat (lt_of_isWordChar h)
  rw [Char.ofNat_toNat] at hc
  exact hc h

/-- The characters of words have no use of their own. -/
theorem isSpecial_of_isWordChar {c : Char} (h : isWordChar c = true) : isSpecial c = false :=
  of_isWordChar (P := fun c => isSpecial c = false) (by decide) h

theorem startsToken_of_isWordChar {c : Char} (h : isWordChar c = true) : startsToken c = true :=
  of_isWordChar (P := fun c => startsToken c = true) (by decide) h

/-- Whether a text starts like a word: with a letter or a digit, or with a sign and one. -/
def StartsWord : List Char → Prop
  | [] => False
  | c :: r => c.isAlphanum = true ∨ c = '-' ∧ ∃ d r', r = d :: r' ∧ d.isAlphanum = true

theorem StartsWord.append {s : List Char} (h : StartsWord s) (r : List Char) :
    StartsWord (s ++ r) := by
  cases s with
  | nil => exact h.elim
  | cons c s =>
    rcases h with hc | ⟨hc, d, r', rfl, hd⟩
    · exact .inl hc
    · exact .inr ⟨hc, d, r' ++ r, rfl, hd⟩

/-- What starts like a word is read as a plain scalar. -/
theorem token_word {c : Char} {r : List Char} (h : StartsWord (c :: r)) (l : Layout)
    (hadMark : Bool) : l.token hadMark c r = l.plain ∧ startsPlain (c :: r) = true := by
  rcases h with hc | ⟨rfl, d, r', rfl, hd⟩
  · have hspecial := isSpecial_of_isWordChar (c := c) (by simp [isWordChar, hc])
    have hdash : c ≠ '-' := by
      rintro rfl
      exact absurd hc (by decide)
    have hdot : c ≠ '.' := by
      rintro rfl
      exact absurd hc (by decide)
    have hopening : atOpening (c :: r) = false := by
      simp [atOpening, hdash]
    have hending : atEnding (c :: r) = false := by
      simp [atEnding, hdot]
    simp only [isSpecial, isWordEnd, isBlank, isFlowMark, Char.isValue, String.reduceToList,
      List.contains_eq_mem, List.mem_cons, List.not_mem_nil, or_false, Bool.decide_or,
      Bool.or_eq_false_iff, beq_eq_false_iff_ne, ne_eq, decide_eq_false_iff_not] at hspecial
    constructor
    · simp [token, hopening, hending, hspecial, hdash]
    · simp [startsPlain, hdash, hspecial, isWordEnd, isBlank, isFlowMark]
  · have hspecial := isSpecial_of_isWordChar (c := d) (by simp [isWordChar, hd])
    have hdash : d ≠ '-' := by
      rintro rfl
      exact absurd hd (by decide)
    have hend : wordEnds (d :: r') = false := by
      simp only [isSpecial, Bool.or_eq_false_iff] at hspecial
      exact hspecial.1.1.1.1
    have hopening : atOpening ('-' :: d :: r') = false := by
      simp [atOpening, hdash]
    constructor
    · simp [token, hopening, atEnding, hend]
    · simp [startsPlain, hend]

/-- A word stops a plain scalar nowhere. -/
theorem plainRun_word (inFlow : Bool) {w r : List Char} (hw : ∀ c ∈ w, isWordChar c = true)
    {c : Char} (hc : stopsPlain inFlow c r = true) :
    plainRun inFlow (w ++ c :: r) = (w, c :: r) := by
  induction w with
  | nil => rw [List.nil_append, plainRun, if_pos hc]
  | cons d w ih =>
    obtain ⟨hd, hw⟩ := List.forall_mem_cons.1 hw
    have hstops : stopsPlain inFlow d (w ++ c :: r) = false := by
      have hspecial := isSpecial_of_isWordChar hd
      simp only [isSpecial, Bool.or_eq_false_iff] at hspecial
      obtain ⟨⟨⟨⟨hend, -⟩, hflow⟩, hmark⟩, -⟩ := hspecial
      have hcolon : (d == ':') = false := by
        rw [beq_eq_false_iff_ne]
        rintro rfl
        exact absurd hmark (by decide)
      simp [stopsPlain, hend, hflow, hcolon]
    rw [List.cons_append, plainRun, hstops, if_neg Bool.false_ne_true, ih hw]

/-- An integer is spelled with a digit in front, or with a sign and digits. -/
theorem isWord_toString (n : Int) :
    StartsWord (toString n).toList ∧ ∀ c ∈ (toString n).toList, isWordChar c = true := by
  have hdigits (m : Nat) : ∀ c ∈ m.repr.toList, c.isAlphanum = true := by
    intro c hc
    rw [Nat.toList_repr] at hc
    have hdigit := Nat.isDigit_of_mem_toDigits (by decide) (by decide) hc
    simp [Char.isAlphanum, hdigit]
  have hstarts (m : Nat) : ∃ c r, m.repr.toList = c :: r := by
    rw [Nat.toList_repr]
    exact List.exists_cons_of_ne_nil Nat.toDigits_ne_nil
  cases n with
  | ofNat m =>
    change StartsWord m.repr.toList ∧ ∀ c ∈ m.repr.toList, isWordChar c = true
    obtain ⟨c, r, hrepr⟩ := hstarts m
    have hall := hdigits m
    rw [hrepr] at hall ⊢
    exact ⟨.inl (hall c List.mem_cons_self), fun d hd => by simp [isWordChar, hall d hd]⟩
  | negSucc m =>
    change StartsWord ("-" ++ (m + 1).repr).toList ∧
      ∀ c ∈ ("-" ++ (m + 1).repr).toList, isWordChar c = true
    obtain ⟨c, r, hrepr⟩ := hstarts (m + 1)
    have hall := hdigits (m + 1)
    rw [String.toList_append, hrepr] at *
    refine ⟨.inr ⟨rfl, c, r, rfl, hall c List.mem_cons_self⟩, List.forall_mem_cons.2 ⟨rfl, ?_⟩⟩
    exact fun d hd => by simp [isWordChar, hall d hd]

theorem isWord_chars (w : Word) :
    StartsWord w.chars ∧ ∀ c ∈ w.chars, isWordChar c = true := by
  cases w with
  | null => exact ⟨.inl rfl, List.all_eq_true.1 (by decide)⟩
  | truth b => cases b <;> exact ⟨.inl rfl, List.all_eq_true.1 (by decide)⟩
  | int n => exact isWord_toString n

/-- A plain scalar of one word. -/
theorem plainScalar_of_isOver {inFlow : Bool} {indent column : Nat} {s w r : List Char}
    (hrun : plainRun inFlow s = (w, r)) (hne : w ≠ []) {g : Gap} {after : Nat}
    (hgap : plainGap .empty (w.foldl columnAfter column) r = (g, after, rest))
    (hover : plainIsOver inFlow indent g after rest = true) :
    plainScalar inFlow indent column s = ⟨w, rest, g.isBroken⟩ := by
  rw [plainScalar, plainWords, hrun]
  simp only [hgap, List.isEmpty_iff, hne, if_false, hover, if_true]

/-- A word between brackets ends before what stands there. -/
theorem plainScalar_flow {w r : List Char} (hw : ∀ c ∈ w, isWordChar c = true) (hne : w ≠ [])
    (indent column : Nat) {c : Char} (hc : isFlowMark c = true) :
    plainScalar true indent column (w ++ c :: r) = ⟨w, c :: r, false⟩ := by
  have hrun := plainRun_word true (r := r) hw (c := c) (by simp [stopsPlain, hc])
  have hgap (column : Nat) : plainGap .empty column (c :: r) = (.empty, column, c :: r) := by
    have hc' : c ∈ ",[]\x7b\x7d".toList := by simpa [isFlowMark] using hc
    have hgaps : ∀ d ∈ ",[]\x7b\x7d".toList, (d != ' ' && !isBreak d) = true :=
      List.all_eq_true.1 (by decide)
    have hplain := hgaps c hc'
    simp only [Bool.and_eq_true, bne_iff_ne, ne_eq, Bool.not_eq_true'] at hplain
    rw [plainGap, if_neg hplain.1, hplain.2, if_neg Bool.false_ne_true]
  exact plainScalar_of_isOver hrun hne (hgap _) rfl

/-- A word on a line of its own ends with the line. -/
theorem plainScalar_line {w r : List Char} (hw : ∀ c ∈ w, isWordChar c = true) (hne : w ≠ [])
    (column : Nat) (hr : r = [] ∨ r.head? = some '\'') :
    plainScalar false 1 column (w ++ '\n' :: r) = ⟨w, r, true⟩ := by
  have hrun := plainRun_word false (r := r) hw (c := '\n') (by simp [stopsPlain, isWordEnd])
  have hgap (column : Nat) : plainGap .empty column ('\n' :: r) = (.breaks '\n' [], 0, r) := by
    rcases hr with rfl | hr
    · rfl
    · obtain ⟨r', rfl⟩ := List.head?_eq_some_iff.1 hr
      rfl
  refine plainScalar_of_isOver hrun hne (hgap _) ?_
  simp [plainIsOver, Gap.text, Gap.isBroken]

/-- A plain scalar is one token. -/
theorem plain_eq {p : Plain} (hstarts : startsPlain l.place.rest = true) {o : Option Mark}
    (hmark : l.setMark = .ok { l with mark := o })
    (hp : plainScalar l.inFlow l.innerIndent l.place.column l.place.rest = p) :
    l.plain = .ok { l.emit (.scalar (String.ofList p.text) true) with
      mark := o, place := l.place.moveTo p.rest, keyAllowed := p.isBroken } := by
  subst hp
  rw [Layout.plain, hstarts, hmark]
  rfl

/-- A word between brackets is read. -/
theorem Reached.word {allowed : Bool} {b : Bracket} {w c : Char} {ws r : List Char}
    (h : l.Reached ((w :: ws) ++ c :: r) ts indents (b :: flow) allowed)
    (hstarts : StartsWord (w :: ws)) (hchars : ∀ d ∈ w :: ws, isWordChar d = true)
    (hc : isFlowMark c = true) (hadMark : Bool) :
    ∃ l', l.token hadMark w (ws ++ c :: r) = .ok l' ∧
      l'.Reached (c :: r) (ts ++ [.scalar (String.ofList (w :: ws)) true]) indents (b :: flow)
        false := by
  obtain ⟨o, ho, hloose⟩ := h.setMark (.inl (List.cons_ne_nil b flow))
  have hscalar : plainScalar l.inFlow l.innerIndent l.place.column l.place.rest =
      ⟨w :: ws, c :: r, false⟩ := by
    rw [inFlow_eq h.toStands, h.rest]
    exact plainScalar_flow hchars (List.cons_ne_nil w ws) _ _ hc
  have hword := token_word (r := ws ++ c :: r) (hstarts.append _) l hadMark
  refine ⟨_, hword.1.trans (plain_eq (h.rest ▸ hword.2) ho hscalar), ?_⟩
  exact ⟨⟨Cursor.rest_moveTo h.rest, by simp [emit, h.tokens], h.indents, h.flow, h.loose⟩,
    rfl, hloose⟩

/-- A word on a line of its own is read with the end of the line. -/
theorem Reached.wordLine {w : Char} {ws r : List Char}
    (h : l.Reached ((w :: ws) ++ '\n' :: r) ts [0] [] false)
    (hstarts : StartsWord (w :: ws)) (hchars : ∀ d ∈ w :: ws, isWordChar d = true)
    (hr : r = [] ∨ r.head? = some '\'') (hadMark : Bool) :
    ∃ l', l.token hadMark w (ws ++ '\n' :: r) = .ok l' ∧
      l'.Reached r (ts ++ [.scalar (String.ofList (w :: ws)) true]) [0] [] true ∧
      l'.place.column = 0 := by
  have hmark : l.setMark = .ok { l with mark := l.mark } := setMark_of_not_allowed h.allowed
  have hscalar : plainScalar l.inFlow l.innerIndent l.place.column l.place.rest =
      ⟨w :: ws, r, true⟩ := by
    rw [inFlow_eq h.toStands, innerIndent, h.indents, h.rest]
    exact plainScalar_line hchars (List.cons_ne_nil w ws) _ hr
  have hword := token_word (r := ws ++ '\n' :: r) (hstarts.append _) l hadMark
  have hrest : l.place.rest = ((w :: ws) ++ ['\n']) ++ r := by
    rw [h.rest, List.append_assoc, List.singleton_append]
  refine ⟨_, hword.1.trans (plain_eq (h.rest ▸ hword.2) hmark hscalar), ?_,
    Cursor.column_moveTo hrest⟩
  exact ⟨⟨Cursor.rest_moveTo hrest, by simp [emit, h.tokens], h.indents, h.flow, h.loose⟩, rfl,
    h.mark⟩

/-! ## Keys -/

theorem token_colon (l : Layout) (hadMark : Bool) (r : List Char) :
    l.token hadMark ':' (' ' :: r) = l.colon := by
  simp [token, atOpening, atEnding, endsKey, wordEnds, isWordEnd, isBlank]

/-- What a key adds: the start of a map, if it is the first one on a line outside of brackets. -/
def startOf (indents : List Nat) (flow : List Bracket) : List Token × List Nat :=
  match flow, indents with
  | [], [] => ([.mapStart], [0])
  | _, _ => ([], indents)

/-- The colon after a key makes the key one. -/
theorem keyed_eq {k : String} {m : Mark}
    (h : l.Stands rest (ts ++ [.scalar k false]) indents flow) (hindents : ∀ i ∈ indents, i = 0)
    (hnumber : m.number = ts.length) (hcolumn : flow = [] → m.place.column = 0) :
    (l.keyed m).tokens.toList = ts ++ (startOf indents flow).1 ++ [.key, .scalar k false] ∧
      (l.keyed m).indents = (startOf indents flow).2 := by
  have hsize : l.tokens.size = ts.length + 1 := by
    rw [← Array.length_toList, h.tokens, List.length_append, List.length_singleton]
  have hnew (new : Array Token) :
      (l.tokens.take m.number ++ new ++ l.tokens.drop m.number).toList =
        ts ++ new.toList ++ [.scalar k false] := by
    simp [h.tokens, hnumber, hsize]
  have hinFlow := inFlow_eq h
  match flow, indents with
  | b :: flow, indents =>
    have hstarts : (!l.inFlow && l.isDeeper m.place.column) = false := by simp [hinFlow]
    rw [keyed, hstarts]
    exact ⟨(hnew _).trans (by simp [startOf]), h.indents⟩
  | [], [] =>
    have hstarts : (!l.inFlow && l.isDeeper m.place.column) = true := by
      simp [hinFlow, isDeeper, h.indents]
    rw [keyed, hstarts]
    exact ⟨(hnew _).trans (by simp [startOf]), by simp [h.indents, hcolumn rfl, startOf]⟩
  | [], i :: is =>
    have hstarts : (!l.inFlow && l.isDeeper m.place.column) = false := by
      simp [isDeeper, h.indents, hcolumn rfl, hindents i List.mem_cons_self]
    rw [keyed, hstarts]
    exact ⟨(hnew _).trans (by simp [startOf]), h.indents⟩

/-- A colon after a key. -/
theorem Stands.colon {k : String} {m : Mark} {r : List Char}
    (h : l.Stands (':' :: ' ' :: r) (ts ++ [.scalar k false]) indents flow)
    (hindents : ∀ i ∈ indents, i = 0) (hmark : l.mark = some m) (hnumber : m.number = ts.length)
    (hcolumn : flow = [] → m.place.column = 0) (hadMark : Bool) :
    ∃ l', l.token hadMark ':' (' ' :: r) = .ok l' ∧
      l'.Reached (' ' :: r) (ts ++ (startOf indents flow).1 ++ [.key, .scalar k false, .value])
        (startOf indents flow).2 flow false := by
  obtain ⟨htokens, hindent⟩ := keyed_eq h hindents hnumber hcolumn
  refine ⟨{ (l.keyed m).take 1 .value with keyAllowed := false }, ?_, ?_⟩
  · rw [token_colon, Layout.colon]
    simp only [hmark]
    rfl
  · exact ⟨⟨rest_take h.rest, by simp [take, emit, htokens], hindent, h.flow, h.loose⟩, rfl, nofun⟩

theorem moveTo_rest (p : Cursor) : p.moveTo p.rest = p := by
  rw [Cursor.moveTo, Nat.sub_self]
  rfl

/-- A mark is fresh after a short key. -/
theorem isStale_moveTo {k : String} (hk : IsShort k) {p : Cursor} {r : List Char}
    (hp : p.rest = quote k ++ r) {m : Mark} (hm : m.place = p) :
    m.isStale (p.moveTo r) = false := by
  rw [Mark.isStale, hm, Cursor.line_moveTo hp (isBreak_quote hk.1), Cursor.index_moveTo hp]
  have hlength := hk.2
  simp
  omega

/-- A key is read with the colon after it. -/
theorem Reached.leads_key {allowed : Bool} {k : String} {r : List Char}
    (h : l.Reached rest ts indents flow allowed) (hindents : ∀ i ∈ indents, i = 0)
    (hrest : quote k ++ ':' :: ' ' :: r <:+ rest) (hk : IsShort k)
    (hskip : skipBlank (!flow.isEmpty) false allowed rest = (quote k ++ ':' :: ' ' :: r, true))
    (hcolumn : flow = [] → (l.place.moveTo (quote k ++ ':' :: ' ' :: r)).column = 0) :
    ∃ l', l.Leads l' ∧ l'.Reached (' ' :: r)
      (ts ++ (startOf indents flow).1 ++ [.key, .scalar k false, .value])
      (startOf indents flow).2 flow false := by
  rw [quote_append] at hrest hskip hcolumn
  obtain ⟨l₁, hleads₁, hstands₁, hallowed₁, m, hmark₁, hnumber, hfresh, hplace⟩ :=
    h.leads hindents hrest hskip (P := fun l₁ =>
      l₁.Stands (':' :: ' ' :: r) (ts ++ [.scalar k false]) indents flow ∧
        l₁.keyAllowed = false ∧ ∃ m, l₁.mark = some m ∧ m.number = ts.length ∧
          m.isStale l₁.place = false ∧ (flow = [] → m.place.column = 0))
      fun hadMark next hnext hat => by
      have hset := setMark_of_allowed hnext.mark hnext.allowed
      have hquote : next.place.rest = quote k ++ ':' :: ' ' :: r := by
        rw [hnext.rest, quote_append]
      refine ⟨_, (token_quote _ _ _).trans (quoted_eq hk.1 (by simp) hset), ?_, ?_⟩
      · change (next.place.moveTo _).rest.length ≤ _
        rw [Cursor.rest_moveTo hquote]
        simp
        omega
      · exact ⟨⟨Cursor.rest_moveTo hquote, by simp [emit, hnext.tokens], hnext.indents,
          hnext.flow, hnext.loose⟩, rfl, _, rfl, by rw [← Array.length_toList, hnext.tokens],
          isStale_moveTo hk hquote rfl, fun hflow => by rw [hat]; exact hcolumn hflow⟩
  have hrenewed : Mark.renewed l₁.place l₁.mark = .ok (some m) := by
    rw [hmark₁]
    exact renewed_of_fresh hfresh
  have hagain : Mark.renewed (l₁.place.moveTo (':' :: ' ' :: r)) (some m) = .ok (some m) := by
    rw [← hstands₁.rest, moveTo_rest]
    exact renewed_of_fresh hfresh
  have hskip₁ : skipBlank l₁.inFlow false l₁.keyAllowed (':' :: ' ' :: r) =
      (':' :: ' ' :: r, false) := by
    rw [hallowed₁, skipBlank_of_startsToken rfl]
  obtain ⟨hadMark, next, hnext, -, hat, hmark, hfinish⟩ :=
    finish_succ hstands₁ hindents hrenewed (List.suffix_refl _) hskip₁ hagain
  obtain ⟨l₂, htoken, hreached⟩ := hnext.colon hindents hmark hnumber hplace hadMark
  refine ⟨l₂, hleads₁.trans ⟨1, ?_, fun fuel => ?_⟩, hreached⟩
  · rw [hreached.rest, hstands₁.rest]
    simp
    omega
  · rw [hfinish, htoken]
    rfl

/-! ## Values -/

/-- One token more, maybe after a space. -/
theorem Reached.leads_of_token {allowed allowed' : Bool} (gap : List Char) {c : Char}
    {r rest' : List Char} {ts' : List Token} {flow' : List Bracket}
    (h : l.Reached (gap ++ c :: r) ts indents flow allowed) (hindents : ∀ i ∈ indents, i = 0)
    (hgap : gap = [] ∨ gap = [' ']) (hc : startsToken c = true) (hlength : rest'.length ≤ r.length)
    (htoken : ∀ (hadMark : Bool) (next : Layout), next.Reached (c :: r) ts indents flow allowed →
      ∃ l', next.token hadMark c r = .ok l' ∧ l'.Reached rest' ts' indents flow' allowed') :
    ∃ l', l.Leads l' ∧ l'.Reached rest' ts' indents flow' allowed' := by
  refine h.leads hindents (List.suffix_append gap _) (skipBlank_gap hgap hc _ _ _)
    fun hadMark next hnext _ => ?_
  obtain ⟨l', hl', hreached⟩ := htoken hadMark next hnext
  exact ⟨l', hl', by rw [hreached.rest]; exact hlength, hreached⟩

/-- Whether a value can end before a text: before a mark between brackets, and a text before
anything but a quote. -/
def EndsValue (flow : List Bracket) (rest : List Char) : Prop :=
  ∃ c r, rest = c :: r ∧ c ≠ '\'' ∧ (flow ≠ [] → isFlowMark c = true)

theorem endsValue_items (vs : List Inline) (rest : List Char) (flow : List Bracket) :
    EndsValue flow (Inline.itemChars false vs ++ rest) := by
  cases vs with
  | nil => exact ⟨']', rest, rfl, by decide, fun _ => rfl⟩
  | cons v vs => exact ⟨',', _, rfl, by decide, fun _ => rfl⟩

theorem endsValue_entries (es : List (String × Inline)) (rest : List Char) (flow : List Bracket) :
    EndsValue flow (Inline.entryChars false es ++ rest) := by
  match es with
  | [] => exact ⟨'\x7d', rest, rfl, by decide, fun _ => rfl⟩
  | (k, v) :: es => exact ⟨',', _, rfl, by decide, fun _ => rfl⟩

/-- Between brackets a key starts no map of its own. -/
theorem startOf_cons (indents : List Nat) (b : Bracket) (flow : List Bracket) :
    startOf indents (b :: flow) = ([], indents) := by
  cases indents <;> rfl

/-- The comma before an item is read, if there is one. -/
theorem leads_separator (isFirst : Bool) {b : Bracket} {s : List Char}
    (h : l.Reached (Inline.separator isFirst ++ s) ts indents (b :: flow) isFirst)
    (hindents : ∀ i ∈ indents, i = 0) :
    ∃ l' gap, (gap = [] ∨ gap = [' ']) ∧ l.Leads l' ∧
      l'.Reached (gap ++ s) (ts ++ Inline.separatorTokens isFirst) indents (b :: flow) true := by
  cases isFirst with
  | true =>
    refine ⟨l, [], .inl rfl, .refl l, ?_⟩
    simpa [Inline.separator, Inline.separatorTokens] using h
  | false =>
    obtain ⟨l', hleads, h'⟩ := h.leads_of_token [] hindents (.inl rfl) rfl (Nat.le_refl _)
      fun hadMark next hnext => hnext.comma hadMark
    exact ⟨l', [' '], .inr rfl, hleads, h'⟩

mutual

/-- A value is read up to its end.  Words that are not between brackets are left out here: they take
the end of the line with them. -/
theorem leads_chars (v : Inline) (gap : List Char) {l : Layout} {rest : List Char} {ts : List Token}
    {indents : List Nat} {flow : List Bracket} {allowed : Bool}
    (h : l.Reached (gap ++ (v.chars ++ rest)) ts indents flow allowed) (hv : v.IsWritable)
    (hindents : ∀ i ∈ indents, i = 0) (hgap : gap = [] ∨ gap = [' '])
    (hfree : flow ≠ [] ∨ allowed = false) (hend : EndsValue flow rest)
    (hword : flow = [] → ∀ w, v ≠ .word w) :
    ∃ l', l.Leads l' ∧ l'.Reached rest (ts ++ v.tokens) indents flow false := by
  obtain ⟨c, r, hrest, hquote, hmark⟩ := hend
  match v with
  | .word w =>
    obtain ⟨b, flow, rfl⟩ := List.exists_cons_of_ne_nil fun hflow => hword hflow w rfl
    obtain ⟨hstarts, hchars⟩ := isWord_chars w
    rw [Inline.chars, hrest] at h
    rw [Inline.tokens]
    cases hcs : w.chars with
    | nil =>
      rw [hcs] at hstarts
      exact hstarts.elim
    | cons d ds =>
      rw [hcs] at h hstarts hchars
      rw [hrest]
      refine h.leads_of_token gap hindents hgap ?_ (by simp) fun hadMark next hnext =>
        hnext.word hstarts hchars (hmark (List.cons_ne_nil b flow)) hadMark
      exact startsToken_of_isWordChar (hchars d List.mem_cons_self)
  | .text s =>
    rw [Inline.chars, quote_append] at h
    refine h.leads_of_token gap hindents hgap rfl (by simp; omega) fun hadMark next hnext => ?_
    rw [← quote_append] at hnext
    exact hnext.text hv (by simpa [hrest] using hquote) hfree hadMark
  | .list items =>
    rw [Inline.chars, List.cons_append] at h
    obtain ⟨l₁, hleads₁, h₁⟩ := h.leads_of_token gap hindents hgap rfl (Nat.le_refl _)
      fun hadMark next hnext => hnext.opening .list hfree hadMark
    obtain ⟨l₂, hleads₂, h₂⟩ := leads_items true items h₁ hv hindents
    refine ⟨l₂, hleads₁.trans hleads₂, ?_⟩
    simpa [openingOf, Inline.tokens] using h₂
  | .map entries =>
    rw [Inline.chars, List.cons_append] at h
    obtain ⟨l₁, hleads₁, h₁⟩ := h.leads_of_token gap hindents hgap rfl (Nat.le_refl _)
      fun hadMark next hnext => hnext.opening .map hfree hadMark
    obtain ⟨l₂, hleads₂, h₂⟩ := leads_entries true entries h₁ hv.2 hindents
    refine ⟨l₂, hleads₁.trans hleads₂, ?_⟩
    simpa [openingOf, Inline.tokens] using h₂

/-- The items of a list are read up to the bracket after them. -/
theorem leads_items (isFirst : Bool) (vs : List Inline) {l : Layout} {rest : List Char}
    {ts : List Token} {indents : List Nat} {flow : List Bracket}
    (h : l.Reached (Inline.itemChars isFirst vs ++ rest) ts indents (.list :: flow) isFirst)
    (hvs : Inline.AllWritable vs) (hindents : ∀ i ∈ indents, i = 0) :
    ∃ l', l.Leads l' ∧
      l'.Reached rest (ts ++ Inline.itemTokens isFirst vs) indents flow false := by
  match vs with
  | [] =>
    exact h.leads_of_token [] hindents (.inl rfl) rfl (Nat.le_refl _)
      fun hadMark next hnext => hnext.closing .list hadMark
  | v :: vs =>
    obtain ⟨hv, hvs⟩ := hvs
    rw [Inline.itemChars, List.append_assoc, List.append_assoc] at h
    obtain ⟨l₁, gap, hgap, hleads₁, h₁⟩ := leads_separator isFirst h hindents
    obtain ⟨l₂, hleads₂, h₂⟩ := leads_chars v gap h₁ hv hindents hgap (.inl (List.cons_ne_nil _ _))
      (endsValue_items vs rest _) fun hflow => absurd hflow (List.cons_ne_nil _ _)
    obtain ⟨l₃, hleads₃, h₃⟩ := leads_items false vs h₂ hvs hindents
    refine ⟨l₃, (hleads₁.trans hleads₂).trans hleads₃, ?_⟩
    simpa only [Inline.itemTokens, List.append_assoc] using h₃

/-- The entries of a map are read up to the brace after them. -/
theorem leads_entries (isFirst : Bool) (es : List (String × Inline)) {l : Layout}
    {rest : List Char} {ts : List Token} {indents : List Nat} {flow : List Bracket}
    (h : l.Reached (Inline.entryChars isFirst es ++ rest) ts indents (.map :: flow) isFirst)
    (hes : Inline.EntriesWritable es) (hindents : ∀ i ∈ indents, i = 0) :
    ∃ l', l.Leads l' ∧
      l'.Reached rest (ts ++ Inline.entryTokens isFirst es) indents flow false := by
  match es with
  | [] =>
    exact h.leads_of_token [] hindents (.inl rfl) rfl (Nat.le_refl _)
      fun hadMark next hnext => hnext.closing .map hadMark
  | (k, v) :: es =>
    obtain ⟨hk, hv, hes⟩ := hes
    rw [Inline.entryChars, List.append_assoc, List.append_assoc, List.cons_append,
      List.cons_append, List.append_assoc] at h
    obtain ⟨l₁, gap, hgap, hleads₁, h₁⟩ := leads_separator isFirst h hindents
    have hskip : skipBlank true false true (gap ++ (quote k ++ ':' :: ' ' ::
        (v.chars ++ (Inline.entryChars false es ++ rest)))) =
          (quote k ++ ':' :: ' ' :: (v.chars ++ (Inline.entryChars false es ++ rest)), true) := by
      rw [quote_append]
      exact skipBlank_gap hgap rfl _ _ _
    obtain ⟨l₂, hleads₂, h₂⟩ := h₁.leads_key hindents (List.suffix_append gap _) hk hskip
      fun hflow => absurd hflow (List.cons_ne_nil _ _)
    rw [startOf_cons, List.append_nil] at h₂
    obtain ⟨l₃, hleads₃, h₃⟩ := leads_chars v [' '] h₂ hv hindents (.inr rfl)
      (.inl (List.cons_ne_nil _ _)) (endsValue_entries es rest _)
      fun hflow => absurd hflow (List.cons_ne_nil _ _)
    obtain ⟨l₄, hleads₄, h₄⟩ := leads_entries false es h₃ hes hindents
    refine ⟨l₄, ((hleads₁.trans hleads₂).trans hleads₃).trans hleads₄, ?_⟩
    simpa only [Inline.entryTokens, List.append_assoc, List.cons_append, List.nil_append] using h₄

end

/-! ## Lines -/

/-- Whether the next line is to be read, or the last one is to be ended first. -/
def AtLine (l : Layout) (rest : List Char) (ts : List Token) (indents : List Nat) : Prop :=
  l.Reached rest ts indents [] true ∧ l.place.column = 0 ∨
    l.Reached ('\n' :: rest) ts indents [] false

/-- Whether a text is empty or starts with a line. -/
def StartsLine (s : List Char) : Prop :=
  s = [] ∨ s.head? = some '\''

theorem startsLine_lines (es : List (String × Inline)) : StartsLine (lines es) := by
  match es with
  | [] => exact .inl rfl
  | (k, v) :: es =>
    rw [lines, quote_append]
    exact .inr rfl

/-- The key of a line is read with the colon after it. -/
theorem AtLine.leads_key {k : String} {r : List Char}
    (h : l.AtLine (quote k ++ ':' :: ' ' :: r) ts indents) (hindents : ∀ i ∈ indents, i = 0)
    (hk : IsShort k) :
    ∃ l', l.Leads l' ∧ l'.Reached (' ' :: r)
      (ts ++ (startOf indents []).1 ++ [.key, .scalar k false, .value])
      (startOf indents []).2 [] false := by
  rcases h with ⟨h, hcolumn⟩ | h
  · refine h.leads_key hindents (List.suffix_refl _) hk ?_ fun _ => ?_
    · rw [quote_append]
      exact skipBlank_of_startsToken rfl _ _ _
    · rw [← h.rest, moveTo_rest, hcolumn]
  · refine h.leads_key hindents (List.suffix_cons '\n' _) hk ?_ fun _ => ?_
    · rw [quote_append]
      exact (skipBlank_newline _ _).trans (skipBlank_of_startsToken rfl _ _ _)
    · exact Cursor.column_moveTo (a := []) h.rest

/-- The value of a line is read. -/
theorem Reached.leads_value {v : Inline} {r : List Char}
    (h : l.Reached (' ' :: (v.chars ++ '\n' :: r)) ts [0] [] false) (hv : v.IsWritable)
    (hr : StartsLine r) : ∃ l', l.Leads l' ∧ l'.AtLine r (ts ++ v.tokens) [0] := by
  have hindents : ∀ i ∈ [0], i = 0 := fun i hi => List.mem_singleton.1 hi
  by_cases hword : ∃ w, v = .word w
  · obtain ⟨w, rfl⟩ := hword
    obtain ⟨hstarts, hchars⟩ := isWord_chars w
    rw [Inline.chars] at h
    rw [Inline.tokens]
    cases hcs : w.chars with
    | nil =>
      rw [hcs] at hstarts
      exact hstarts.elim
    | cons d ds =>
      rw [hcs] at h hstarts hchars
      have hskip : skipBlank false false false (' ' :: ((d :: ds) ++ '\n' :: r)) =
          (d :: (ds ++ '\n' :: r), false) :=
        skipBlank_gap (.inr rfl) (startsToken_of_isWordChar (hchars d List.mem_cons_self)) _ _ _
      obtain ⟨l', hleads, hreached⟩ := h.leads hindents (List.suffix_cons ' ' _) hskip
        fun hadMark next hnext _ => by
          obtain ⟨l', hl', hreached⟩ := hnext.wordLine hstarts hchars hr hadMark
          refine ⟨l', hl', ?_, hreached⟩
          rw [hreached.1.rest]
          simp
          omega
      exact ⟨l', hleads, .inl hreached⟩
  · obtain ⟨l', hleads, hreached⟩ := leads_chars v [' '] h hv hindents (.inr rfl)
      (.inr rfl) ⟨'\n', r, rfl, by decide, fun hflow => absurd rfl hflow⟩
      fun _ w hw => hword ⟨w, hw⟩
    exact ⟨l', hleads, .inr hreached⟩

/-- Lines after the first one add the tokens of their entries. -/
theorem AtLine.leads_lines {es : List (String × Inline)} (h : l.AtLine (lines es) ts [0])
    (hes : Inline.EntriesWritable es) :
    ∃ l', l.Leads l' ∧ l'.AtLine [] (ts ++ lineTokens es) [0] := by
  induction es generalizing l ts with
  | nil => exact ⟨l, .refl l, by simpa only [lineTokens, List.append_nil, lines] using h⟩
  | cons e es ih =>
    obtain ⟨k, v⟩ := e
    obtain ⟨hk, hv, hes⟩ := hes
    obtain ⟨l₁, hleads₁, h₁⟩ := h.leads_key (fun i hi => List.mem_singleton.1 hi) hk
    obtain ⟨l₂, hleads₂, h₂⟩ := h₁.leads_value hv (startsLine_lines es)
    obtain ⟨l₃, hleads₃, h₃⟩ := ih h₂ hes
    refine ⟨l₃, (hleads₁.trans hleads₂).trans hleads₃, ?_⟩
    simpa [lineTokens, startOf] using h₃

/-- At the end of the document the map ends. -/
theorem Reached.finish {allowed allowed' : Bool} {gap : List Char}
    (h : l.Reached gap ts [0] [] allowed)
    (hskip : skipBlank false false allowed gap = ([], allowed')) (fuel : Nat) :
    ∃ l', Layout.finish (fuel + 1) l = .ok l' ∧ l'.tokens.toList = ts ++ [.blockEnd] := by
  obtain ⟨o, ho, hloose, -⟩ := h.mark.renewed l.place
  obtain ⟨o', ho', hloose', -⟩ := hloose.renewed (l.place.moveTo [])
  have hskip' : skipBlank l.inFlow false l.keyAllowed gap = ([], allowed') := by
    rw [inFlow_eq h.toStands, h.allowed]
    exact hskip
  obtain ⟨hadMark, next, hnext, -, -, hmark, hfinish⟩ :=
    finish_eq h.toStands ho List.nil_suffix hskip' ho'
  have hclose : next.closeAll.mark = next.mark ∧
      next.closeAll.tokens.toList = ts ++ [.blockEnd] := by
    rw [closeAll, inFlow_eq hnext]
    simp [hnext.tokens, hnext.indents]
  refine ⟨_, ((hfinish fuel).1 rfl).trans (dropMark_of_isLoose ?_), hclose.2⟩
  rw [hclose.1, hmark]
  exact hloose'

theorem AtLine.finish (h : l.AtLine [] ts [0]) (fuel : Nat) :
    ∃ l', Layout.finish (fuel + 1) l = .ok l' ∧ l'.tokens.toList = ts ++ [.blockEnd] := by
  rcases h with ⟨h, -⟩ | h
  · exact h.finish rfl fuel
  · exact h.finish (skipBlank_newline _ _) fuel

end Layout

/-- **The tokens of a written document.**  They are those of its entries, as a map that is shown by
indentation. -/
theorem tokensOf_lines {es : List (String × Inline)} (hne : es ≠ [])
    (hes : Inline.EntriesWritable es) :
    tokensOf (lines es) = .ok (.mapStart :: (lineTokens es ++ [.blockEnd])) := by
  match es with
  | (k, v) :: es =>
    obtain ⟨hk, hv, hes⟩ := hes
    have hstart : (Layout.start (lines ((k, v) :: es))).AtLine (lines ((k, v) :: es)) [] [] :=
      .inl ⟨⟨⟨rfl, rfl, rfl, rfl, nofun⟩, rfl, nofun⟩, rfl⟩
    obtain ⟨l₁, hleads₁, h₁⟩ := hstart.leads_key nofun hk
    obtain ⟨l₂, hleads₂, h₂⟩ := h₁.leads_value hv (Layout.startsLine_lines es)
    obtain ⟨l₃, hleads₃, h₃⟩ := h₂.leads_lines hes
    obtain ⟨n, hn, hfinish⟩ := (hleads₁.trans hleads₂).trans hleads₃
    have hfuel : (lines ((k, v) :: es)).length + 2 =
        ((lines ((k, v) :: es)).length + 1 - n) + 1 + n := by
      have hrest : (Layout.start (lines ((k, v) :: es))).place.rest = lines ((k, v) :: es) := rfl
      rw [hrest] at hn
      omega
    obtain ⟨l', hl', htokens⟩ := h₃.finish ((lines ((k, v) :: es)).length + 1 - n)
    rw [tokensOf, hfuel, hfinish, hl']
    change Except.ok l'.tokens.toList = _
    rw [htokens]
    simp [lineTokens, Layout.startOf]

end MarkupForms.Yaml
