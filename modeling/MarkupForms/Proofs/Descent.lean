import MarkupForms.Proofs.Prefixes

/-!
# Reading with a cursor

The grammar can also be read by descent: a cursor stands in the sequence of tokens, each rule of the
grammar is a function that starts at the cursor and leaves it after what it has read, and a block of
attributes is told from a form by looking one token ahead.  Where the tokens are over, the cursor
shows a token that is made up for the end, at the place after the last one; it does not move past
the end, neither past a made-up one nor past a real one.

The descent has the same result as reading token by token with a stack of open forms.  So the place
of a made-up end is in no fault, and nothing that stands after an end is looked at.

* `Cursor.left_advance` : a cursor that is not at the end moves on, so that the descent ends.
* `Cursor.conclude_form` : reading a form, whatever forms are open around it.
* `Cursor.parse_eq` : the descent has the same result.
-/

namespace MarkupForms

open MarkupForms.Parser (Open OpenBlock OpenPair State leaf? fail)

/-- A cursor in a sequence of tokens. -/
structure Cursor where
  /-- The tokens. -/
  tokens : List Token
  /-- How many tokens are before the cursor. -/
  position : Nat

namespace Cursor

/-! ## Looking and moving -/

/-- The token that is made up for the end: it stands after the last token. -/
def madeEnd (c : Cursor) : Token :=
  match c.tokens.getLast? with
  | some t =>
      let width := t.value.length
      ⟨.eof, "", ⟨t.location.position + width, t.location.line, t.location.column + width⟩⟩
  | none => ⟨.eof, "", .origin⟩

/-- The token some steps ahead. -/
def peek (c : Cursor) (offset : Nat) : Token :=
  c.tokens[c.position + offset]?.getD c.madeEnd

/-- The token at the cursor. -/
def current (c : Cursor) : Token :=
  c.peek 0

/-- Whether the cursor is at the end. -/
def isAtEnd (c : Cursor) : Bool :=
  c.current.kind == .eof

/-- The cursor after one token; it stays at the end. -/
def advance (c : Cursor) : Cursor :=
  if c.isAtEnd then c else { c with position := c.position + 1 }

/-- Whether a block of attributes starts at the cursor. -/
def isAtBlock (c : Cursor) : Bool :=
  c.current.kind == .lparen && (c.peek 1).kind == .mark

/-- How many tokens are left. -/
def left (c : Cursor) : Nat :=
  c.tokens.length - c.position

variable {c : Cursor}

theorem kind_madeEnd (c : Cursor) : c.madeEnd.kind = .eof := by
  unfold madeEnd
  split <;> rfl

theorem left_advance_le (c : Cursor) : c.advance.left ≤ c.left := by
  unfold advance
  split
  · exact Nat.le_refl _
  · simp only [left]
    omega

/-- A token that is not the end is one of the tokens. -/
theorem position_lt (h : c.current.kind ≠ .eof) : c.position < c.tokens.length := by
  by_contra hge
  rw [current, peek, List.getElem?_eq_none (by omega)] at h
  exact h (kind_madeEnd c)

theorem advance_of_ne (h : c.current.kind ≠ .eof) :
    c.advance = { c with position := c.position + 1 } :=
  if_neg (by simpa [isAtEnd] using h)

/-- A cursor that is not at the end moves on. -/
theorem left_advance (h : c.current.kind ≠ .eof) : c.advance.left < c.left := by
  have hlt := position_lt h
  rw [advance_of_ne h, left, left]
  show c.tokens.length - (c.position + 1) < _
  omega

theorem kind_ne_of_leaf? {t : Token} {n : Node} (h : leaf? t = some n) : t.kind ≠ .eof := by
  intro hkind
  rw [leaf?, hkind] at h
  cases h

/-- Looking one token ahead is looking at the cursor that has moved on. -/
theorem peek_one (h : c.current.kind ≠ .eof) : c.peek 1 = c.advance.current := by
  rw [advance_of_ne h]
  rfl

/-! ## Reading by descent -/

/-- What is read from a cursor on, and the cursor after it, which has moved on. -/
abbrev Read (c : Cursor) (α : Type) :=
  Except ParseFailure (α × { c' : Cursor // c'.left < c.left })

namespace Read

variable {α β : Type}

/-- What is read from a later cursor on. -/
def after {c' : Cursor} (h : c'.left ≤ c.left) (r : Read c' α) : Read c α :=
  r.map fun p => (p.1, ⟨p.2.1, Nat.lt_of_lt_of_le p.2.2 h⟩)

/-- What is made of what is read, or a failure to make it. -/
def refine (r : Read c α) (f : α → Except ParseFailure β) : Read c β :=
  r.bind fun p => (f p.1).map fun b => (b, p.2)

/-- What is read next. -/
def andThen (r : Read c α) (k : α → (c' : Cursor) → c'.left < c.left → Read c' β) : Read c β :=
  match r with
  | .error e => .error e
  | .ok (a, ⟨c', h⟩) => (k a c' h).after (Nat.le_of_lt h)

end Read

/-- Read the end of a pair. -/
def readPairEnd (opened : Location) (key : String) (value : Node) (c : Cursor) :
    Read c (String × Node) :=
  match hc : c.current.kind with
  | .eof => fail .unclosedPair opened
  | .rparen => .ok ((key, value), ⟨c.advance, left_advance (by simp [hc])⟩)
  | _ => fail (.longPair key) c.current.location

/-- Read a pair from its value on. -/
def readPairValue (opened : Location) (key : String) (c : Cursor) : Read c (String × Node) :=
  match c.current.kind with
  | .eof => fail .unclosedPair opened
  | .rparen => fail (.noValue key) c.current.location
  | _ =>
      match leaf? c.current with
      | some value => (readPairEnd opened key value c.advance).after (left_advance_le c)
      | none => fail (.badValue key) c.current.location

/-- Read a pair. -/
def readPair (c : Cursor) : Read c (String × Node) :=
  let opening := c.current
  let c₁ := c.advance
  let key := c₁.current
  match key.kind with
  | .eof => fail .unclosedPair opening.location
  | .atom =>
      (readPairValue opening.location key.value c₁.advance).after
        (Nat.le_trans (left_advance_le c₁) (left_advance_le c))
  | _ => fail .noKey key.location

/-- Read the rest of a block of attributes, given the place of its parenthesis and the pairs before,
last first. -/
def readPairs (opened : Location) (pairs : Attributes) (c : Cursor) : Read c Attributes :=
  match hc : c.current.kind with
  | .rparen => .ok (pairs, ⟨c.advance, left_advance (by simp [hc])⟩)
  | .eof => fail .unclosedBlock opened
  | .lparen =>
      (readPair c).andThen fun pair c' _ =>
        if pair.1 ∈ pairs.keys then fail (.repeatedKey pair.1) c.current.location
        else readPairs opened (pair :: pairs) c'
  | _ => fail .noPair c.current.location
termination_by c.left

/-- The attributes that pairs make; the pairs are given last first. -/
def attributesOf (pairs : Attributes) : Except ParseFailure Attributes :=
  (Attributes.ofPairs? pairs.reverse).mapError .refusedBlock

/-- Read a block of attributes. -/
def readBlock (c : Cursor) : Read c Attributes :=
  ((readPairs c.current.location [] c.advance.advance).refine attributesOf).after
    (Nat.le_trans (left_advance_le c.advance) (left_advance_le c))

/-- Read a form up to its attributes. -/
def readHead (c : Cursor) : Read c Open :=
  let opening := c.current
  let c₁ := c.advance
  let tag := c₁.current
  match hc : tag.kind with
  | .eof => fail .unclosedParen opening.location
  | .rparen => fail .emptyForm opening.location
  | .mark => fail .ownerlessBlock tag.location
  | .atom =>
      let f : Open := ⟨opening.location, tag.value, none, []⟩
      have hlt : c₁.advance.left < c.left :=
        Nat.lt_of_lt_of_le (left_advance (by simp [tag, c₁, hc])) (left_advance_le c)
      if c₁.advance.isAtBlock then
        ((readBlock c₁.advance).refine fun attributes =>
          .ok { f with attributes := some attributes }).after (Nat.le_of_lt hlt)
      else .ok (f, ⟨c₁.advance, hlt⟩)
  | kind => fail (.noTag kind) tag.location

mutual

/-- Read a form. -/
def readForm (c : Cursor) : Read c Form :=
  (readHead c).andThen fun f c' _ => readChildren f c'
termination_by (c.left, 0)

/-- Read the rest of a form after some of its children. -/
def readChildren (f : Open) (c : Cursor) : Read c Form :=
  match hc : c.current.kind with
  | .rparen => .ok (f.toForm, ⟨c.advance, left_advance (by simp [hc])⟩)
  | .eof => fail (.unclosedForm f.tag) f.opened
  | .lparen =>
      if c.isAtBlock then fail (.lateBlock f.tag) c.current.location
      else (readForm c).andThen fun child c' _ => readChildren (f.push child.toNode) c'
  | kind =>
      match hleaf : leaf? c.current with
      | some child =>
          have hlt : c.advance.left < c.left := left_advance (kind_ne_of_leaf? hleaf)
          (readChildren (f.push child) c.advance).after (Nat.le_of_lt hlt)
      | none => fail (.noChild kind) c.current.location
termination_by (c.left, 1)

end

/-- Read a whole sequence of tokens. -/
def parse (tokens : List Token) : Except ParseFailure Form :=
  let c : Cursor := ⟨tokens, 0⟩
  match c.current.kind with
  | .eof => fail .emptyTemplate .origin
  | .rparen => fail .unmatchedClose c.current.location
  | .lparen =>
      match readForm c with
      | .error e => .error e
      | .ok (root, ⟨c', _⟩) =>
          match c'.current.kind with
          | .eof => .ok root
          | .rparen => fail .unmatchedClose c'.current.location
          | _ => fail (.afterRoot c'.current.value) c'.current.location
  | kind => fail (.noForm kind) c.current.location

/-! ## The same token by token -/

/-- The tokens that are left before the end. -/
def rest (c : Cursor) : List Token :=
  Form.beforeEnd (c.tokens.drop c.position)

/-- What comes of a state with the tokens that are left. -/
def conclude (s : State) (c : Cursor) : Except ParseFailure Form :=
  (s.run c.rest).bind State.finish

/-- At the end nothing is left, be it a real end or a made-up one. -/
theorem conclude_of_eof (h : c.current.kind = .eof) (s : State) : conclude s c = s.finish := by
  have hrest : c.rest = [] := by
    rw [rest, Form.beforeEnd]
    cases hget : c.tokens[c.position]? with
    | none => rw [List.drop_eq_nil_of_le (List.getElem?_eq_none_iff.1 hget), List.takeWhile_nil]
    | some t =>
      obtain ⟨hlt, rfl⟩ := List.getElem?_eq_some_iff.1 hget
      have hkind : c.tokens[c.position].kind = .eof := by
        rwa [current, peek, Nat.add_zero, hget] at h
      rw [List.drop_eq_getElem_cons hlt, List.takeWhile_cons, hkind]
      rfl
  rw [conclude, hrest]
  rfl

/-- Before the end the next step reads the token at the cursor. -/
theorem conclude_of_ne (h : c.current.kind ≠ .eof) (s : State) :
    conclude s c = (s.step c.current).bind fun s' => conclude s' c.advance := by
  have hlt := position_lt h
  have hcurrent : c.current = c.tokens[c.position] := by
    rw [current, peek, Nat.add_zero, List.getElem?_eq_getElem hlt]
    rfl
  have hrest : c.rest = c.current :: c.advance.rest := by
    rw [advance_of_ne h, rest, rest, Form.beforeEnd, List.drop_eq_getElem_cons hlt, ← hcurrent,
      List.takeWhile_cons, if_pos (by simpa using h)]
    rfl
  rw [conclude, hrest, Parser.run_cons]
  cases s.step c.current <;> rfl

namespace Read

variable {α β γ : Type} {r : Read c α} {j : β → Cursor → Except ParseFailure γ}

/-- What is done with what was read and the cursor after it. -/
def proceed (r : Read c α) (k : α → Cursor → Except ParseFailure β) : Except ParseFailure β :=
  r.bind fun p => k p.1 p.2.1

theorem proceed_ok {c' : Cursor} (a : α) (h : c'.left < c.left)
    (k : α → Cursor → Except ParseFailure β) : proceed (.ok (a, ⟨c', h⟩)) k = k a c' := rfl

theorem proceed_after {c' : Cursor} (h : c'.left ≤ c.left) (r : Read c' α)
    (k : α → Cursor → Except ParseFailure β) : (r.after h).proceed k = r.proceed k := by
  cases r <;> rfl

theorem proceed_refine (r : Read c α) (f : α → Except ParseFailure β) :
    (r.refine f).proceed j = r.proceed fun a c' => (f a).bind fun b => j b c' := by
  cases r with
  | error e => rfl
  | ok p =>
    show (((f p.1).map fun b => (b, p.2)).bind fun q => j q.1 q.2.1) =
      (f p.1).bind fun b => j b p.2.1
    cases f p.1 <;> rfl

/-- What is read next is known from wherever the cursor has come to. -/
theorem proceed_andThen {k : α → (c' : Cursor) → c'.left < c.left → Read c' β}
    {l : α → Cursor → Except ParseFailure γ}
    (h : ∀ a c' hlt, r = .ok (a, ⟨c', hlt⟩) → (k a c' hlt).proceed j = l a c') :
    (r.andThen k).proceed j = r.proceed l := by
  cases r with
  | error e => rfl
  | ok p =>
    obtain ⟨a, c', hlt⟩ := p
    exact (proceed_after (Nat.le_of_lt hlt) _ j).trans (h a c' hlt rfl)

end Read

open Read (proceed_ok proceed_after proceed_refine proceed_andThen)

theorem conclude_of_step {s t : State} (h : c.current.kind ≠ .eof)
    (hstep : s.step c.current = .ok t) : conclude s c = conclude t c.advance := by
  rw [conclude_of_ne h, hstep]
  rfl

theorem conclude_of_fail {s : State} {cause : ParseError.Cause} {l : Location}
    (h : c.current.kind ≠ .eof) (hstep : s.step c.current = fail cause l) :
    conclude s c = fail cause l := by
  rw [conclude_of_ne h, hstep]
  rfl

/-- What comes of a pair: it is the next one of its block, unless its key was there. -/
def concludePair (p : OpenPair) (pair : String × Node) (c : Cursor) : Except ParseFailure Form :=
  if pair.1 ∈ p.block.pairs.keys then fail (.repeatedKey pair.1) p.opened
  else conclude (.block { p.block with pairs := pair :: p.block.pairs }) c

theorem conclude_close (key : String) (value : Node) (p : OpenPair) :
    conclude (.close key value p) c =
      (readPairEnd p.opened key value c).proceed (concludePair p) := by
  unfold readPairEnd
  split
  · rename_i hend
    exact conclude_of_eof hend _
  · rename_i hend
    rw [proceed_ok, conclude_of_ne (by simp [hend]), State.step, Parser.readClose, hend,
      concludePair]
    dsimp only
    split <;> rfl
  · rename_i hend hclose
    exact conclude_of_fail hend (by simp [State.step, Parser.readClose])

theorem conclude_value (key : String) (p : OpenPair) :
    conclude (.value key p) c =
      (readPairValue p.opened key c).proceed (concludePair p) := by
  unfold readPairValue
  split
  · rename_i hvalue
    exact conclude_of_eof hvalue _
  · rename_i hvalue
    refine conclude_of_fail (by simp [hvalue]) ?_
    simp [State.step, Parser.readValue, leaf?, hvalue]
  · rename_i hend hclose
    cases hleaf : leaf? c.current with
    | some value =>
      rw [proceed_after, conclude_of_step hend (by rw [State.step, Parser.readValue, hleaf]),
        conclude_close]
    | none =>
      exact conclude_of_fail hend (by simp [State.step, Parser.readValue, hleaf])

/-- Reading a pair, whatever block it stands in. -/
theorem conclude_pair (b : OpenBlock) :
    conclude (.key ⟨c.current.location, b⟩) c.advance =
      (readPair c).proceed (concludePair ⟨c.current.location, b⟩) := by
  unfold readPair
  dsimp only
  split
  · rename_i hkey
    exact conclude_of_eof hkey _
  · rename_i hkey
    rw [proceed_after, conclude_of_step (by simp [hkey]) (by rw [State.step, Parser.readKey, hkey]),
      conclude_value]
  · rename_i hend hatom
    exact conclude_of_fail hend (by simp [State.step, Parser.readKey])

/-- What comes of the pairs of a block: they are the attributes of its form. -/
def concludeBlock (owner : Open) (outer : List Open) (pairs : Attributes) (c : Cursor) :
    Except ParseFailure Form :=
  (attributesOf pairs).bind fun attributes =>
    conclude (.form { owner with attributes := some attributes } outer) c

/-- Reading the rest of a block of attributes, whatever form it belongs to. -/
theorem conclude_block (b : OpenBlock) (c : Cursor) :
    conclude (.block b) c =
      (readPairs b.opened b.pairs c).proceed (concludeBlock b.owner b.outer) := by
  rw [readPairs]
  split
  · rename_i hc
    rw [proceed_ok, conclude_of_ne (by simp [hc]), State.step, Parser.readBlock, hc, concludeBlock,
      attributesOf]
    dsimp only
    cases Attributes.ofPairs? b.pairs.reverse <;> rfl
  · rename_i hc
    exact conclude_of_eof hc _
  · rename_i hc
    rw [conclude_of_step (by simp [hc]) (by rw [State.step, Parser.readBlock, hc]), conclude_pair]
    refine (proceed_andThen fun pair c' hlt _ => ?_).symm
    rw [concludePair]
    split
    · rfl
    · rw [conclude_block]
  · rename_i hclose hend hopen
    exact conclude_of_fail hend (by simp [State.step, Parser.readBlock])
termination_by c.left

/-- A block of attributes is given to the form before it. -/
theorem conclude_attributes {f : Open} (outer : List Open) (hf : f.isFresh = true)
    (hc : c.isAtBlock = true) :
    conclude (.form f outer) c =
      (readBlock c).proceed fun attributes c' =>
        conclude (.form { f with attributes := some attributes } outer) c' := by
  obtain ⟨hopen, hmark⟩ : c.current.kind = .lparen ∧ (c.peek 1).kind = .mark := by
    simpa [isAtBlock] using hc
  rw [peek_one (by simp [hopen])] at hmark
  rw [conclude_of_step (by simp [hopen]) (by rw [State.step, Parser.readForm, hopen]),
    conclude_of_step (t := .block ⟨c.current.location, [], f, outer⟩) (by simp [hmark])
      (by rw [State.step, Parser.readOpened, hmark]; simp [hf]),
    conclude_block, readBlock, proceed_after, proceed_refine]
  rfl

/-- No block of attributes can follow what is read up to the attributes of a form. -/
theorem not_isFresh_of_readHead {f : Open} {c' : { c' : Cursor // c'.left < c.left }}
    (h : readHead c = .ok (f, c')) (hblock : c'.1.isAtBlock = true) : f.isFresh = false := by
  unfold readHead at h
  dsimp only at h
  split at h
  · cases h
  · cases h
  · cases h
  · split at h
    · cases hread : readBlock c.advance.advance <;> rw [hread] at h <;> cases h
      rfl
    · rename_i hnot
      cases h
      exact absurd hblock hnot
  · cases h

/-- Reading a form up to its attributes.  A mark is only read here in front of the root: inside of a
form it is seen before, by looking ahead. -/
theorem conclude_head (outer : List Open) (hc : c.current.kind = .lparen)
    (hblock : c.isAtBlock = true → outer = []) :
    conclude (.opened c.current.location outer) c.advance =
      (readHead c).proceed fun f c' => conclude (.form f outer) c' := by
  unfold readHead
  dsimp only
  split
  · rename_i htag
    exact conclude_of_eof htag _
  · rename_i htag
    exact conclude_of_fail (by simp [htag]) (by simp [State.step, Parser.readOpened, htag])
  · rename_i htag
    have hmark : c.isAtBlock = true := by
      simp [isAtBlock, hc, peek_one, htag]
    rw [hblock hmark]
    exact conclude_of_fail (by simp [htag]) (by simp [State.step, Parser.readOpened, htag])
  · rename_i htag
    rw [conclude_of_step (t := .form ⟨c.current.location, c.advance.current.value, none, []⟩ outer)
      (by simp [htag]) (by simp [State.step, Parser.readOpened, htag])]
    split
    · rename_i hattributes
      rw [conclude_attributes outer rfl hattributes, proceed_after, proceed_refine]
      rfl
    · rfl
  · rename_i hend hclose hmark hatom
    exact conclude_of_fail hend (by simp [State.step, Parser.readOpened])

/-- The state after a form inside others, innermost first. -/
def closed (form : Form) : List Open → State
  | [] => .done form
  | g :: outer => .form (g.push form.toNode) outer

theorem isFresh_push (f : Open) (child : Node) : (f.push child).isFresh = false := by
  simp [Open.isFresh, Open.push]

theorem finishForm_eq (f : Open) (outer : List Open) :
    Parser.finishForm f outer = closed f.toForm outer := by
  cases outer <;> rfl

mutual

/-- Reading a form, whatever forms are open around it. -/
theorem conclude_form (outer : List Open) (c : Cursor) (hc : c.current.kind = .lparen)
    (hblock : c.isAtBlock = true → outer = []) :
    conclude (.opened c.current.location outer) c.advance =
      (readForm c).proceed fun form c' => conclude (closed form outer) c' := by
  rw [readForm, conclude_head outer hc hblock]
  refine (proceed_andThen fun f c' hlt hhead => ?_).symm
  exact (conclude_children f outer c' (not_isFresh_of_readHead hhead)).symm
termination_by (c.left, 0)

/-- Reading the rest of a form, where no block of attributes can follow. -/
theorem conclude_children (f : Open) (outer : List Open) (c : Cursor)
    (hblock : c.isAtBlock = true → f.isFresh = false) :
    conclude (.form f outer) c =
      (readChildren f c).proceed fun form c' => conclude (closed form outer) c' := by
  rw [readChildren]
  split
  · rename_i hc
    rw [proceed_ok, conclude_of_step (by simp [hc]) (by rw [State.step, Parser.readForm, hc]),
      finishForm_eq]
  · rename_i hc
    exact conclude_of_eof hc _
  · rename_i hc
    rw [conclude_of_step (by simp [hc]) (by rw [State.step, Parser.readForm, hc])]
    split
    · rename_i hlate
      have hmark : c.advance.current.kind = .mark := by
        rw [← peek_one (by simp [hc])]
        simpa [isAtBlock, hc] using hlate
      refine conclude_of_fail (by simp [hmark]) ?_
      simp [State.step, Parser.readOpened, hmark, hblock hlate]
    · rename_i hform
      rw [conclude_form (f :: outer) c hc fun h => absurd h hform]
      refine (proceed_andThen fun child c' hlt _ => ?_).symm
      exact (conclude_children _ outer c' fun _ => isFresh_push f child.toNode).symm
  · rename_i hclose hend hopen
    split
    · rename_i child hleaf
      have hlt := left_advance (kind_ne_of_leaf? hleaf)
      have hstep : State.step (.form f outer) c.current = .ok (.form (f.push child) outer) := by
        simp [State.step, Parser.readForm, hleaf]
      rw [proceed_after, conclude_of_step hend hstep,
        conclude_children _ outer c.advance fun _ => isFresh_push f child]
    · rename_i hleaf
      exact conclude_of_fail hend (by simp [State.step, Parser.readForm, hleaf])
termination_by (c.left, 1)

end

/-- **Reading by descent.**  For all tokens, the descent has the same result as reading token by
token: the same form, or the same fault at the same place. -/
theorem parse_eq (tokens : List Token) : parse tokens = Form.ofTokens? tokens := by
  have hstart : Form.ofTokens? tokens = conclude .start ⟨tokens, 0⟩ := rfl
  rw [hstart]
  unfold parse
  dsimp only
  generalize (⟨tokens, 0⟩ : Cursor) = c
  split
  · rename_i hc
    exact (conclude_of_eof hc .start).symm
  · rename_i hc
    exact (conclude_of_fail (by simp [hc]) (by simp [State.step, Parser.readStart, hc])).symm
  · rename_i hc
    rw [conclude_of_step (by simp [hc]) (by rw [State.step, Parser.readStart, hc]),
      conclude_form [] c hc fun _ => rfl]
    cases hread : readForm c with
    | error e => rfl
    | ok r =>
      obtain ⟨root, c', hlt⟩ := r
      rw [proceed_ok]
      dsimp only [closed]
      split
      · rename_i hend
        exact (conclude_of_eof hend (.done root)).symm
      · rename_i hend
        exact (conclude_of_fail (by simp [hend]) (by simp [State.step, Parser.readDone, hend])).symm
      · rename_i hend hclose
        exact (conclude_of_fail hend (by simp [State.step, Parser.readDone])).symm
  · rename_i hend hclose hopen
    exact (conclude_of_fail hend (by simp [State.step, Parser.readStart])).symm

end Cursor

end MarkupForms
