import MarkupForms.Proofs.Descent
import MarkupForms.Proofs.Spacing

/-!
# Tokens at other places

Where the tokens stand makes no difference to what is read from them: the parser carries places
along and looks at none of them.  So it commutes with every change of places, step by step, and the
one place that a fault names is changed with them.  Two sequences of tokens that mean the same are
both changes of one sequence whose places are its indices, and so they have the same tree or the
same fault at corresponding tokens.

* `Parser.step_relocate` : a step from changed places.
* `Form.ofTokens?_relocate` : the tree or the fault with changed places.
* `Form.alike_of_meaning` : tokens with the same meaning, wherever they stand.
* `Form.end_optional_and_places_inert` : neither the token for the end nor any place counts.
-/

namespace MarkupForms

/-! ## Changes of places -/

/-- A token at a changed place. -/
def Token.relocate (g : Location → Location) (t : Token) : Token :=
  { t with location := g t.location }

/-- A fault with a changed place. -/
def ParseFailure.relocate (g : Location → Location) : ParseFailure → ParseFailure
  | .fault e => .fault ⟨e.cause, g e.location⟩
  | .refusedBlock key => .refusedBlock key

namespace Parser

variable (g : Location → Location)

/-- An open form with a changed place. -/
def Open.relocate (f : Open) : Open :=
  { f with opened := g f.opened }

/-- An open block with changed places. -/
def OpenBlock.relocate (b : OpenBlock) : OpenBlock where
  opened := g b.opened
  pairs := b.pairs
  owner := b.owner.relocate g
  outer := b.outer.map (Open.relocate g)

/-- An open pair with changed places. -/
def OpenPair.relocate (p : OpenPair) : OpenPair :=
  ⟨g p.opened, p.block.relocate g⟩

/-- A state with changed places. -/
def State.relocate : State → State
  | .start => .start
  | .opened l outer => .opened (g l) (outer.map (Open.relocate g))
  | .form f outer => .form (f.relocate g) (outer.map (Open.relocate g))
  | .block b => .block (b.relocate g)
  | .key p => .key (p.relocate g)
  | .value k p => .value k (p.relocate g)
  | .close k v p => .close k v (p.relocate g)
  | .done root => .done root

/-- What was read, with changed places. -/
def relocateRead (r : Except ParseFailure State) : Except ParseFailure State :=
  (r.map (State.relocate g)).mapError (ParseFailure.relocate g)

/-! ## One token -/

variable (t : Token)

theorem kind_relocate : (t.relocate g).kind = t.kind := rfl

theorem leaf?_relocate : leaf? (t.relocate g) = leaf? t := rfl

theorem readStart_relocate : readStart (t.relocate g) = relocateRead g (readStart t) := by
  unfold readStart
  rw [kind_relocate]
  split <;> rfl

theorem readOpened_relocate (l : Location) (outer : List Open) :
    readOpened (g l) (outer.map (Open.relocate g)) (t.relocate g) =
      relocateRead g (readOpened l outer t) := by
  unfold readOpened
  rw [kind_relocate]
  cases t.kind with
  | mark =>
    cases outer with
    | nil => rfl
    | cons f outer =>
      show (if f.isFresh then _ else _) = relocateRead g (if f.isFresh then _ else _)
      cases f.isFresh <;> rfl
  | _ => rfl

theorem readForm_relocate (f : Open) (outer : List Open) :
    readForm (f.relocate g) (outer.map (Open.relocate g)) (t.relocate g) =
      relocateRead g (readForm f outer t) := by
  unfold readForm
  rw [kind_relocate, leaf?_relocate]
  cases t.kind with
  | rparen => cases outer <;> rfl
  | lparen => rfl
  | _ => cases leaf? t <;> rfl

theorem readBlock_relocate (b : OpenBlock) :
    readBlock (b.relocate g) (t.relocate g) = relocateRead g (readBlock b t) := by
  unfold readBlock
  rw [kind_relocate]
  cases t.kind with
  | rparen =>
    have hpairs : (b.relocate g).pairs = b.pairs := rfl
    dsimp only
    rw [hpairs]
    cases Attributes.ofPairs? b.pairs.reverse <;> rfl
  | _ => rfl

theorem readKey_relocate (p : OpenPair) :
    readKey (p.relocate g) (t.relocate g) = relocateRead g (readKey p t) := by
  unfold readKey
  rw [kind_relocate]
  cases t.kind <;> rfl

theorem readValue_relocate (key : String) (p : OpenPair) :
    readValue key (p.relocate g) (t.relocate g) = relocateRead g (readValue key p t) := by
  unfold readValue
  rw [kind_relocate, leaf?_relocate]
  cases leaf? t with
  | some value => rfl
  | none => cases t.kind <;> rfl

theorem readClose_relocate (key : String) (value : Node) (p : OpenPair) :
    readClose key value (p.relocate g) (t.relocate g) =
      relocateRead g (readClose key value p t) := by
  unfold readClose
  rw [kind_relocate]
  cases t.kind with
  | rparen =>
    show (if key ∈ p.block.pairs.keys then _ else _) = relocateRead g (if _ then _ else _)
    split <;> rfl
  | _ => rfl

theorem readDone_relocate : readDone (t.relocate g) = relocateRead g (readDone t) := by
  unfold readDone
  rw [kind_relocate]
  cases t.kind <;> rfl

/-- A step from changed places: what is read is the same, with changed places. -/
theorem step_relocate (s : State) :
    (s.relocate g).step (t.relocate g) = relocateRead g (s.step t) := by
  cases s with
  | start => exact readStart_relocate g t
  | opened l outer => exact readOpened_relocate g t l outer
  | form f outer => exact readForm_relocate g t f outer
  | block b => exact readBlock_relocate g t b
  | key p => exact readKey_relocate g t p
  | value k p => exact readValue_relocate g t k p
  | close k v p => exact readClose_relocate g t k v p
  | done root => exact readDone_relocate g t

/-! ## A sequence of tokens -/

variable {g t}

theorem run_relocate (s : State) (ts : List Token) :
    (s.relocate g).run (ts.map (Token.relocate g)) = relocateRead g (s.run ts) := by
  induction ts generalizing s with
  | nil => rfl
  | cons t ts ih =>
    rw [List.map_cons, run_cons, run_cons, step_relocate]
    cases s.step t with
    | error e => rfl
    | ok s' => exact ih s'

/-- At the end the place of an open parenthesis is named, or the origin, which must stay. -/
theorem finish_relocate (hg : g .origin = .origin) (s : State) :
    (s.relocate g).finish = s.finish.mapError (ParseFailure.relocate g) := by
  cases s with
  | start =>
    show fail .emptyTemplate .origin = fail .emptyTemplate (g .origin)
    rw [hg]
  | _ => rfl

end Parser

namespace Form

variable {ts us : List Token}

open Token (relocate)

theorem beforeEnd_relocate (g : Location → Location) (ts : List Token) :
    beforeEnd (ts.map (relocate g)) = (beforeEnd ts).map (relocate g) := by
  rw [beforeEnd, List.takeWhile_map]
  rfl

/-- The tree does not change with the places, and a fault only in its place. -/
theorem ofTokens?_relocate {g : Location → Location} (hg : g .origin = .origin) (ts : List Token) :
    ofTokens? (ts.map (relocate g)) = (ofTokens? ts).mapError (ParseFailure.relocate g) := by
  rw [ofTokens?, ofTokens?, beforeEnd_relocate]
  have hrun := Parser.run_relocate (g := g) .start (beforeEnd ts)
  rw [Parser.State.relocate] at hrun
  rw [hrun]
  cases Parser.State.start.run (beforeEnd ts) with
  | error e => rfl
  | ok s => exact Parser.finish_relocate hg s

/-! ## Tokens that mean the same -/

/-- The place that stands for an index. -/
def indexPlace (i : Nat) : Location :=
  ⟨i, 0, 0⟩

/-- Tokens with their indices as places. -/
def numbered (ts : List Token) : List Token :=
  ts.mapIdx fun i t => { t with location := indexPlace i }

/-- The place of the token that an index stands for; the origin stands for itself. -/
def placeIn (ts : List Token) (l : Location) : Location :=
  if l = .origin then .origin else (ts[l.position.toNat]?.map Token.location).getD .origin

theorem placeIn_indexPlace {i : Nat} {t : Token} (h : ts[i]? = some t) :
    placeIn ts (indexPlace i) = t.location := by
  have hne : indexPlace i ≠ .origin := by simp [indexPlace, Location.origin]
  rw [placeIn, if_neg hne, indexPlace, Int.toNat_natCast, h]
  rfl

theorem getElem?_numbered (ts : List Token) (i : Nat) :
    (numbered ts)[i]? = ts[i]?.map fun t => { t with location := indexPlace i } :=
  List.getElem?_mapIdx

/-- Tokens are a change of the numbered ones. -/
theorem map_relocate_numbered (ts : List Token) :
    (numbered ts).map (relocate (placeIn ts)) = ts := by
  refine List.ext_getElem? fun i => ?_
  rw [List.getElem?_map, getElem?_numbered]
  cases ht : ts[i]? with
  | none => rfl
  | some t => simp [relocate, placeIn_indexPlace ht]

/-- Tokens that mean the same are changes of the same numbered ones. -/
theorem numbered_eq_of_meaning (h : ts.map Token.meaning = us.map Token.meaning) :
    numbered ts = numbered us := by
  refine List.ext_getElem? fun i => ?_
  have hi : ts[i]?.map Token.meaning = us[i]?.map Token.meaning := by
    simpa using congrArg (·[i]?) h
  rw [getElem?_numbered, getElem?_numbered]
  cases ht : ts[i]? with
  | none =>
    rw [ht, Option.map_none, eq_comm, Option.map_eq_none_iff] at hi
    rw [hi]
  | some t =>
    rw [ht, Option.map_some, eq_comm, Option.map_eq_some_iff] at hi
    obtain ⟨u, hu, hmeaning⟩ := hi
    obtain ⟨hkind, hvalue⟩ := Prod.mk.inj hmeaning
    simp [hu, hkind, hvalue]

/-- Whether two faults are the same but for their places, which are those of the tokens with one
index.  If there is no token, both are at the origin. -/
inductive SameFault (ts us : List Token) : ParseFailure → ParseFailure → Prop where
  /-- There is no token. -/
  | empty : SameFault ts us (.fault ⟨.emptyTemplate, .origin⟩) (.fault ⟨.emptyTemplate, .origin⟩)
  /-- The fault is at a token. -/
  | token {cause : ParseError.Cause} {i : Nat} {t u : Token} (ht : ts[i]? = some t)
      (hu : us[i]? = some u) :
      SameFault ts us (.fault ⟨cause, t.location⟩) (.fault ⟨cause, u.location⟩)

/-- The kind of a fault and its message but for the place do not depend on the places. -/
theorem alike_of_meaning (h : ts.map Token.meaning = us.map Token.meaning) :
    (∃ f, ofTokens? ts = .ok f ∧ ofTokens? us = .ok f) ∨
      ∃ d e, ofTokens? ts = .error d ∧ ofTokens? us = .error e ∧ SameFault ts us d e := by
  have hts := ofTokens?_relocate (g := placeIn ts) (if_pos rfl) (numbered ts)
  have hus := ofTokens?_relocate (g := placeIn us) (if_pos rfl) (numbered ts)
  rw [map_relocate_numbered] at hts
  rw [numbered_eq_of_meaning h, map_relocate_numbered, ← numbered_eq_of_meaning h] at hus
  cases hread : ofTokens? (numbered ts) with
  | ok f =>
    rw [hread] at hts hus
    exact .inl ⟨f, hts, hus⟩
  | error e =>
    rw [hread] at hts hus
    refine .inr ⟨_, _, hts, hus, ?_⟩
    obtain ⟨⟨cause, l⟩, rfl⟩ := ofTokens?_error hread
    rcases exists_token_of_fault hread with ⟨heq, -⟩ | ⟨t, ht, hl⟩
    · cases heq
      exact .empty
    · -- the token is one of the numbered ones, so its place stands for an index
      obtain ⟨i, hi⟩ := List.mem_iff_getElem?.1 ((List.takeWhile_sublist _).subset ht)
      have hi' := hi
      rw [getElem?_numbered, Option.map_eq_some_iff] at hi
      rw [numbered_eq_of_meaning h, getElem?_numbered, Option.map_eq_some_iff] at hi'
      obtain ⟨t', ht', rfl⟩ := hi
      obtain ⟨u', hu', -⟩ := hi'
      obtain rfl : l = indexPlace i := hl
      show SameFault ts us (.fault ⟨cause, placeIn ts _⟩) (.fault ⟨cause, placeIn us _⟩)
      rw [placeIn_indexPlace ht', placeIn_indexPlace hu']
      exact .token ht' hu'

/-- **The end is optional, and places are inert.**  For all tokens:

* Reading by descent, with a cursor that makes up a token where the tokens are over, has the same
  result as reading token by token.
* A token for the end and whatever follows it change neither the form nor the fault nor its place.
* Tokens that mean the same, wherever each of them stands, have the same form, or faults with the
  same cause whose places are those of the tokens with one index. -/
theorem end_optional_and_places_inert (ts : List Token) :
    Cursor.parse ts = ofTokens? ts ∧
    (∀ (e : Token) (us : List Token), e.kind = .eof →
      ofTokens? (ts ++ [e]) = ofTokens? ts ∧ ofTokens? (ts ++ [e] ++ us) = ofTokens? ts) ∧
    ∀ us : List Token, ts.map Token.meaning = us.map Token.meaning →
      (∃ f, ofTokens? ts = .ok f ∧ ofTokens? us = .ok f) ∨
        ∃ d e, ofTokens? ts = .error d ∧ ofTokens? us = .error e ∧ SameFault ts us d e := by
  refine ⟨Cursor.parse_eq ts, fun e us he => ⟨ofTokens?_append_eof ts [] he, ?_⟩,
    fun us h => alike_of_meaning h⟩
  rw [List.append_assoc]
  exact ofTokens?_append_eof ts us he

/-- A form that is not closed before the end, with a parenthesis after it; and the same form at
places in the second line. -/
theorem end_optional_unclosed :
    ofTokens? ([⟨.lparen, "(", ⟨0, 1, 1⟩⟩, ⟨.atom, "p", ⟨1, 1, 2⟩⟩] ++ [⟨.eof, "", ⟨2, 1, 3⟩⟩] ++
        [⟨.rparen, ")", ⟨2, 1, 3⟩⟩]) = .error (.fault ⟨.unclosedForm "p", ⟨0, 1, 1⟩⟩) ∧
      ∃ d e, ofTokens? [⟨.lparen, "(", ⟨0, 1, 1⟩⟩, ⟨.atom, "p", ⟨1, 1, 2⟩⟩] = .error d ∧
        ofTokens? [⟨.lparen, "(", ⟨7, 2, 3⟩⟩, ⟨.atom, "p", ⟨9, 2, 5⟩⟩] = .error e ∧
        SameFault [⟨.lparen, "(", ⟨0, 1, 1⟩⟩, ⟨.atom, "p", ⟨1, 1, 2⟩⟩]
          [⟨.lparen, "(", ⟨7, 2, 3⟩⟩, ⟨.atom, "p", ⟨9, 2, 5⟩⟩] d e := by
  obtain ⟨-, hend, halike⟩ := end_optional_and_places_inert
    [⟨.lparen, "(", ⟨0, 1, 1⟩⟩, ⟨.atom, "p", ⟨1, 1, 2⟩⟩]
  have hmoved := halike [⟨.lparen, "(", ⟨7, 2, 3⟩⟩, ⟨.atom, "p", ⟨9, 2, 5⟩⟩] rfl
  refine ⟨(hend _ _ rfl).2.trans rfl, hmoved.resolve_left ?_⟩
  rintro ⟨f, hf, -⟩
  cases hf

end Form

end MarkupForms
