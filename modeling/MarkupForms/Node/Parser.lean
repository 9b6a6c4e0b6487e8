import MarkupForms.Node
import MarkupForms.Node.ParseError

/-!
# From tokens to a form

A form is an opening parenthesis, the tag, at most one block of attributes directly after it, the
children, and a closing parenthesis.  A block of attributes is an opening parenthesis, the mark `@`,
pairs of a key and a value, and a closing parenthesis.

The parser reads token by token.  Its state holds the forms that are open, the innermost apart, so
that it needs no recursion: a closing parenthesis makes a finished form the last child of the one
around it.  Parsing two sequences in a row is a fold over one after the other, and a fault shows at
the first token that cannot follow.

* `Parser.run_append` : the state after two sequences of tokens.
* `Form.ofTokens?_append_eof` : what stands after the end of the text does not count.
-/

namespace MarkupForms

namespace Parser

/-! ## What has been read -/

/-- A form that is not closed yet. -/
structure Open where
  /-- Where its parenthesis stands. -/
  opened : Location
  /-- Its tag. -/
  tag : String
  /-- Its attributes, if there is a block of them. -/
  attributes : Option Attributes
  /-- Its children so far, last first. -/
  children : List Node
deriving DecidableEq, Repr

/-- A block of attributes that is not closed yet. -/
structure OpenBlock where
  /-- Where its parenthesis stands. -/
  opened : Location
  /-- Its pairs so far, last first. -/
  pairs : Attributes
  /-- The form that it belongs to. -/
  owner : Open
  /-- The forms around that form, innermost first. -/
  outer : List Open
deriving DecidableEq, Repr

/-- A pair that is not closed yet. -/
structure OpenPair where
  /-- Where its parenthesis stands. -/
  opened : Location
  /-- The block that it stands in. -/
  block : OpenBlock
deriving DecidableEq, Repr

/-- What the parser has read. -/
inductive State where
  /-- Nothing. -/
  | start
  /-- An opening parenthesis inside the given forms, innermost first. -/
  | opened (location : Location) (outer : List Open)
  /-- A form up to some child, inside the given forms. -/
  | form (inner : Open) (outer : List Open)
  /-- A block of attributes up to some pair. -/
  | block (b : OpenBlock)
  /-- The opening parenthesis of a pair. -/
  | key (p : OpenPair)
  /-- A pair up to its key. -/
  | value (key : String) (p : OpenPair)
  /-- A pair up to its value. -/
  | close (key : String) (value : Node) (p : OpenPair)
  /-- The whole root. -/
  | done (root : Form)
deriving DecidableEq, Repr

/-- Whether only the tag of a form has been read, so that a block of attributes may follow. -/
def Open.isFresh (f : Open) : Bool :=
  f.attributes.isNone && f.children.isEmpty

/-- The form that is complete with a closing parenthesis. -/
def Open.toForm (f : Open) : Form :=
  ⟨f.tag, f.attributes, f.children.reverse⟩

/-- Add a child to a form. -/
def Open.push (f : Open) (child : Node) : Open :=
  { f with children := child :: f.children }

/-- The leaf that a token stands for. -/
def leaf? (t : Token) : Option Node :=
  match t.kind with
  | .atom | .string => some (.text t.value)
  | .var => some (.var t.value)
  | _ => none

/-! ## One token at a time -/

/-- The fault with a cause at a place. -/
def fail {α : Type} (cause : ParseError.Cause) (location : Location) : Except ParseFailure α :=
  .error (.fault ⟨cause, location⟩)

/-- Read the first token. -/
def readStart (t : Token) : Except ParseFailure State :=
  match t.kind with
  | .lparen => .ok (.opened t.location [])
  | .rparen => fail .unmatchedClose t.location
  | kind => fail (.noForm kind) t.location

/-- Read the token after an opening parenthesis. -/
def readOpened (location : Location) (outer : List Open) (t : Token) : Except ParseFailure State :=
  match t.kind with
  | .atom => .ok (.form ⟨location, t.value, none, []⟩ outer)
  | .rparen => fail .emptyForm location
  | .mark =>
      match outer with
      | [] => fail .ownerlessBlock t.location
      | f :: outer =>
          if f.isFresh then .ok (.block ⟨location, [], f, outer⟩)
          else fail (.lateBlock f.tag) location
  | kind => fail (.noTag kind) t.location

/-- The state after a form is complete. -/
def finishForm (f : Open) (outer : List Open) : State :=
  match outer with
  | [] => .done f.toForm
  | g :: outer => .form (g.push f.toForm.toNode) outer

/-- Read a token inside a form. -/
def readForm (f : Open) (outer : List Open) (t : Token) : Except ParseFailure State :=
  match t.kind with
  | .rparen => .ok (finishForm f outer)
  | .lparen => .ok (.opened t.location (f :: outer))
  | kind =>
      match leaf? t with
      | some child => .ok (.form (f.push child) outer)
      | none => fail (.noChild kind) t.location

/-- Read a token inside a block of attributes. -/
def readBlock (b : OpenBlock) (t : Token) : Except ParseFailure State :=
  match t.kind with
  | .rparen =>
      match Attributes.ofPairs? b.pairs.reverse with
      | .ok attributes => .ok (.form { b.owner with attributes := some attributes } b.outer)
      | .error key => .error (.refusedBlock key)
  | .lparen => .ok (.key ⟨t.location, b⟩)
  | _ => fail .noPair t.location

/-- Read the key of a pair. -/
def readKey (p : OpenPair) (t : Token) : Except ParseFailure State :=
  match t.kind with
  | .atom => .ok (.value t.value p)
  | _ => fail .noKey t.location

/-- Read the value of a pair. -/
def readValue (key : String) (p : OpenPair) (t : Token) : Except ParseFailure State :=
  match leaf? t with
  | some value => .ok (.close key value p)
  | none =>
      match t.kind with
      | .rparen => fail (.noValue key) t.location
      | _ => fail (.badValue key) t.location

/-- Read the end of a pair. -/
def readClose (key : String) (value : Node) (p : OpenPair) (t : Token) :
    Except ParseFailure State :=
  match t.kind with
  | .rparen =>
      if key ∈ p.block.pairs.keys then fail (.repeatedKey key) p.opened
      else .ok (.block { p.block with pairs := (key, value) :: p.block.pairs })
  | _ => fail (.longPair key) t.location

/-- Read a token after the root. -/
def readDone (t : Token) : Except ParseFailure State :=
  match t.kind with
  | .rparen => fail .unmatchedClose t.location
  | _ => fail (.afterRoot t.value) t.location

/-- Read a token. -/
def State.step (s : State) (t : Token) : Except ParseFailure State :=
  match s with
  | .start => readStart t
  | .opened location outer => readOpened location outer t
  | .form f outer => readForm f outer t
  | .block b => readBlock b t
  | .key p => readKey p t
  | .value k p => readValue k p t
  | .close k v p => readClose k v p t
  | .done _ => readDone t

/-- Read a sequence of tokens. -/
def State.run (s : State) (tokens : List Token) : Except ParseFailure State :=
  tokens.foldlM State.step s

/-- The root at the end of the tokens. -/
def State.finish : State → Except ParseFailure Form
  | .start => fail .emptyTemplate .origin
  | .opened location _ => fail .unclosedParen location
  | .form f _ => fail (.unclosedForm f.tag) f.opened
  | .block b => fail .unclosedBlock b.opened
  | .key p | .value _ p | .close _ _ p => fail .unclosedPair p.opened
  | .done root => .ok root

/-! ## Parsing two sequences in a row -/

@[simp] theorem run_nil (s : State) : s.run [] = .ok s := rfl

@[simp] theorem run_cons (s : State) (t : Token) (ts : List Token) :
    s.run (t :: ts) = (s.step t).bind fun s' => s'.run ts := rfl

/-- Reading two sequences in a row. -/
theorem run_append (s : State) (ts us : List Token) :
    s.run (ts ++ us) = (s.run ts).bind fun s' => s'.run us := by
  simp only [State.run, List.foldlM_append]
  rfl

end Parser

namespace Form

/-! ## Forms -/

/-- The tokens before the end of the text. -/
def beforeEnd (tokens : List Token) : List Token :=
  tokens.takeWhile fun t => t.kind != .eof

/-- The form that a sequence of tokens is written for. -/
def ofTokens? (tokens : List Token) : Except ParseFailure Form :=
  (Parser.State.start.run (beforeEnd tokens)).bind Parser.State.finish

/-- The form that a text is written for. -/
def ofText? (text : String) : Except SourceError Form :=
  match Token.ofText text with
  | .error e => .error (.scan e)
  | .ok tokens =>
      match ofTokens? tokens with
      | .error e => .error (.parse e)
      | .ok form => .ok form

/-- What stands after the end of the text does not count. -/
theorem beforeEnd_append_eof (ts us : List Token) {t : Token} (h : t.kind = .eof) :
    beforeEnd (ts ++ t :: us) = beforeEnd ts := by
  induction ts with
  | nil => simp [beforeEnd, h]
  | cons a ts ih =>
    by_cases ha : a.kind = .eof <;> simp_all [beforeEnd]

/-- Neither the token for the end nor what follows it changes the result. -/
theorem ofTokens?_append_eof (ts us : List Token) {t : Token} (h : t.kind = .eof) :
    ofTokens? (ts ++ t :: us) = ofTokens? ts := by
  rw [ofTokens?, ofTokens?, beforeEnd_append_eof ts us h]

end Form

end MarkupForms
