import MarkupForms.Token
import MarkupForms.Text.Blank
import MarkupForms.Text.Quoted
import MarkupForms.Text.Identifier

/-!
# From text to tokens

The scanner reads a text character by character.  It is between tokens, in the middle of a run of
ordinary characters, or in the middle of a quoted text; the state after a text decides everything
about what follows, so scanning two texts in a row is a fold over one after the other.

A run ends before a blank, a parenthesis or a quote.  It is a reference when all of it is the sign
of a variable followed by a path; a run that is only `@` marks an attribute block when the token
before it is an opening parenthesis; any other run is an atom.

* `Scanner.run_append` : the state after two texts.
* `Scanner.cursor_run` : the scanner stands where the text ends.
-/

namespace MarkupForms

/-- The one fault of a text on the way to tokens: a quote without its partner. -/
structure UnclosedQuote where
  /-- Where the quote stands. -/
  opened : Location
deriving DecidableEq, Repr

/-- The message for a quote without its partner. -/
def UnclosedQuote.message (e : UnclosedQuote) : String :=
  "Unterminated string literal" ++ e.opened.note

/-- What the scanner is in the middle of. -/
inductive Scanner.Mode where
  /-- Between two tokens. -/
  | between
  /-- In a run that started at a place; its characters, last first. -/
  | run (start : Location) (chars : List Char)
  /-- In a quoted text that was opened at a place; its characters as written, last first, and
  whether the next one is protected by a backslash. -/
  | quoted (start : Location) (chars : List Char) (guarded : Bool)
deriving DecidableEq, Repr

/-- A scanner after some text. -/
structure Scanner where
  /-- The tokens that are complete, last first. -/
  tokens : List Token
  /-- Where the next character stands. -/
  cursor : Location
  /-- What the scanner is in the middle of. -/
  mode : Scanner.Mode
deriving DecidableEq, Repr

namespace Scanner

/-! ## One character at a time -/

/-- The scanner before the first character. -/
def initial : Scanner := ⟨[], .origin, .between⟩

/-- Whether a run ends before this character. -/
def isDelimiter (c : Char) : Bool :=
  Text.isBlank c || c == '(' || c == ')' || c == '"'

/-- Whether a run is a reference to a variable. -/
def isReference : List Char → Bool
  | '$' :: path => Text.isPath path
  | _ => false

/-- The token for a complete run, where `afterOpen` tells whether the token before it is an opening
parenthesis. -/
def runToken (afterOpen : Bool) (start : Location) (chars : List Char) : Token :=
  if isReference chars then ⟨.var, String.ofList chars.tail, start⟩
  else if chars = ['@'] ∧ afterOpen then ⟨.mark, "@", start⟩
  else ⟨.atom, String.ofList chars, start⟩

/-- Whether the last of the tokens is an opening parenthesis. -/
def endsOpen (tokens : List Token) : Bool :=
  match tokens with
  | [] => false
  | t :: _ => t.kind == .lparen

/-- Complete the run that the scanner is in, if any. -/
def closeRun (s : Scanner) : Scanner :=
  match s.mode with
  | .run start chars =>
      { s with
        tokens := runToken (endsOpen s.tokens) start chars.reverse :: s.tokens
        mode := .between }
  | _ => s

/-- Read a character that stands between tokens. -/
def startToken (s : Scanner) (c : Char) : Scanner :=
  if Text.isBlank c then s
  else if c = '(' then { s with tokens := ⟨.lparen, "(", s.cursor⟩ :: s.tokens }
  else if c = ')' then { s with tokens := ⟨.rparen, ")", s.cursor⟩ :: s.tokens }
  else if c = '"' then { s with mode := .quoted s.cursor [] false }
  else { s with mode := .run s.cursor [c] }

/-- Read a character, the cursor apart. -/
def read (s : Scanner) (c : Char) : Scanner :=
  match s.mode with
  | .between => s.startToken c
  | .run start chars =>
      if isDelimiter c then s.closeRun.startToken c
      else { s with mode := .run start (c :: chars) }
  | .quoted start chars guarded =>
      if guarded then { s with mode := .quoted start (c :: chars) false }
      else if c = '\\' then { s with mode := .quoted start (c :: chars) true }
      else if c = '"' then
        { s with
          tokens := ⟨.string, String.ofList (Text.decodeBody chars.reverse), start⟩ :: s.tokens
          mode := .between }
      else { s with mode := .quoted start (c :: chars) false }

/-- Read a character and move on. -/
def step (s : Scanner) (c : Char) : Scanner :=
  { s.read c with cursor := s.cursor.advance c }

/-- Read a text. -/
def run (s : Scanner) (text : List Char) : Scanner :=
  text.foldl step s

/-- The tokens at the end of the text. -/
def finish (s : Scanner) : Except UnclosedQuote (List Token) :=
  match s.mode with
  | .quoted start _ _ => .error ⟨start⟩
  | _ => .ok (s.closeRun.tokens.reverse ++ [⟨.eof, "", s.cursor⟩])

/-! ## Scanning two texts in a row -/

@[simp] theorem run_nil (s : Scanner) : s.run [] = s := rfl

@[simp] theorem run_cons (s : Scanner) (c : Char) (text : List Char) :
    s.run (c :: text) = (s.step c).run text := rfl

/-- Reading two texts in a row. -/
theorem run_append (s : Scanner) (u v : List Char) : s.run (u ++ v) = (s.run u).run v :=
  List.foldl_append

/-- The scanner stands where the text ends. -/
theorem cursor_run (s : Scanner) (text : List Char) :
    (s.run text).cursor = s.cursor.advanceBy text := by
  induction text generalizing s with
  | nil => rfl
  | cons c text ih => rw [run_cons, ih]; rfl

end Scanner

/-- The tokens of a text, the last of them the end of the text. -/
def Token.scan (text : List Char) : Except UnclosedQuote (List Token) :=
  (Scanner.initial.run text).finish

/-- The tokens of a text. -/
def Token.ofText (text : String) : Except UnclosedQuote (List Token) :=
  Token.scan text.toList

end MarkupForms
