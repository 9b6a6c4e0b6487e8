import MarkupForms.Location
import MarkupForms.Text.Display

/-!
# Tokens

A template is read as a sequence of tokens: parentheses, bare atoms, quoted texts, references to
variables, the mark of an attribute block, and the end of the text.  A token keeps the text it
means, without quotes and without the sign of a variable, and the place where it starts.
-/

namespace MarkupForms

/-- What a token is. -/
inductive Token.Kind where
  /-- An opening parenthesis. -/
  | lparen
  /-- A closing parenthesis. -/
  | rparen
  /-- A bare run of characters. -/
  | atom
  /-- A text between quotes. -/
  | string
  /-- A reference to a variable. -/
  | var
  /-- The mark of an attribute block. -/
  | mark
  /-- The end of the text. -/
  | eof
deriving DecidableEq, Repr, Inhabited

/-- The name of a kind of token in messages. -/
def Token.Kind.name : Token.Kind → String
  | .lparen => "LPAREN"
  | .rparen => "RPAREN"
  | .atom => "ATOM"
  | .string => "STRING"
  | .var => "VARIABLE"
  | .mark => "AT"
  | .eof => "EOF"

/-- All kinds of token. -/
def Token.Kind.all : List Token.Kind :=
  [.lparen, .rparen, .atom, .string, .var, .mark, .eof]

/-- The kind of token with a given name. -/
def Token.Kind.ofName? (name : String) : Option Token.Kind :=
  Token.Kind.all.find? fun kind => kind.name == name

/-- A token with the text it means and the place where it starts. -/
structure Token where
  /-- What the token is. -/
  kind : Token.Kind
  /-- The text it means. -/
  value : String
  /-- Where it starts. -/
  location : Location
deriving DecidableEq, Repr, Inhabited

/-- A token as diagnostics show it. -/
def Token.display (t : Token) : String :=
  s!"Token({t.kind.name}, {Text.display t.value}, {t.location.line}:{t.location.column})"

end MarkupForms
