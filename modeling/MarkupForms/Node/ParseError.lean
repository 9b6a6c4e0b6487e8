import MarkupForms.Token.Scanner

/-!
# What can be wrong with a sequence of tokens

Each fault is stored with what its message names and the place that it is reported at.  The faults
fall into four kinds.  Besides, attributes are refused when they are made of pairs with a repeated
key; this refusal names no place.
-/

namespace MarkupForms

/-- What is wrong with a sequence of tokens. -/
inductive ParseError.Cause where
  /-- There is no token at all. -/
  | emptyTemplate
  /-- A closing parenthesis without an opening one. -/
  | unmatchedClose
  /-- The first token does not open a form. -/
  | noForm (found : Token.Kind)
  /-- Something follows the root. -/
  | afterRoot (value : String)
  /-- The tokens end after an opening parenthesis. -/
  | unclosedParen
  /-- A pair of parentheses with nothing between. -/
  | emptyForm
  /-- A block of attributes that no tag owns. -/
  | ownerlessBlock
  /-- A form whose tag is not an atom. -/
  | noTag (found : Token.Kind)
  /-- The tokens end inside a form. -/
  | unclosedForm (tag : String)
  /-- A block of attributes that does not directly follow the tag. -/
  | lateBlock (tag : String)
  /-- A token that is no child. -/
  | noChild (found : Token.Kind)
  /-- The tokens end inside a block of attributes. -/
  | unclosedBlock
  /-- A block of attributes holds something else than pairs. -/
  | noPair
  /-- A key that stands twice in a block. -/
  | repeatedKey (key : String)
  /-- The tokens end inside a pair. -/
  | unclosedPair
  /-- A pair whose key is not an atom. -/
  | noKey
  /-- A pair that ends after its key. -/
  | noValue (key : String)
  /-- A pair whose value is neither a text nor a variable. -/
  | badValue (key : String)
  /-- A pair with something after its value. -/
  | longPair (key : String)
deriving DecidableEq, Repr

/-- The kinds of faults. -/
inductive ParseError.Kind where
  /-- A token that cannot stand where it stands. -/
  | unexpectedToken
  /-- A parenthesis without its partner. -/
  | unbalancedParens
  /-- Nothing where a form is needed. -/
  | emptyForm
  /-- A block of attributes that is misplaced or malformed. -/
  | invalidAttributeBlock
deriving DecidableEq, Repr

/-- The kind of a fault. -/
def ParseError.Cause.kind : ParseError.Cause → ParseError.Kind
  | .emptyTemplate | .emptyForm => .emptyForm
  | .unmatchedClose | .unclosedParen | .unclosedForm _ | .unclosedBlock | .unclosedPair =>
      .unbalancedParens
  | .noForm _ | .afterRoot _ | .noTag _ | .noChild _ => .unexpectedToken
  | .ownerlessBlock | .lateBlock _ | .noPair | .repeatedKey _ | .noKey | .noValue _
  | .badValue _ | .longPair _ => .invalidAttributeBlock

/-- The message for a fault, its place apart. -/
def ParseError.Cause.text : ParseError.Cause → String
  | .emptyTemplate => "Empty template"
  | .unmatchedClose => "Unmatched ')'"
  | .noForm found => s!"Template must start with a form, got {found.name}"
  | .afterRoot value => s!"Unexpected token '{value}' after root form"
  | .unclosedParen => "Unclosed '('"
  | .emptyForm => "Empty form '()'"
  | .ownerlessBlock => "Attribute block must follow a tag name"
  | .noTag found => s!"Expected tag name, got {found.name}"
  | .unclosedForm tag => s!"Unclosed form '{tag}'"
  | .lateBlock tag => s!"Attribute block of '{tag}' must immediately follow the tag name"
  | .noChild found => s!"Unexpected token {found.name}"
  | .unclosedBlock => "Unclosed attribute block"
  | .noPair => "Expected '(key value)' pair in attribute block"
  | .repeatedKey key => s!"Duplicate attribute '{key}'"
  | .unclosedPair => "Unclosed attribute pair"
  | .noKey => "Attribute name must be a bare atom"
  | .noValue key => s!"Attribute '{key}' has no value"
  | .badValue key => s!"Value of attribute '{key}' must be an atom, string or variable"
  | .longPair key => s!"Attribute '{key}' must have exactly one value"

/-- A fault and the place that it is reported at. -/
structure ParseError where
  /-- What is wrong. -/
  cause : ParseError.Cause
  /-- Where. -/
  location : Location
deriving DecidableEq, Repr

/-- The message for a fault. -/
def ParseError.message (e : ParseError) : String :=
  e.cause.text ++ e.location.note

/-- What stops the reading of a sequence of tokens. -/
inductive ParseFailure where
  /-- A fault of the tokens. -/
  | fault (e : ParseError)
  /-- The pairs of a block do not make attributes: a key stands in them twice. -/
  | refusedBlock (key : String)
deriving DecidableEq, Repr

/-- The message for what stops the reading. -/
def ParseFailure.message : ParseFailure → String
  | .fault e => e.message
  | .refusedBlock key => s!"Duplicate attribute '{key}'"

/-- What can be wrong with the text of a template. -/
inductive SourceError where
  /-- The text cannot be cut into tokens. -/
  | scan (e : UnclosedQuote)
  /-- The tokens are not those of a form. -/
  | parse (e : ParseFailure)
deriving DecidableEq, Repr

/-- The message for a fault in the text of a template. -/
def SourceError.message : SourceError → String
  | .scan e => e.message
  | .parse e => e.message

/-- The place of a fault in the text of a template, if it has one. -/
def SourceError.location? : SourceError → Option Location
  | .scan e => some e.opened
  | .parse (.fault e) => some e.location
  | .parse (.refusedBlock _) => none

end MarkupForms
