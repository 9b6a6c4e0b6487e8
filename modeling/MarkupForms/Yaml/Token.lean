import MarkupForms.Yaml.Plain
import MarkupForms.Yaml.Quoted

/-!
# Tokens of documents

The layout of a document is a sequence of tokens: scalars, the marks that are written between them,
and the starts and ends of lists and maps that the indentation shows.
-/

namespace MarkupForms.Yaml

/-- A token of a document. -/
inductive Token where
  /-- The marker that opens a document. -/
  | documentStart
  /-- The marker that ends a document. -/
  | documentEnd
  /-- A list starts with more indentation. -/
  | listStart
  /-- A map starts with more indentation. -/
  | mapStart
  /-- The indentation of a list or a map is over. -/
  | blockEnd
  /-- A dash before an item of a list. -/
  | item
  /-- An opening square bracket. -/
  | openList
  /-- A closing square bracket. -/
  | closeList
  /-- An opening brace. -/
  | openMap
  /-- A closing brace. -/
  | closeMap
  /-- A comma between brackets. -/
  | comma
  /-- A key follows. -/
  | key
  /-- The colon after a key. -/
  | value
  /-- A scalar, plain or between quotes. -/
  | scalar (text : String) (isPlain : Bool)
deriving DecidableEq, Repr

/-- The brackets that lists and maps stand between. -/
inductive Bracket where
  /-- Square brackets. -/
  | list
  /-- Braces. -/
  | map
deriving DecidableEq, Repr

end MarkupForms.Yaml
