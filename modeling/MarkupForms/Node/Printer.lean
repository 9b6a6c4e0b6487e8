import MarkupForms.Node
import MarkupForms.Text.Blank
import MarkupForms.Text.Quoted

/-!
# Writing a tree

A node is written as an S-expression on one line.  A text is written bare when it can be read back
as an atom, between quotes otherwise; a block of attributes starts with the mark `@`.  A tree with a
hole has no written form.

* `printLiteral_of_bare`, `printLiteral_of_not_bare` : the two spellings of a text.
-/

namespace MarkupForms

namespace Node

/-- Whether a character may stand in a bare text. -/
def isBareChar (c : Char) : Bool :=
  !(Text.isBlank c || c == '(' || c == ')' || c == '"' || c == '$' || c == '\\')

/-- Whether a text is written without quotes. -/
def isBare (s : List Char) : Bool :=
  s != [] && s != ['@'] && s.all isBareChar

/-- A text as it is written. -/
def printLiteral (s : List Char) : List Char :=
  if isBare s then s else Text.quoteChars s

theorem printLiteral_of_bare {s : List Char} (h : isBare s = true) : printLiteral s = s := by
  simp [printLiteral, h]

theorem printLiteral_of_not_bare {s : List Char} (h : isBare s = false) :
    printLiteral s = Text.quoteChars s := by
  simp [printLiteral, h]

mutual

/-- A node as it is written, unless there is a hole in it. -/
def print? : Node → Option (List Char)
  | .text s => some (printLiteral s.toList)
  | .var name => some ('$' :: name.toList)
  | .hole => none
  | .tag name none children => do
      let inner ← printChildren? children
      return '(' :: name.toList ++ inner ++ [')']
  | .tag name (some attributes) children => do
      let block ← printEntries? attributes
      let inner ← printChildren? children
      return '(' :: name.toList ++ " (@".toList ++ block ++ ')' :: inner ++ [')']

/-- Nodes as they are written, each after a space. -/
def printChildren? : List Node → Option (List Char)
  | [] => some []
  | n :: ns => do
      let first ← print? n
      let rest ← printChildren? ns
      return ' ' :: first ++ rest

/-- Attributes as they are written, each after a space. -/
def printEntries? : List (String × Node) → Option (List Char)
  | [] => some []
  | (key, n) :: rest => do
      let value ← print? n
      let more ← printEntries? rest
      return " (".toList ++ key.toList ++ ' ' :: value ++ ')' :: more

end

/-- A node as it is written. -/
def toText? (n : Node) : Option String :=
  n.print?.map String.ofList

/-- The value of an attribute as it was given: a text as it is, anything else as it is written. -/
def raw? : Node → Option String
  | .text s => some s
  | n => n.toText?

end Node

/-- A block of attributes as it is written. -/
def Attributes.toText? (attributes : Attributes) : Option String :=
  (Node.printEntries? attributes).map fun inner =>
    String.ofList ("(@".toList ++ inner ++ [')'])

/-- A text as it is written in a template. -/
def Text.literal (s : String) : String :=
  String.ofList (Node.printLiteral s.toList)

end MarkupForms
