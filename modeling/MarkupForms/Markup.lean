import MarkupForms.Text.Entity

/-!
# Tags of the output

An element is written as an opening tag with its attributes, its content and a closing tag; one
without a body as a single tag.  Attributes are written in order, each after a space, with its value
between double quotes.
-/

namespace MarkupForms.Markup

/-- Attributes as they are written. -/
def attributes (pairs : List (String × String)) : String :=
  String.join (pairs.map fun p => " " ++ p.1 ++ "=\"" ++ p.2 ++ "\"")

/-- The tag in front of the content. -/
def openTag (name : String) (pairs : List (String × String)) : String :=
  "<" ++ name ++ attributes pairs ++ ">"

/-- The tag after the content. -/
def closeTag (name : String) : String :=
  "</" ++ name ++ ">"

/-- The tag of an element without a body. -/
def voidTag (name : String) (pairs : List (String × String)) : String :=
  "<" ++ name ++ attributes pairs ++ " />"

end MarkupForms.Markup
