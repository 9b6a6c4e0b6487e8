import MarkupForms.Data

/-!
# Plain data in diagnostics

Data is shown in the notation in which it would be written down: texts between quotes, lists between
brackets, maps between braces.  A list of fixed length with one item has a comma after it.  Data
with an integer that has too many digits cannot be shown.
-/

namespace MarkupForms

namespace Data

mutual

/-- Data as diagnostics show it, unless there is an integer in it with too many digits. -/
def display? : Data → Option String
  | .text s => some (Text.display s)
  | .int n => Text.writeInteger? n
  | .float x => some x.toText
  | .truth b => some (if b then "True" else "False")
  | .null => some "None"
  | .list items => (displayAll? items).map Text.displayList
  | .tuple items => (displayAll? items).map Text.displayTuple
  | .map entries => do return "\x7b" ++ ", ".intercalate (← displayEntries? entries) ++ "\x7d"
  | .ready v => some v.display
  | .context c => some c.display
  | .timestamp t => some t.display
  | .bytes s => some (Text.displayBytes s)
  | .object => some "<object>"

/-- Items as diagnostics show them. -/
def displayAll? : List Data → Option (List String)
  | [] => some []
  | d :: ds => do return (← d.display?) :: (← displayAll? ds)

/-- Entries of a map as diagnostics show them. -/
def displayEntries? : List (Key × Data) → Option (List String)
  | [] => some []
  | (k, d) :: es => do
      let shown := (← k.display?) ++ ": " ++ (← d.display?)
      return shown :: (← displayEntries? es)

end

end Data

end MarkupForms
