import MarkupForms.Text.Display
import MarkupForms.Value

/-!
# Values in diagnostics

A value is shown with the name of its kind and with its parts, of which lists are shown between
parentheses.
-/

namespace MarkupForms

namespace Value

mutual

/-- A value as diagnostics show it. -/
def display : Value → String
  | .scalar s => "Scalar(text=" ++ Text.display s ++ ")"
  | .list items => "ListValue(items=" ++ Text.displayTuple (displayAll items) ++ ")"
  | .map entries => "MapValue(entries=" ++ Text.displayTuple (displayEntries entries) ++ ")"

/-- Values as diagnostics show them. -/
def displayAll : List Value → List String
  | [] => []
  | v :: vs => v.display :: displayAll vs

/-- Entries of a map as diagnostics show them. -/
def displayEntries : List (String × Value) → List String
  | [] => []
  | (k, v) :: es => Text.displayTuple [Text.display k, v.display] :: displayEntries es

end

end Value

end MarkupForms
