import MarkupForms.Text.DecimalDigit
import MarkupForms.Text.Display

/-!
# Numerals in ASCII

A numeral may be written with the digits of any script, and an underscore may stand between two
digits to group them.  Its plain form has ASCII digits and no underscores; whatever else is in it
stays as it is.
-/

namespace MarkupForms.Text

/-- The plain form of a numeral, of which a digit has just been read or not.  An underscore that is
not between two digits has none. -/
def plainNumeral? (afterDigit : Bool) : List Char → Option (List Char)
  | [] => some []
  | c :: r =>
      match decimalDigit? c with
      | some d => (plainNumeral? true r).map (Nat.digitChar d :: ·)
      | none =>
          if c = '_' then
            if afterDigit && r.head?.any isDecimalDigit then plainNumeral? false r else none
          else (plainNumeral? false r).map (c :: ·)

/-- The message for a text that denotes no number. -/
def noNumberMessage (s : String) : String :=
  "could not convert string to float: " ++ display s

end MarkupForms.Text
