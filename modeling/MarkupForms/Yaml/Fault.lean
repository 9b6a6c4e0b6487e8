import MarkupForms.Text.Integer
import MarkupForms.Text.Numeral
import MarkupForms.Timestamp

/-!
# What can be wrong with a document

A document that cannot be read has a fault.  Most faults concern how the document is written; some
concern what it says and have a message of their own.
-/

namespace MarkupForms.Yaml

/-- What can be wrong with a document. -/
inductive Fault where
  /-- A character that no document may have. -/
  | unprintable (c : Char)
  /-- A quote without its partner. -/
  | unclosed
  /-- Something that cannot stand where it stands. -/
  | misplaced
  /-- A backslash before a character that it cannot protect. -/
  | badEscape
  /-- A map as a key. -/
  | mapAsKey
  /-- A key that stands twice in a map. -/
  | repeatedKey
  /-- A plain scalar that stands for nothing that could be had. -/
  | noValue
  /-- A list as a key with an item that is no key. -/
  | unhashable (typeName : String)
  /-- An integer with too many digits. -/
  | tooManyDigits (count : Nat)
  /-- An integer without digits. -/
  | noInteger (base : Nat)
  /-- A decimal without digits. -/
  | noNumber (s : String)
  /-- A timestamp with a part that cannot be. -/
  | noTimestamp (e : TimestampFault)
deriving DecidableEq, Repr

/-- The message of a fault that concerns what a document says. -/
def Fault.message? : Fault → Option String
  | .unhashable typeName => some s!"unhashable type: '{typeName}'"
  | .tooManyDigits count => some (Text.digitLimitMessage count)
  | .noInteger base => some (Text.noIntegerMessage base "")
  | .noNumber s => some (Text.noNumberMessage s)
  | .noTimestamp e => some e.message
  | _ => none

end MarkupForms.Yaml
