import MarkupForms.Text.Blank
import MarkupForms.Text.DecimalDigit
import MarkupForms.Text.Display

/-!
# Reading and writing integers

An integer is read from an optional sign and decimal digits of any script, with single underscores
between digits; blanks around it do not count.  A text with more digits than a limit is not read,
and an integer with more digits is not written.

* `readInteger_eq_none` : a text with too many digits denotes no integer.
* `writeInteger?_eq_none_iff` : which integers have no text.
-/

namespace MarkupForms.Text

/-- The rest of a number after a digit, where `n` is the value so far. -/
def readDigits (n : Nat) : List Char → Option Nat
  | [] => some n
  | '_' :: c :: r => (decimalDigit? c).bind fun d => readDigits (10 * n + d) r
  | c :: r => (decimalDigit? c).bind fun d => readDigits (10 * n + d) r

/-- A number without a sign. -/
def readNatural : List Char → Option Nat
  | [] => none
  | c :: r => (decimalDigit? c).bind fun d => readDigits d r

/-- A number with an optional sign. -/
def readSigned : List Char → Option Int
  | '+' :: r => (readNatural r).map Int.ofNat
  | '-' :: r => (readNatural r).map fun n => -Int.ofNat n
  | r => (readNatural r).map Int.ofNat

/-! ## The limit -/

/-- How many digits a number may have that is read or written. -/
def digitLimit : Nat := 4300

/-- The least number with more digits than a limit. -/
def leastLonger (limit : Nat) : Nat := Nat.pow 10 limit

/-- The least number with too many digits. -/
def digitBound : Nat := leastLonger digitLimit

/-- How many digits a text has, leading zeros included. -/
def digitCount (s : String) : Nat :=
  (s.toList.filter isDecimalDigit).length

/-- The message for a number with too many digits. -/
def digitLimitMessage (count : Nat) : String :=
  s!"Exceeds the limit ({digitLimit} digits) for integer string conversion: " ++
    s!"value has {count} digits; use sys.set_int_max_str_digits() to increase the limit"

/-- The message for a text that denotes no integer in some base.  Only the beginning of the text is
shown. -/
def noIntegerMessage (base : Nat) (s : String) : String :=
  s!"invalid literal for int() with base {base}: " ++ String.ofList ((display s).toList.take 200)

/-- The message for an integer with too many digits. -/
def longIntegerMessage : String :=
  s!"Exceeds the limit ({digitLimit} digits) for integer string conversion; " ++
    "use sys.set_int_max_str_digits() to increase the limit"

/-- The integer that a text denotes, blanks around it ignored. -/
def readInteger (s : String) : Option Int :=
  if digitCount s ≤ digitLimit then readSigned (stripBlanks s.toList) else none

/-- A text with too many digits denotes no integer. -/
theorem readInteger_eq_none {s : String} (h : digitLimit < digitCount s) :
    readInteger s = none := by
  simp [readInteger, Nat.not_le.2 h]

/-- The text of an integer, unless it has too many digits; a sign is none. -/
def writeInteger? (n : Int) : Option String :=
  if (Nat.toDigits 10 n.natAbs).length ≤ digitLimit then some (toString n) else none

theorem length_digits_le_iff (n : Nat) {limit : Nat} (h : 0 < limit) :
    (Nat.toDigits 10 n).length ≤ limit ↔ n < leastLonger limit :=
  Nat.length_toDigits_le_iff (by decide) h

theorem length_digits_le_digitLimit_iff (n : Nat) :
    (Nat.toDigits 10 n).length ≤ digitLimit ↔ n < digitBound :=
  length_digits_le_iff n (by decide)

/-- An integer with too many digits has no text. -/
theorem writeInteger?_eq_none_iff {n : Int} :
    writeInteger? n = none ↔ digitBound ≤ n.natAbs := by
  rw [← Nat.not_lt, ← length_digits_le_digitLimit_iff, writeInteger?]
  split <;> simp [*]

/-- Any other integer is written with its digits. -/
theorem writeInteger?_eq_some_iff {n : Int} {s : String} :
    writeInteger? n = some s ↔ n.natAbs < digitBound ∧ s = toString n := by
  rw [← length_digits_le_digitLimit_iff, writeInteger?]
  split <;> simp [*, eq_comm]

end MarkupForms.Text
