import MarkupForms.Data
import MarkupForms.Yaml.Fault
import MarkupForms.Yaml.Timestamp

/-!
# What plain scalars stand for

A plain scalar is nothing, a truth value, a number or a timestamp when it is spelled like one, and a
text otherwise.  Underscores among the digits of a number do not count.
-/

namespace MarkupForms.Yaml

/-! ## Integers -/

/-- Whether a number is negative, and the number without its sign. -/
def cutSign : List Char → Bool × List Char
  | '-' :: r => (true, r)
  | '+' :: r => (false, r)
  | s => (false, s)

/-- The value of a digit in some base up to sixteen. -/
def digitValue (c : Char) : Nat :=
  if c.isDigit then c.toNat - 0x30 else c.toLower.toNat - 0x57

/-- The base that an integer without its sign is written in, and what follows the mark for it. -/
def cutBase : List Char → Nat × List Char
  | '0' :: 'b' :: r => (2, r)
  | '0' :: 'o' :: r => (8, r)
  | '0' :: 'x' :: r => (16, r)
  | r => (10, r)

/-- Whether a character is a digit in a base up to sixteen. -/
def isDigitIn (base : Nat) (c : Char) : Bool :=
  (c.isDigit || ('a' ≤ c.toLower && c.toLower ≤ 'f')) && digitValue c < base

/-- The base and the digits of what is spelled like an integer; without a sign it has to start with
a digit. -/
def integerDigits? (s : List Char) : Option (Nat × List Char) :=
  let (base, r) := cutBase (cutSign s).2
  let digits := r.filter (· != '_')
  if s.head? == some '_' || r.isEmpty || !digits.all (isDigitIn base) then none
  else some (base, digits)

/-- The integer with the given digits, of which there has to be one.  Only the number of decimal
digits has a limit. -/
def integer (negative : Bool) (base : Nat) (digits : List Char) : Except Fault Data :=
  let n := digits.foldl (fun n c => base * n + digitValue c) 0
  if digits.isEmpty then .error (.noInteger base)
  else if base = 10 ∧ Text.digitLimit < digits.length then .error (.tooManyDigits digits.length)
  else .ok (.int (if negative then -n else n))

/-! ## Decimals -/

/-- Whether a character may stand among the digits of a number. -/
def isDigitMark (c : Char) : Bool :=
  c.isDigit || c == '_'

/-- Whether a text is a power of ten; the sign of the exponent may have to be there. -/
def isPower (needsSign : Bool) : List Char → Bool
  | [] => false
  | e :: r =>
      let signed := r.head? == some '-' || r.head? == some '+'
      let digits := (cutSign r).2
      (e == 'e' || e == 'E') && (signed || !needsSign) && !digits.isEmpty && digits.all Char.isDigit

/-- Whether a text is spelled like a decimal with a point or a power of ten.  When there is no digit
before the point, the exponent has to have a sign. -/
def isDecimal (s : List Char) : Bool :=
  match (cutSign s).2 with
  | [] => false
  | '.' :: r =>
      let tail := r.dropWhile isDigitMark
      !(r.takeWhile isDigitMark).isEmpty && (tail.isEmpty || isPower true tail)
  | c :: r =>
      c.isDigit && match r.dropWhile isDigitMark with
        | '.' :: r =>
            let tail := r.dropWhile isDigitMark
            tail.isEmpty || isPower false tail
        | tail => isPower false tail

/-- The floating-point number that a decimal denotes, which has to have a digit. -/
def decimal (s : List Char) : Except Fault Binary64 :=
  let plain := s.filter (· != '_')
  match Binary64.read? plain with
  | some x => .ok x
  | none => .error (.noNumber (String.ofList ((cutSign plain).2.map Char.toLower)))

/-- What is spelled like a floating-point number: a decimal, or a value beyond all of them. -/
def decimal? (s : List Char) : Option (Except Fault Binary64) :=
  let (negative, r) := cutSign s
  if [".nan", ".NaN", ".NAN"].contains (String.ofList s) then some (.ok .nan)
  else if [".inf", ".Inf", ".INF"].contains (String.ofList r) then some (.ok (.infinity negative))
  else if isDecimal s then some (decimal s)
  else none

/-! ## Scalars -/

/-- The spellings of nothing. -/
def nullSpellings : List String := ["", "~", "null", "Null", "NULL"]

/-- The spellings of truth. -/
def trueSpellings : List String := ["true", "True", "TRUE"]

/-- The spellings of falsehood. -/
def falseSpellings : List String := ["false", "False", "FALSE"]

/-- The spellings that are kept for another use. -/
def reservedSpellings : List String := ["=", "<<"]

/-- What a plain scalar stands for. -/
def scalarData (s : List Char) : Except Fault Data :=
  let text := String.ofList s
  if nullSpellings.contains text then .ok .null
  else if trueSpellings.contains text then .ok (.truth true)
  else if falseSpellings.contains text then .ok (.truth false)
  else if reservedSpellings.contains text then .error .noValue
  else
    match integerDigits? s with
    | some (base, digits) => integer (cutSign s).1 base digits
    | none =>
      match decimal? s, timestamp? s with
      | some x, _ => x.map .float
      | none, some t => (t.map .timestamp).mapError .noTimestamp
      | none, none => .ok (.text text)

end MarkupForms.Yaml
