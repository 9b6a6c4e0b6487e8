/-!
# Binary floating-point numbers

A number is a sign, a mantissa below 2^53 and a power of two, or one of the values that are not
finite.  A decimal is rounded to the nearest number, and to the one with the even mantissa when it
lies halfway.

* `nearestQuotient` : a quotient of naturals, rounded.
* `read?` : the number that is nearest to what a text denotes.
-/

namespace MarkupForms

/-- A binary floating-point number of 64 bits. -/
inductive Binary64 where
  /-- No number. -/
  | nan
  /-- Beyond all numbers. -/
  | infinity (negative : Bool)
  /-- A mantissa times a power of two. -/
  | finite (negative : Bool) (mantissa : Nat) (exponent : Int)
deriving DecidableEq, Repr, Inhabited

namespace Binary64

/-- The least power of two. -/
def minExponent : Int := -1074

/-- The greatest power of two. -/
def maxExponent : Int := 971

/-- A quotient rounded to the nearest number, halves to the even one. -/
def nearestQuotient (num den : Nat) : Nat :=
  let d := num / den
  let r := num % den
  if 2 * r < den then d
  else if den < 2 * r then d + 1
  else d + d % 2

/-- A quotient in units of a power of two, rounded. -/
def scaled (num den : Nat) (exponent : Int) : Nat :=
  nearestQuotient (num * Nat.pow 2 (-exponent).toNat) (den * Nat.pow 2 exponent.toNat)

/-- The power of two that leaves 53 binary digits of a quotient before the point, or the least. -/
def unitExponent (num den : Nat) : Int :=
  let guess : Int := (Nat.log2 num : Int) - Nat.log2 den - 52
  let low := num * Nat.pow 2 (-guess).toNat < Nat.pow 2 52 * (den * Nat.pow 2 guess.toNat)
  max (if low then guess - 1 else guess) minExponent

/-- The number that is nearest to a quotient of naturals. -/
def ofQuotient (negative : Bool) (num den : Nat) : Binary64 :=
  if num = 0 then finite negative 0 minExponent
  else
    let e := unitExponent num den
    let m := scaled num den e
    let (m, e) := if m = Nat.pow 2 53 then (Nat.pow 2 52, e + 1) else (m, e)
    if maxExponent < e then infinity negative else finite negative m e

/-- The number that is nearest to a decimal with the given digits and power of ten.  Decimals far
outside the range need no computation. -/
def ofDecimal (negative : Bool) (digits : Nat) (exponent : Int) : Binary64 :=
  if digits = 0 then finite negative 0 minExponent
  else
    let size : Int := (Nat.toDigits 10 digits).length + exponent
    if 310 < size then infinity negative
    else if size < -330 then finite negative 0 minExponent
    else ofQuotient negative (digits * Nat.pow 10 exponent.toNat) (Nat.pow 10 (-exponent).toNat)

/-- The value of ASCII digits. -/
def digitsValue (s : List Char) : Nat :=
  s.foldl (fun n c => 10 * n + (c.toNat - 0x30)) 0

/-- A power of ten with an optional sign. -/
def readExponent? : List Char → Option Int
  | '+' :: s => if s ≠ [] ∧ s.all Char.isDigit then some (digitsValue s) else none
  | '-' :: s => if s ≠ [] ∧ s.all Char.isDigit then some (-(digitsValue s : Int)) else none
  | s => if s ≠ [] ∧ s.all Char.isDigit then some (digitsValue s) else none

/-- A decimal without a sign: digits, an optional fraction and an optional power of ten. -/
def readMagnitude? (negative : Bool) (s : List Char) : Option Binary64 :=
  let whole := s.takeWhile Char.isDigit
  let afterWhole := s.dropWhile Char.isDigit
  let (fraction, rest) := match afterWhole with
    | '.' :: r => (r.takeWhile Char.isDigit, r.dropWhile Char.isDigit)
    | r => ([], r)
  if whole = [] ∧ fraction = [] then none
  else
    let value := fun (exponent : Int) =>
      ofDecimal negative (digitsValue (whole ++ fraction)) (exponent - fraction.length)
    match rest with
    | [] => some (value 0)
    | c :: r => if c = 'e' ∨ c = 'E' then (readExponent? r).map value else none

/-- What a text without a sign denotes.  Infinity and not a number are written as names, in letters
of either case. -/
def readUnsigned? (negative : Bool) (s : List Char) : Option Binary64 :=
  let name := String.ofList (s.map Char.toLower)
  if name = "inf" ∨ name = "infinity" then some (infinity negative)
  else if name = "nan" then some nan
  else readMagnitude? negative s

/-- The number that is nearest to what a text denotes. -/
def read? : List Char → Option Binary64
  | '+' :: s => readUnsigned? false s
  | '-' :: s => readUnsigned? true s
  | s => readUnsigned? false s

end Binary64

end MarkupForms
