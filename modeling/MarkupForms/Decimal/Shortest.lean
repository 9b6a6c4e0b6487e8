import MarkupForms.Decimal.Binary64

/-!
# The shortest decimal that reads back

The numbers that round to a floating-point number form an interval around it, which includes its
ends when the mantissa is even.  The shortest decimal is looked for on the grids of 1, 2, … 17
significant digits: on each grid only the two neighbours of the number can lie in the interval, and
of two that do the nearer is taken.

* `scaleOf` : the power of ten above the number.
* `shortest` : the digits and the power of ten of the decimal.
-/

namespace MarkupForms.Binary64

/-- Digits times a power of ten. -/
structure Decimal where
  /-- The digits. -/
  digits : Nat
  /-- The power of ten. -/
  exponent : Int
deriving DecidableEq, Repr

/-- Whether `a * 10^i < b * 2^j`, decided in natural numbers. -/
def scaledLt (a : Nat) (i : Int) (b : Nat) (j : Int) : Bool :=
  a * Nat.pow 10 i.toNat * Nat.pow 2 (-j).toNat < b * Nat.pow 2 j.toNat * Nat.pow 10 (-i).toNat

/-- Whether `b * 2^j < a * 10^i`, decided in natural numbers. -/
def scaledGt (a : Nat) (i : Int) (b : Nat) (j : Int) : Bool :=
  b * Nat.pow 2 j.toNat * Nat.pow 10 (-i).toNat < a * Nat.pow 10 i.toNat * Nat.pow 2 (-j).toNat

/-- Whether a decimal rounds to `m * 2^q`.  The ends of the interval are halfway to the neighbours;
below a power of two the neighbour is only half as far away. -/
def readsBack (m : Nat) (q : Int) (d : Decimal) : Bool :=
  let low := if m = Nat.pow 2 52 ∧ minExponent < q then 4 * m - 1 else 4 * m - 2
  let high := 4 * m + 2
  if m % 2 = 0 then
    !scaledLt d.digits d.exponent low (q - 2) && !scaledGt d.digits d.exponent high (q - 2)
  else
    scaledGt d.digits d.exponent low (q - 2) && scaledLt d.digits d.exponent high (q - 2)

/-- The least `k` from a guess on, within a bound, with `m * 2^q < 10^k`. -/
def scaleFrom (m : Nat) (q : Int) : Nat → Int → Int
  | 0, k => k
  | bound + 1, k => if scaledGt 1 k m q then k else scaleFrom m q bound (k + 1)

/-- The least `k` with `m * 2^q < 10^k`.  The binary logarithm gives a guess that is too small by at
most three. -/
def scaleOf (m : Nat) (q : Int) : Int :=
  scaleFrom m q 5 (((Nat.log2 m : Int) + q) * 30103 / 100000 - 1)

/-- The greatest point of the grid `10^g` that is not above `m * 2^q`, in units of the grid. -/
def gridFloor (m : Nat) (q g : Int) : Nat :=
  (m * Nat.pow 2 q.toNat * Nat.pow 10 (-g).toNat) / (Nat.pow 10 g.toNat * Nat.pow 2 (-q).toNat)

/-- Whether `m * 2^q` lies nearer to the point `n + 1` of the grid than to `n`; halfway counts when
`n` is odd. -/
def nearerAbove (m : Nat) (q g : Int) (n : Nat) : Bool :=
  scaledLt (2 * n + 1) g (2 * m) q || (!scaledGt (2 * n + 1) g (2 * m) q && n % 2 == 1)

/-- The decimal on a grid that reads back, the nearer one if there are two. -/
def onGrid? (m : Nat) (q g : Int) : Option Decimal :=
  let n := gridFloor m q g
  let below : Decimal := ⟨n, g⟩
  let above : Decimal := ⟨n + 1, g⟩
  match readsBack m q below, readsBack m q above with
  | true, true => some (if nearerAbove m q g n then above else below)
  | true, false => some below
  | false, true => some above
  | false, false => none

/-- Drop the zeros at the end of the digits, within a bound. -/
def dropZeros : Nat → Decimal → Decimal
  | 0, d => d
  | bound + 1, d =>
      if d.digits ≠ 0 ∧ d.digits % 10 = 0 then dropZeros bound ⟨d.digits / 10, d.exponent + 1⟩
      else d

/-- The decimal with the fewest digits that reads back as `m * 2^q`, where `m` is positive. -/
def shortest (m : Nat) (q : Int) : Decimal :=
  let k := scaleOf m q
  match (List.range 17).findSome? fun (n : Nat) => onGrid? m q (k - n - 1) with
  | some d => dropZeros 20 d
  | none => ⟨gridFloor m q (k - 17), k - 17⟩

end MarkupForms.Binary64
