import MarkupForms.Decimal.Shortest

/-!
# Writing floating-point numbers

A number is written with the shortest digits that read back.  Leading digits from 10^-4 up to 10^15
are written positionally, with at least one digit after the point; all others with a power of ten
that has a sign and at least two digits.
-/

namespace MarkupForms.Binary64

/-- A power of ten with its sign and at least two digits. -/
def exponentText (e : Int) : String :=
  let digits := toString e.natAbs
  (if e < 0 then "e-" else "e+") ++ (if e.natAbs < 10 then "0" ++ digits else digits)

/-- A number in positional notation, from its digits and the power of ten of the first one. -/
def positional (digits : List Char) (lead : Int) : List Char :=
  if lead < 0 then
    "0.".toList ++ List.replicate (-lead - 1).toNat '0' ++ digits
  else
    let whole := lead.toNat + 1
    if digits.length ≤ whole then
      digits ++ List.replicate (whole - digits.length) '0' ++ ".0".toList
    else digits.take whole ++ '.' :: digits.drop whole

/-- A number with a power of ten, from its digits and the power of ten of the first one. -/
def scientific (digits : List Char) (lead : Int) : List Char :=
  let mantissa := match digits with
    | c :: d :: rest => c :: '.' :: d :: rest
    | short => short
  mantissa ++ (exponentText lead).toList

/-- The text of `m * 2^q`. -/
def magnitudeText (m : Nat) (q : Int) : List Char :=
  if m = 0 then "0.0".toList
  else
    let d := shortest m q
    let digits := Nat.toDigits 10 d.digits
    let lead := d.exponent + digits.length - 1
    if -4 ≤ lead ∧ lead < 16 then positional digits lead else scientific digits lead

/-- The text of a number. -/
def toText : Binary64 → String
  | .nan => "nan"
  | .infinity negative => if negative then "-inf" else "inf"
  | .finite negative m q =>
      (if negative then "-" else "") ++ String.ofList (magnitudeText m q)

end MarkupForms.Binary64
