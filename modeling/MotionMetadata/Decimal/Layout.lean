import MotionMetadata.Decimal.Shortest

/-!
# Laying a decimal out as text

In messages and printed values a decimal has all its places written out, with zeros filled
in on either side as its exponent asks, and a whole number has no point.
-/

namespace MotionMetadata.Decimal

def zeros (n : Nat) : List Char := List.replicate n '0'

/-- The digits before the point and those after it. -/
def places (d : Decimal) : List Char × List Char :=
  let digits := Nat.toDigits 10 d.digits
  let point : Int := digits.length + d.exponent
  if 0 ≤ d.exponent then (digits ++ zeros d.exponent.toNat, [])
  else if 0 < point then (digits.take point.toNat, digits.drop point.toNat)
  else (['0'], zeros (-point).toNat ++ digits)

def positional (d : Decimal) : String :=
  match d.places with
  | (whole, []) => String.ofList whole
  | (whole, fraction) => String.ofList whole ++ "." ++ String.ofList fraction

end MotionMetadata.Decimal

namespace MotionMetadata.Binary64

/-- The text of a double in messages and printed values. Where two shortest decimals are
equally near, it is the upper one. -/
def display (x : Binary64) : String :=
  if x.isNaN then "NaN"
  else
    let sign := if x.isNegative then "-" else ""
    if x.isInfinite then sign ++ "inf"
    else sign ++ (Decimal.shortest .up x).positional

end MotionMetadata.Binary64
