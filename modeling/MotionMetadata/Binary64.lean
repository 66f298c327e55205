/-!
# Double-precision numbers as bit patterns

A measured value travels as the 64 bits of an IEEE 754 double, and the codec has to hand
those bits back unchanged: the sign of a NaN is information here. So a number is its bit
pattern. The comparisons are read off the pattern, with the two zeros equal and a NaN
comparable to nothing, and so are the conversions from and to the 4-byte form. A number is
written as a literal and means the nearest double. Arithmetic goes through `toFloat` and
`ofFloat`.
-/

-- A power of numbers means the same in modules that import an algebra library and in those
-- that do not.
attribute [instance (high + 1), default_instance (high + 1)] instPowNat

namespace MotionMetadata

/-- A double-precision number, kept as its bits. -/
structure Binary64 where
  bits : UInt64
deriving DecidableEq, Inhabited

namespace Binary64

def toFloat (x : Binary64) : Float := Float.ofBits x.bits

def ofFloat (x : Float) : Binary64 := ⟨x.toBits⟩

def zero : Binary64 := ⟨0⟩

def infinity : Binary64 := ⟨0x7FF0000000000000⟩

def negInfinity : Binary64 := ⟨0xFFF0000000000000⟩

/-- The positive quiet NaN. -/
def nan : Binary64 := ⟨0x7FF8000000000000⟩

def negNan : Binary64 := ⟨0xFFF8000000000000⟩

/-! ## The fields of the pattern -/

def isNegative (x : Binary64) : Bool := 2 ^ 63 ≤ x.bits.toNat

/-- The pattern without its sign. -/
def magnitude (x : Binary64) : Nat := x.bits.toNat % 2 ^ 63

def exponentField (x : Binary64) : Nat := x.magnitude / 2 ^ 52

def fraction (x : Binary64) : Nat := x.magnitude % 2 ^ 52

/-- The pattern with sign `negative` and the given magnitude. -/
def ofMagnitude (negative : Bool) (magnitude : Nat) : Binary64 :=
  ⟨UInt64.ofNat ((if negative then 2 ^ 63 else 0) + magnitude)⟩

/-- The magnitude of the infinities. What lies above it is NaN. -/
def infinityMagnitude : Nat := 0x7FF * 2 ^ 52

def isNaN (x : Binary64) : Bool := infinityMagnitude < x.magnitude

def isInfinite (x : Binary64) : Bool := x.magnitude == infinityMagnitude

def isFinite (x : Binary64) : Bool := x.magnitude < infinityMagnitude

def neg (x : Binary64) : Binary64 := ofMagnitude (!x.isNegative) x.magnitude

/-! ## Order

Among numbers, magnitudes ascend with the absolute value, so the signed magnitude orders
them and takes both zeros to 0. -/

def signedMagnitude (x : Binary64) : Int :=
  if x.isNegative then -(x.magnitude : Int) else x.magnitude

def lt (x y : Binary64) : Bool :=
  !x.isNaN && !y.isNaN && x.signedMagnitude < y.signedMagnitude

def le (x y : Binary64) : Bool :=
  !x.isNaN && !y.isNaN && x.signedMagnitude ≤ y.signedMagnitude

/-- Equality of the numbers: the zeros are equal, a NaN equals nothing. -/
def equals (x y : Binary64) : Bool :=
  !x.isNaN && !y.isNaN && x.signedMagnitude == y.signedMagnitude

/-- The total order of all patterns: by sign, and by magnitude within a sign. It puts the
negative zero below the positive one, and each NaN at the end its sign points to. -/
def totalKey (x : Binary64) : Int :=
  if x.isNegative then -(x.magnitude : Int) - 1 else x.magnitude

/-! ## The 4-byte form

A single has 8 exponent bits with bias 127 and 23 fraction bits. -/

/-- `n / d` rounded to the nearest integer, a tie to the even one. -/
def roundDiv (n d : Nat) : Nat :=
  let quotient := n / d
  let rest := 2 * (n % d)
  if d < rest || (rest == d && quotient % 2 == 1) then quotient + 1 else quotient

/-- The single nearest to `x`, as its 32 bits, a tie to the even pattern. What rounds past
the largest single becomes infinite, and a NaN keeps its sign and the top of its payload.

An exponent field `e` of a double is `e - 896` in a single. From 1 on, the 29 low fraction
bits are rounded away and a carry runs into the exponent, which is what rounding up to a
power of two needs. Below that the single is subnormal: its last place is `2 ^ -149`, so the
significand loses `926 - e` bits, and no more than 64 matter, as it has 53. -/
def toSingleBits (x : Binary64) : UInt32 :=
  let sign := if x.isNegative then 2 ^ 31 else 0
  let e := x.exponentField
  let f := x.fraction
  let magnitude :=
    if x.isNaN then 0x7FC00000 ||| (f / 2 ^ 29)
    else if 897 ≤ e then min (roundDiv ((e - 896) * 2 ^ 52 + f) (2 ^ 29)) 0x7F800000
    else if e = 0 then 0
    else roundDiv (2 ^ 52 + f) (2 ^ min (926 - e) 64)
  UInt32.ofNat (sign + magnitude)

/-- The double that equals the single with bits `b`. A subnormal single is normal as a
double: its leading bit `k` moves to the implicit place, and the exponent is that of
`2 ^ (k - 149)`. -/
def ofSingleBits (b : UInt32) : Binary64 :=
  let negative := decide (2 ^ 31 ≤ b.toNat)
  let e := b.toNat % 2 ^ 31 / 2 ^ 23
  let f := b.toNat % 2 ^ 23
  let magnitude :=
    if e = 255 then
      if f = 0 then infinityMagnitude else infinityMagnitude + ((2 ^ 22 ||| f) * 2 ^ 29)
    else if e = 0 then
      if f = 0 then 0 else
        let k := Nat.log2 f
        (k + 874) * 2 ^ 52 + (f - 2 ^ k) * 2 ^ (52 - k)
    else (e + 896) * 2 ^ 52 + f * 2 ^ 29
  ofMagnitude negative magnitude

def isInfiniteSingle (b : UInt32) : Bool := b.toNat % 2 ^ 31 == 0x7F800000

/-! ## Literals -/

/-- `num / den` in units of `2 ^ unit`, as another quotient. -/
def inUnits (num den : Nat) (unit : Int) : Nat × Nat :=
  (num * 2 ^ (-unit).toNat, den * 2 ^ unit.toNat)

/-- The double nearest to `num / den`, a tie to the even pattern. The leading bit of the
quotient is at the difference of the leading bits or one below, and the last place is 52
below it, but not below `2 ^ -1074`. -/
def ofRatio (num den : Nat) : Binary64 :=
  if num = 0 then zero else
  let high : Int := Nat.log2 num - Nat.log2 den
  let (n, d) := inUnits num den high
  let unit := max ((if n < d then high - 1 else high) - 52) (-1074)
  let (n, d) := inUnits num den unit
  ofMagnitude false (min ((unit + 1074).toNat * 2 ^ 52 + roundDiv n d) infinityMagnitude)

instance : Neg Binary64 := ⟨neg⟩

instance (n : Nat) : OfNat Binary64 n := ⟨ofRatio n 1⟩

instance : OfScientific Binary64 where
  ofScientific mantissa negative exponent :=
    if negative then ofRatio mantissa (10 ^ exponent) else ofRatio (mantissa * 10 ^ exponent) 1

end Binary64

end MotionMetadata
