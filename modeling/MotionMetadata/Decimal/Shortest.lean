import MotionMetadata.Binary64

/-!
# The shortest decimal of a double

Every double stands for an interval of reals, those nearer to it than to its neighbours.
The text of a double is a decimal from that interval with as few digits as any in it has,
and of those the one nearest to the double. Nothing here is approximate: the interval is
kept over one common denominator and the candidates are compared by cross-multiplication.
-/

namespace MotionMetadata

/-- The decimal `digits * 10 ^ exponent`. -/
structure Decimal where
  digits : Nat
  exponent : Int
deriving DecidableEq

namespace Decimal

/-- The number of decimal digits of `n`, none for zero. -/
def digitCount (n : Nat) : Nat := if n = 0 then 0 else (Nat.toDigits 10 n).length

/-- The same decimal with no zero at the end of its digits, looking at `fuel` digits. -/
def stripZeros : Nat → Decimal → Decimal
  | 0, d => d
  | fuel + 1, d =>
    if d.digits ≠ 0 ∧ d.digits % 10 = 0 then stripZeros fuel ⟨d.digits / 10, d.exponent + 1⟩
    else d

/-- The reals that read as one double: from `low` to `high` around `value`, all three over
`denominator`. The ends belong to it when `closed`. -/
structure Interval where
  value : Nat
  low : Nat
  high : Nat
  denominator : Nat
  closed : Bool

/-- The interval of a finite positive double. Its ends are halfway to the neighbours, and
the neighbour below a power of two is only half as far away. In quarters of the last place
that is two below, or one, and two above. The ends round to the double when its last bit
is even. -/
def Interval.ofBinary64 (x : Binary64) : Interval :=
  let e := x.exponentField
  let f := x.fraction
  let m := if e = 0 then f else 2 ^ 52 + f
  let q : Int := if e = 0 then -1076 else e - 1077
  let up := 2 ^ q.toNat
  let below := if f = 0 ∧ 1 < e then 1 else 2
  { value := 4 * m * up
    low := (4 * m - below) * up
    high := (4 * m + 2) * up
    denominator := 2 ^ (-q).toNat
    closed := m % 2 == 0 }

/-- Whether `d` lies in the interval. -/
def Interval.contains (i : Interval) (d : Decimal) : Bool :=
  let scaled := d.digits * 10 ^ d.exponent.toNat * i.denominator
  let unit := 10 ^ (-d.exponent).toNat
  if i.closed then i.low * unit ≤ scaled && scaled ≤ i.high * unit
  else i.low * unit < scaled && scaled < i.high * unit

/-- The least `k` with the value below `10 ^ k`. -/
def Interval.scale (i : Interval) : Int :=
  let whole := i.value / i.denominator
  if whole ≠ 0 then digitCount whole
  else 1 - (digitCount ((i.denominator + i.value - 1) / i.value - 1) : Int)

/-- Which of two equally near decimals is taken. -/
inductive Tie where
  | up
  | toEven
deriving DecidableEq

/-- The decimal of the grid `10 ^ exponent` that reads back as the double and is nearest to
it, if one of the two grid points around it reads back at all. -/
def Interval.nearestOnGrid (i : Interval) (tie : Tie) (exponent : Int) : Option Decimal :=
  let numerator := i.value * 10 ^ (-exponent).toNat
  let step := i.denominator * 10 ^ exponent.toNat
  let floor := numerator / step
  let below : Decimal := ⟨floor, exponent⟩
  let above : Decimal := ⟨floor + 1, exponent⟩
  match i.contains below, i.contains above with
  | false, false => none
  | true, false => some below
  | false, true => some above
  | true, true =>
    match compare (2 * (numerator % step)) step, tie with
    | .lt, _ => some below
    | .gt, _ => some above
    | .eq, .up => some above
    | .eq, .toEven => some (if floor % 2 = 0 then below else above)

/-- The exact value of a finite double. -/
def exactly (x : Binary64) : Decimal :=
  let i := Interval.ofBinary64 x
  ⟨i.value * 5 ^ Nat.log2 i.denominator, -(Nat.log2 i.denominator : Int)⟩

/-- The shortest decimal that reads back as the finite double `x`, its sign left aside.
Seventeen digits are enough for every double. -/
def shortest (tie : Tie) (x : Binary64) : Decimal :=
  if x.magnitude = 0 then ⟨0, 0⟩ else
    let i := Interval.ofBinary64 x
    let found := (List.range 17).findSome? fun (n : Nat) =>
      i.nearestOnGrid tie (i.scale - (n : Int) - 1)
    stripZeros 1100 (found.getD (exactly x))

end Decimal

end MotionMetadata
