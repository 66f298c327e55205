import MotionMetadata.Decimal.Layout

/-!
# Numbers in JSON

A number in JSON is a text, and what it counts as is a matter of its reader. Ours takes a
numeral without point and exponent as an integer if it has one in 64 bits, and every numeral
as a double unless it is too large for one. The double is worked out from as many leading
digits as 64 bits hold and one power of ten, so the last place can be off.
-/

namespace MotionMetadata

/-- The parts of a numeral. -/
structure Numeral where
  negative : Bool
  /-- The digits before the point. -/
  whole : List Char
  /-- The digits after the point. There is no point if there are none. -/
  fraction : List Char := []
  exponent : Option Int := none
deriving DecidableEq, Inhabited

namespace Numeral

/-! ## Writing -/

def ofNat (n : Nat) : Numeral := { negative := false, whole := Nat.toDigits 10 n }

def ofInt (n : Int) : Numeral := { negative := n < 0, whole := Nat.toDigits 10 n.natAbs }

/-- The exponents of the leading digit from which on a decimal is not positional any more. -/
def positionalFrom : Int := -5

def positionalBelow : Int := 16

/-- The numeral of a decimal: positional, and with a fraction then, if it is neither large
nor small. -/
def ofDecimal (negative : Bool) (d : Decimal) : Numeral :=
  let digits := Nat.toDigits 10 d.digits
  let exponent : Int := d.exponent + digits.length - 1
  if positionalFrom ≤ exponent ∧ exponent < positionalBelow then
    let (whole, fraction) := d.places
    { negative, whole, fraction := if fraction.isEmpty then ['0'] else fraction }
  else
    { negative, whole := digits.take 1, fraction := digits.drop 1, exponent := some exponent }

/-- The numeral of a finite double: the shortest that reads as it, ties to the even one. -/
def ofBinary64 (x : Binary64) : Numeral := ofDecimal x.isNegative (Decimal.shortest .toEven x)

def display (n : Numeral) : String :=
  (if n.negative then "-" else "") ++ String.ofList n.whole ++
    (if n.fraction.isEmpty then "" else "." ++ String.ofList n.fraction) ++
    (match n.exponent with
    | none => ""
    | some e => "e" ++ (if e < 0 then "-" else "+") ++ Nat.repr e.natAbs)

/-! ## Reading -/

def digitValue (c : Char) : Nat := c.toNat - '0'.toNat

def natValue (digits : List Char) : Nat :=
  digits.foldl (fun n c => 10 * n + digitValue c) 0

/-- Some digits, at least one, and what follows them. -/
def digits? (cs : List Char) : Option (List Char × List Char) :=
  match cs.takeWhile Char.isDigit with
  | [] => none
  | digits => some (digits, cs.dropWhile Char.isDigit)

/-- The digits before the point. A zero stands alone. -/
def whole? : List Char → Option (List Char × List Char)
  | '0' :: rest => some (['0'], rest)
  | cs => digits? cs

/-- The digits after the point, if there is a point. -/
def fraction? : List Char → Option (List Char × List Char)
  | '.' :: rest => digits? rest
  | cs => some ([], cs)

def signedDigits? : List Char → Option (Int × List Char)
  | '-' :: rest => (digits? rest).map fun (ds, rest) => (-(natValue ds : Int), rest)
  | '+' :: rest => (digits? rest).map fun (ds, rest) => ((natValue ds : Int), rest)
  | cs => (digits? cs).map fun (ds, rest) => ((natValue ds : Int), rest)

/-- The exponent, if there is one. -/
def exponent? : List Char → Option (Option Int × List Char)
  | 'e' :: rest => (signedDigits? rest).map fun (e, rest) => (some e, rest)
  | 'E' :: rest => (signedDigits? rest).map fun (e, rest) => (some e, rest)
  | cs => some (none, cs)

/-- The numeral at the start of `cs`, and what follows it. -/
def read? (cs : List Char) : Option (Numeral × List Char) := do
  let (negative, cs) := match cs with
    | '-' :: rest => (true, rest)
    | cs => (false, cs)
  let (whole, cs) ← whole? cs
  let (fraction, cs) ← fraction? cs
  let (exponent, cs) ← exponent? cs
  return ({ negative, whole, fraction, exponent }, cs)

/-! ## Values -/

/-- The integer a numeral spells. A negative zero is none. -/
def integer? (n : Numeral) : Option Int :=
  if n.fraction.isEmpty && n.exponent.isNone then
    let value := natValue n.whole
    if n.negative then (if value = 0 then none else some (-(value : Int)))
    else some value
  else none

/-- Appends digits to `s` as long as the result fits in 64 bits, and counts them. -/
def absorb (s : Nat) : List Char → Nat × Nat
  | [] => (s, 0)
  | c :: rest =>
    let next := 10 * s + digitValue c
    if next < 2 ^ 64 then
      let (s, n) := absorb next rest
      (s, n + 1)
    else (s, 0)

/-- The largest power of ten that is a double has this exponent. -/
def maxPower : Nat := 308

def powerOfTen (n : Nat) : Float := (Binary64.ofRatio (10 ^ n) 1).toFloat

/-- `x` times ten to the `e`, or nothing if it is too large. After three divisions by the
largest power of ten every `x` is zero, so four steps are enough. -/
def scale : (steps : Nat) → (x : Float) → (e : Int) → Option Float
  | 0, x, _ => some x
  | steps + 1, x, e =>
    if e.natAbs ≤ maxPower then
      if 0 ≤ e then
        let y := x * powerOfTen e.natAbs
        if y.isInf then none else some y
      else some (x / powerOfTen e.natAbs)
    else if x == 0 then some x
    else if 0 ≤ e then none
    else scale steps (x / powerOfTen maxPower) (e + maxPower)

/-- The double a numeral spells, or nothing if it is too large. -/
def binary64? (n : Numeral) : Option Binary64 := do
  let (high, used) := absorb 0 n.whole
  let (significand, more) := absorb high n.fraction
  let e : Int := (n.whole.length - used : Nat) - (more : Int) + n.exponent.getD 0
  let x ← scale 4 (Binary64.ofRatio significand 1).toFloat e
  return if n.negative then (Binary64.ofFloat x).neg else .ofFloat x

end Numeral

end MotionMetadata
