import MotionMetadata.Integer

/-!
# Scaled real numbers on the wire

The image of a domain `[low, high]` starts at zero, and its step is the power of two that
lets it fill half of the integers of the width or nearly so. Where the domain straddles
zero, an offset below one step makes zero come out exactly. Integers of the upper half other
than its first are special values: five bits say which, and the rest is their payload.
-/

namespace MotionMetadata

/-- Refuses what is no domain, and a width no integer has. -/
def checkDomain (low high : Binary64) (width : Nat) : Except Fault Unit :=
  if !(low.isFinite && high.isFinite && low.lt high) then .error (.scaledDomain low high)
  else if !Integer.widthAllowed width then .error (.scaledWidth width)
  else .ok ()

namespace Imap

/-! ## Numbers of the domain -/

/-- How a domain is laid over the integers of a width. -/
structure Scale where
  forward : Float
  backward : Float
  zeroOffset : Float

def scale (low high : Binary64) (width : Nat) : Scale :=
  let spread := (high.toFloat - low.toFloat).log2.ceil
  let bits := 8.0 * width.toFloat - 1.0
  let forward := (bits - spread).exp2
  let start := forward * low.toFloat
  { forward
    backward := (spread - bits).exp2
    zeroOffset := if low.lt .zero && Binary64.zero.lt high then start - start.floor else 0.0 }

/-- The least difference that `width` bytes can tell apart. -/
def stepOf (low high : Binary64) (width : Nat) : Float :=
  ((high.toFloat - low.toFloat).log2 - 8.0 * width.toFloat + 1.0).exp2

def precision (low high : Binary64) (width : Nat) : Except Error Binary64 :=
  match checkDomain low high width with
  | .error f => raise f
  | .ok () => .ok (.ofFloat (stepOf low high width))

/-- The number of bytes that tell values `precision` apart. -/
def widthFor (low high precision : Binary64) : Except Error Nat :=
  match checkDomain low high 1 with
  | .error f => raise f
  | .ok () =>
    if precision.isFinite && Binary64.zero.lt precision then
      let bits :=
        (high.toFloat - low.toFloat).log2.ceil - precision.toFloat.log2.floor + 1.0
      let bytes := (bits / 8.0).ceil
      .ok (if 1.0 < bytes then bytes.toUInt64.toNat else 1)
    else raise (.scaledPrecision precision)

/-- The number that an integer stands for. One closer to zero than half a step is zero, and
one less than a step outside the domain, which the offset can cause, is the nearer end. -/
def numberOf (low high : Binary64) (width : Nat) (raw : UInt64) : Except Fault Binary64 :=
  let s := scale low high width
  let value := s.backward * (raw.toFloat - s.zeroOffset) + low.toFloat
  let value := if value.abs < stepOf low high width / 2.0 then 0.0 else value
  let lowest := low.toFloat
  let highest := high.toFloat
  let value :=
    if value < lowest && value > lowest - s.backward then lowest
    else if value > highest && value < highest + s.backward then highest
    else value
  let number := Binary64.ofFloat value
  if number.lt low || high.lt number then .error (.scaledOutside number low high)
  else .ok number

/-- The integer a number of the domain is sent as. -/
def integerOf (low high : Binary64) (width : Nat) (value : Binary64) : UInt64 :=
  let s := scale low high width
  (s.forward * (value.toFloat - low.toFloat) + s.zeroOffset).toUInt64

/-! ## Special values -/

/-- Whether an integer of `width` bytes is a special value: its top bit is set, and some
other bit. -/
def isSpecial (width raw : Nat) : Bool := 2 ^ (8 * width - 1) < raw

/-- An infinity or a marker, which carries nothing. -/
def bare (name : String) (payload : Nat) (value : Imap) : Except Fault Imap :=
  if payload = 0 then .ok value else .error (.strayBits name)

/-- The special value an integer of `width` bytes spells. The top five bits name the kind,
and three more tell the two markers apart. -/
def specialOf (width raw : Nat) : Except Fault Imap :=
  let payloadBits := 8 * width - 5
  let payload := raw % 2 ^ payloadBits
  match raw / 2 ^ payloadBits % 32 with
  | 0b11001 => bare "+inf" payload (.normal .infinity)
  | 0b11101 => bare "-inf" payload (.normal .negInfinity)
  | 0b11010 => .ok (.nan false false (UInt64.ofNat payload))
  | 0b11110 => .ok (.nan false true (UInt64.ofNat payload))
  | 0b11011 => .ok (.nan true false (UInt64.ofNat payload))
  | 0b11111 => .ok (.nan true true (UInt64.ofNat payload))
  | 0b11000 => .ok (.userDefined (UInt64.ofNat payload))
  | 0b11100 =>
    let rest := payload % 2 ^ (payloadBits - 3)
    match payload / 2 ^ (payloadBits - 3) % 8 with
    | 0 => bare "below-minimum" rest .belowMinimum
    | 1 => bare "above-maximum" rest .aboveMaximum
    | _ => .error .reservedPattern
  | _ => .error .reservedPattern

/-- The top byte of a special value. -/
def header : Imap → Nat
  | .normal x => if x.isNaN then 0xD0 else if x.isNegative then 0xE8 else 0xC8
  | .nan false false _ => 0xD0
  | .nan false true _ => 0xF0
  | .nan true false _ => 0xD8
  | .nan true true _ => 0xF8
  | .belowMinimum => 0xE0
  | .aboveMaximum => 0xE1
  | .userDefined _ => 0xC0

/-- A value as it is sent: a number outside the domain becomes the marker for its side. -/
def marked (low high : Binary64) : Imap → Imap
  | .normal x =>
    if x.isInfinite then .normal x
    else if x.lt low then .belowMinimum
    else if high.lt x then .aboveMaximum
    else .normal x
  | special => special

/-- The integer of `width` bytes that spells a special value. -/
def specialInteger (width : Nat) (value : Imap) : UInt64 :=
  UInt64.ofNat (value.header * 2 ^ (8 * (width - 1)) + value.payload.toNat)

/-! ## The two directions -/

def read (low high : Binary64) (width : Nat) : Reader Imap := do
  let start ← Reader.position
  match checkDomain low high width with
  | .error f => raiseAt start f
  | .ok () =>
    let raw ← Integer.readUnsigned width
    let result :=
      if isSpecial width raw.toNat then specialOf width raw.toNat
      else (numberOf low high width raw).map .normal
    match result with
    | .ok value => return value
    | .error f => raiseAt start f

def write (value : Imap) (low high : Binary64) (width : Nat) : Encoder Unit := do
  match checkDomain low high width with
  | .error f => raise f
  | .ok () =>
    unless value.minLength ≤ width do
      raise (.payloadTooWide value width)
    match marked low high value with
    | .normal x =>
      if x.isFinite then Integer.writeUnsigned (integerOf low high width x) width
      else Integer.writeUnsigned (specialInteger width (.normal x)) width
    | special => Integer.writeUnsigned (specialInteger width special) width

end Imap

end MotionMetadata
