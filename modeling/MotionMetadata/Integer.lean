import MotionMetadata.Cursor
import MotionMetadata.Encoder

/-!
# Fixed-width integers

Unsigned and two's complement integers of one to eight bytes, most significant byte first.
-/

namespace MotionMetadata.Integer

/-- The fewest bytes, at least one, that hold `value`. -/
def unsignedWidth (value : UInt64) : Nat := max 1 (ceilDiv (bitLength value.toNat) 8)

/-- The digits of `value` besides its sign: of `-n - 1` those of `n`. -/
def significant (value : Int64) : Nat :=
  match value.toInt with
  | .ofNat n => n
  | .negSucc n => n

/-- The fewest bytes that hold `value` in two's complement, sign included. -/
def signedWidth (value : Int64) : Nat := ceilDiv (bitLength (significant value) + 1) 8

def widthAllowed (width : Nat) : Bool := 1 ≤ width && width ≤ 8

def readUnsigned (width : Nat) : Reader UInt64 := do
  unless widthAllowed width do
    raiseAt (← Reader.position) (.integerWidth width)
  return UInt64.ofNat (BigEndian.value (← Reader.take width))

/-- The integer that the `width` low bytes of `raw` stand for in two's complement. -/
def signExtend (width : Nat) (raw : UInt64) : Int64 :=
  if raw.toNat < 2 ^ (8 * width - 1) then Int64.ofInt raw.toNat
  else Int64.ofInt ((raw.toNat : Int) - 2 ^ (8 * width))

def readSigned (width : Nat) : Reader Int64 := do
  return signExtend width (← readUnsigned width)

def writeUnsigned (value : UInt64) (width : Nat) : Encoder Unit := do
  unless widthAllowed width do
    raiseAt (← Encoder.position) (.integerWidth width)
  unless unsignedWidth value ≤ width do
    raise (.unsignedTooWide value width)
  Encoder.emit (BigEndian.bytes width value.toNat)

def writeSigned (value : Int64) (width : Nat) : Encoder Unit := do
  unless widthAllowed width do
    raiseAt (← Encoder.position) (.integerWidth width)
  unless signedWidth value ≤ width do
    raise (.signedTooWide value width)
  Encoder.emit (BigEndian.bytes width value.toUInt64.toNat)

end MotionMetadata.Integer
