import MotionMetadata.Integer

/-!
# Lengths and tags

Lengths are in BER form: a byte up to 127 stands for itself, and a byte with its high bit
set gives the number of big-endian bytes that follow. Tags are in BER-OID form: seven bits a
byte, most significant first, the high bit set on all bytes but the last.
-/

namespace MotionMetadata.Ber

/-! ## Lengths -/

/-- Reads a length. The cursor stays put when there is none. -/
def readLength : Reader UInt64 := Reader.restoring do
  let start ← Reader.position
  let lead ← Reader.byte
  if lead.toNat < 0x80 then
    return lead.toUInt64
  let count := lead.toNat - 0x80
  unless Integer.widthAllowed count do
    raiseAt start (.lengthForm count)
  Integer.readUnsigned count

/-- The one way this library spells a length: in a single byte if it can. -/
def lengthBytes (value : UInt64) : Bytes :=
  if value.toNat < 0x80 then [value.toUInt8]
  else
    let count := Integer.unsignedWidth value
    UInt8.ofNat (0x80 + count) :: BigEndian.bytes count value.toNat

def lengthWidth (value : UInt64) : Nat :=
  if value.toNat < 0x80 then 1 else Integer.unsignedWidth value + 1

/-- Writes the length of something `n` bytes long. -/
def writeLength (n : Nat) : Encoder Unit := Encoder.emit (lengthBytes (UInt64.ofNat n))

/-- The bytes that the length of something `n` bytes long takes. -/
def widthOfLength (n : Nat) : Nat := lengthWidth (UInt64.ofNat n)

/-! ## Tags -/

/-- The most bytes a tag may take. -/
def maxTagWidth : Nat := 8

/-- Looks for a whole tag in the first `limit` bytes: its value, after the groups read so
far, and the number of bytes it takes. -/
def scanTag : (limit high : Nat) → Bytes → Option (Nat × Nat)
  | 0, _, _ => none
  | _, _, [] => none
  | limit + 1, high, b :: rest =>
    let value := high * 128 + b.toNat % 128
    if b.toNat < 0x80 then some (value, 1)
    else (scanTag limit value rest).map fun (v, n) => (v, n + 1)

/-- Reads a tag of at most eight bytes. The cursor stays put when there is none. -/
def readTag : Reader UInt64 := do
  let c ← get
  match scanTag maxTagWidth 0 c.rest with
  | some (value, width) =>
    set (c.advance width)
    return UInt64.ofNat value
  | none => raiseAt c.position (.openTag (c.remaining < maxTagWidth))

/-- The bytes the tag `value` takes, at least one. -/
def tagWidth (value : UInt64) : Nat := max 1 (ceilDiv (bitLength value.toNat) 7)

/-- The `count` groups above the last one, each marked as continued. -/
def continuedGroups : (count high : Nat) → Bytes
  | 0, _ => []
  | count + 1, high => continuedGroups count (high / 128) ++ [UInt8.ofNat (0x80 + high % 128)]

def tagBytes (value : UInt64) : Bytes :=
  continuedGroups (tagWidth value - 1) (value.toNat / 128) ++ [UInt8.ofNat (value.toNat % 128)]

def writeTag (value : UInt64) : Encoder Unit := do
  unless tagWidth value ≤ maxTagWidth do
    raise (.tagTooWide value (tagWidth value))
  Encoder.emit (tagBytes value)

end MotionMetadata.Ber
