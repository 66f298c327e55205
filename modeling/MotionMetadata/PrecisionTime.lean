import MotionMetadata.Cursor
import MotionMetadata.Encoder

/-!
# Precision time packets

A time packet travels between video frames: a 16-byte tag, a status byte, and a count of
eight bytes with an `FF` after every second one, so that it never looks like a start code.
The tag tells whether the count is of microseconds or nanoseconds. A timestamp holds
nanoseconds either way.
-/

namespace MotionMetadata

/-- The two spellings of the tag. -/
inductive TimeTag where
  | text
  | uuid
deriving DecidableEq

/-- A time and the status byte sent with it. -/
structure PrecisionTime where
  nanoseconds : UInt64
  status : UInt8
deriving DecidableEq, Inhabited

namespace PrecisionTime

/-- The tag of a microsecond packet as text, `MISPmicrosectime`. -/
def textTag : Bytes :=
  [0x4D, 0x49, 0x53, 0x50, 0x6D, 0x69, 0x63, 0x72, 0x6F, 0x73, 0x65, 0x63, 0x74, 0x69, 0x6D, 0x65]

/-- The tag of a microsecond packet as a UUID. -/
def uuidTag : Bytes :=
  [0xCF, 0x84, 0x82, 0x78, 0xEE, 0x23, 0x30, 0x6F, 0x8C, 0x4A, 0x33, 0x1B, 0x52, 0x2F, 0xB4, 0x3D]

/-- The tag of a nanosecond packet. -/
def nanoTag : Bytes :=
  [0xA8, 0x68, 0x7D, 0xD4, 0xD7, 0x59, 0x37, 0x58, 0xA5, 0xCE, 0xF0, 0x33, 0x8B, 0x65, 0x45, 0xF1]

def tagLength : Nat := 16

/-- Eight bytes and three guards. -/
def stuffedLength : Nat := 11

def packetLength : Nat := tagLength + 1 + stuffedLength

def guardByte : UInt8 := 0xFF

/-- The status of a clock about which nothing is known. -/
def unknownStatus : UInt8 := 0x9F

/-- The timestamp of a clock that was never set. -/
def unset : PrecisionTime := { nanoseconds := 0, status := unknownStatus }

/-- `n`, or the largest 64-bit number if that is less. -/
def saturate (n : Nat) : UInt64 := UInt64.ofNat (min n (2 ^ 64 - 1))

def ofMicroseconds (count : UInt64) (status : UInt8) : PrecisionTime :=
  { nanoseconds := saturate (count.toNat * 1000), status }

def ofNanoseconds (count : UInt64) (status : UInt8) : PrecisionTime :=
  { nanoseconds := count, status }

/-- The time in microseconds. Half of one is added first, as far as the count has room. -/
def microseconds (t : PrecisionTime) : UInt64 := saturate (t.nanoseconds.toNat + 500) / 1000

/-- A count with its guards. -/
def stuff (count : UInt64) : Bytes :=
  match BigEndian.bytes 8 count.toNat with
  | [a, b, c, d, e, f, g, h] => [a, b, guardByte, c, d, guardByte, e, f, guardByte, g, h]
  | other => other

/-- The bytes of a stuffed count at the places that are no guards, whatever the guards
hold. -/
def unstuff : Bytes → Bytes
  | a :: b :: _ :: rest => a :: b :: unstuff rest
  | rest => rest

/-- Reads a time packet. A tag that is not the nanosecond one counts microseconds. -/
def read : Reader PrecisionTime := Reader.restoring do
  let tag ← Reader.take tagLength
  let status ← Reader.byte
  let count := UInt64.ofNat (BigEndian.value (unstuff (← Reader.take stuffedLength)))
  return if tag = nanoTag then ofNanoseconds count status else ofMicroseconds count status

/-- The tag of a packet. Text has no nanosecond form of its own. -/
def tagBytes : TimeTag → (nano : Bool) → Bytes
  | .text, _ => textTag
  | .uuid, false => uuidTag
  | .uuid, true => nanoTag

/-- Writes a time packet. A nanosecond count under the text tag reads back as microseconds,
so only the UUID form carries nanoseconds. -/
def write (t : PrecisionTime) (tag : TimeTag) (nano : Bool) : Encoder Unit := do
  Encoder.emit (tagBytes tag nano)
  Encoder.emit [t.status]
  Encoder.emit (stuff (if nano then t.nanoseconds else t.microseconds))

/-! ## Finding a packet -/

/-- The offset of a time packet in `data`: the first place of the first tag that occurs, if
a whole packet is there. -/
def find? (data : Bytes) (tag : TimeTag) : Option Nat :=
  let tags := match tag with
    | .text => [textTag]
    | .uuid => [uuidTag, nanoTag]
  match tags.findSome? fun t => Bytes.offsetOf? t data with
  | some offset => if packetLength ≤ data.length - offset then some offset else none
  | none => none

end PrecisionTime

end MotionMetadata
