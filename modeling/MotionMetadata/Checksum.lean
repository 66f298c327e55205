import MotionMetadata.Integer

/-!
# Checksums

A packet may end in a trailer: a header that looks like the key and length of one more
field, and a checksum of every byte from the start of the packet through that header.
-/

namespace MotionMetadata.Checksum

/-! ## Algorithms -/

/-- The sum of the bytes, every second one shifted to the high half. `low` says that the
first byte goes to the low half, for a sum resumed at an odd place. -/
def runningSum (data : Bytes) (initial : UInt16) (low : Bool) : UInt16 :=
  match data with
  | [] => initial
  | b :: rest =>
    let term := if low then b.toUInt16 else b.toUInt16 <<< 8
    runningSum rest (initial + term) (!low)

/-- One bit of a message shifted into a 16-bit register. -/
def crc16Bit (register : UInt16) (bit : Bool) : UInt16 :=
  let shifted := (register <<< 1) ||| (if bit then 1 else 0)
  if register &&& 0x8000 != 0 then shifted ^^^ 0x1021 else shifted

/-- The bits of a byte, most significant first. -/
def bitsOf (b : UInt8) : List Bool := (List.range 8).map fun i => b.toNat.testBit (7 - i)

def crc16Byte (register : UInt16) (b : UInt8) : UInt16 :=
  (bitsOf b).foldl crc16Bit register

/-- The CCITT cyclic check. The message is followed by 16 zero bits, which shift its last
bits through the register. -/
def crc16 (data : Bytes) (initial : UInt16) : UInt16 :=
  [0, 0].foldl crc16Byte (data.foldl crc16Byte initial)

/-- One step of a 32-bit register whose input is already in. -/
def crc32Step (register : UInt32) : UInt32 :=
  if register &&& 0x80000000 != 0 then (register <<< 1) ^^^ 0x04C11DB7 else register <<< 1

def crc32Byte (register : UInt32) (b : UInt8) : UInt32 :=
  Nat.repeat crc32Step 8 (register ^^^ (b.toUInt32 <<< 24))

/-- The 32-bit cyclic check in the form used for transport streams. -/
def crc32 (data : Bytes) (initial : UInt32) : UInt32 := data.foldl crc32Byte initial

inductive Algorithm where
  | runningSum
  | crc16
  | crc32
deriving DecidableEq, Inhabited

namespace Algorithm

/-- The bytes the checksum takes. -/
def width : Algorithm → Nat
  | runningSum => 2
  | crc16 => 2
  | crc32 => 4

/-- The checksum of a packet, from the start value its standard names. -/
def evaluate : Algorithm → Bytes → UInt64
  | runningSum, data => (Checksum.runningSum data 0 false).toUInt64
  | crc16, data => (Checksum.crc16 data 0xFFFF).toUInt64
  | crc32, data => (Checksum.crc32 data 0xFFFFFFFF).toUInt64

def display : Algorithm → String
  | runningSum => "running 16-bit sum"
  | crc16 => "CRC-16-CCITT"
  | crc32 => "CRC-32-MPEG"

end Algorithm

/-! ## Trailers -/

/-- The end of a packet: what introduces the checksum, and how it is worked out. -/
structure Trailer where
  header : Bytes
  algorithm : Algorithm
deriving DecidableEq, Inhabited

namespace Trailer

/-- The trailer introduced by the tag `tag` and the length of the checksum. -/
def ofTag (tag : UInt8) (algorithm : Algorithm) : Trailer :=
  ⟨[tag, UInt8.ofNat algorithm.width], algorithm⟩

/-- Header and checksum together. -/
def length (t : Trailer) : Nat := t.header.length + t.algorithm.width

/-- The checksum of `covered`, which ends with the header. -/
def evaluate (t : Trailer) (covered : Bytes) : UInt64 := t.algorithm.evaluate covered

/-- Whether `data` ends in something of this trailer's shape. -/
def isPresent (t : Trailer) (data : Bytes) : Bool :=
  t.length ≤ data.length && t.header.isPrefixOf (data.drop (data.length - t.length))

/-- Reads the checksum that a trailer at the cursor holds. -/
def read (t : Trailer) : Reader UInt64 := do
  let start ← Reader.position
  let header ← Reader.take t.header.length
  unless header == t.header do
    raiseAt start .noTrailer
  Integer.readUnsigned t.algorithm.width

/-- Writes the trailer that closes `packet`. -/
def write (t : Trailer) (packet : Bytes) : Encoder Unit := do
  Encoder.emit t.header
  Integer.writeUnsigned (t.evaluate (packet ++ t.header)) t.algorithm.width

def display (t : Trailer) : String := t.algorithm.display ++ s!" packet of length {t.length}"

end Trailer

end MotionMetadata.Checksum
