import MotionMetadata.Format.Codec
import MotionMetadata.Table.Packets
import MotionMetadata.Table.Predator

/-!
# Packets

A packet is a universal key, a length and a value. The key tells what the value is. If its
format has a trailer, the checksum in it is compared on the way in, taken off, and worked out
again on the way out. A checksum that does not match is noted and nothing more: damaged
metadata is still metadata.
-/

namespace MotionMetadata

/-- What became of the checksum of a packet. -/
inductive ChecksumStatus where
  /-- There is none, or none was found. -/
  | absent
  | valid
  | mismatch (stored computed : UInt64)
deriving DecidableEq, Inhabited

structure Packet where
  key : UniversalKey
  value : Value
  /-- Noted by reading. Writing and comparing do not look at it. -/
  checksum : ChecksumStatus := .absent
deriving Inhabited

namespace Packet

/-- Packets are equal if their keys and values are. -/
def equals (a b : Packet) : Bool := a.key.same b.key && a.value.equals b.value

/-- What the registry has for a packet's key. -/
def entry (registry : Registry) (key : UniversalKey) : TagEntry := registry.packets.byKey key

/-- The codec of a packet's value. -/
def codec (registry : Registry) (key : UniversalKey) : Codec :=
  (entry registry key).format.outermost registry

/-- The bytes that the trailer of a format takes. -/
def trailerLength (format : Format) : Nat :=
  match format.trailer with
  | some trailer => trailer.length
  | none => 0

/-! ## Reading -/

/-- Looks for the trailer at the end of a packet with a value of `length` bytes. Answers the
bytes that the trailer takes and what its checksum says. -/
def checkTrailer (format : Format) (packet : Bytes) (length : Nat) :
    Except Error (Nat × ChecksumStatus) :=
  match format.trailer with
  | none => .ok (0, .absent)
  | some trailer =>
    if trailer.length ≤ length && trailer.isPresent packet then do
      let start := packet.length - trailer.length
      let computed := trailer.evaluate (packet.take (start + trailer.header.length))
      let stored ← trailer.read.onBytes (packet.drop start)
      return (trailer.length, if stored = computed then .valid else .mismatch stored computed)
    else .ok (0, .absent)

/-- Reads a packet at the cursor, which stands on its key. -/
def readHere (registry : Registry) : Reader Packet := do
  let start ← get
  let key ← UniversalKey.read
  unless key.isValid do
    raiseAt start.position (.keyInvalid key.display)
  let lengthStart ← Reader.position
  let length ← Ber.readLength
  let left ← Reader.remaining
  unless length.toNat ≤ left do
    raiseAt lengthStart (.packetOverrun length left)
  let length := length.toNat
  let whole := start.rest.take ((← Reader.position) - start.position + length)
  let known := entry registry key
  match checkTrailer known.format whole length with
  | .error e => throw e
  | .ok (closing, checksum) =>
    let value ← Reader.mapError (·.within known.name)
      ((known.format.outermost registry).readField (length - closing))
    Reader.skip closing
    return { key, value, checksum }

/-- Reads the next packet. Bytes before the start of a label are skipped. The cursor stays
put when there is no packet, or no good one. -/
def read (registry : Registry) : Reader Packet := Reader.restoring do
  let c ← get
  match Bytes.offsetOf? UniversalKey.labelStart c.rest with
  | none => raiseAt c.position .noPacketKey
  | some junk =>
    Reader.skip junk
    readHere registry

/-- The first packet in `data`. -/
def decode (registry : Registry) (data : Bytes) : Except Error Packet :=
  (read registry).onBytes data

/-- Reads packets as long as the start of a label lies ahead. Each takes a byte or more, so
`fuel` suffices when it is the number of bytes. -/
def readMany (registry : Registry) : (fuel : Nat) → Reader (List Packet)
  | 0 => return []
  | fuel + 1 => do
    if (Bytes.offsetOf? UniversalKey.labelStart (← get).rest).isNone then
      return []
    let packet ← read registry
    let rest ← readMany registry fuel
    return packet :: rest

/-- All packets in `data`. What follows the last of them is ignored unless it starts a
label. -/
def readAll (registry : Registry) (data : Bytes) : Except Error (List Packet) :=
  (readMany registry data.length).onBytes data

/-! ## Writing -/

def write (registry : Registry) (packet : Packet) : Encoder Unit :=
  let known := entry registry packet.key
  let codec := known.format.outermost registry
  Encoder.mapError (·.within known.name) do
    let length ← Encoder.ofExcept (codec.fieldLength packet.value)
    let body ← Encoder.captured do
      packet.key.write
      Ber.writeLength (length + trailerLength known.format)
      codec.writeField packet.value length
    match known.format.trailer with
    | some trailer => trailer.write body
    | none => pure ()

/-- The bytes of a packet. -/
def encode (registry : Registry) (packet : Packet) : Except Error Bytes :=
  (packet.write registry).bytes

/-- The number of bytes that a packet takes. -/
def length (registry : Registry) (packet : Packet) : Except Error Nat := do
  let known := entry registry packet.key
  let content ← (known.format.outermost registry).fieldLength packet.value
  let length := content + trailerLength known.format
  return 16 + Ber.widthOfLength length + length

/-! ## Content -/

/-- The number under a tag of a packet that is a local set. -/
def numberAt? (packet : Packet) (tag : Tag) : Option UInt64 := do
  (← (← packet.value.asLocalSet?).find? tag).asUint?

/-- The time inside a packet, in microseconds, where the packet has a place for it. -/
def timestamp? (packet : Packet) : Option UInt64 :=
  if packet.key.same PacketKey.datalink || packet.key.same PacketKey.terminal then
    packet.numberAt? 2
  else if packet.key.same PacketKey.predator then do
    (← (← packet.value.asUniversalSet?).find? Table.timestampKey).asUint?
  else if packet.key.same PacketKey.quality then do
    (← (← (← packet.value.asLocalSet?).find? 2).field? "timestamp").asUint?
  else none

/-- A packet as text, the registry giving the names. -/
def print (registry : Registry) (packet : Packet) : String :=
  let known := entry registry packet.key
  "\x7b " ++ known.name ++ ": " ++
    (known.format.outermost registry).printField packet.value ++ " \x7d"

/-- A packet as text without names. -/
def display (packet : Packet) : String :=
  "\x7b " ++ packet.key.display ++ ": " ++ packet.value.display ++ " \x7d"

end Packet

end MotionMetadata
