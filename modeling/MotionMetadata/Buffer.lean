import MotionMetadata.Packet
import MotionMetadata.Stream

/-!
# Writing into a buffer

An encoder answers with bytes and knows nothing of a buffer. A program that is handed one
writes into it piece by piece, and when a piece fails others are there already. So whoever
writes a field or a packet notes where the buffer ended and cuts it off there if something goes
wrong behind that. Codecs without parts are taken as they are, and may leave any bytes behind
when they fail; what has parts writes its parts into the buffer one after another.
-/

namespace MotionMetadata

/-- A computation that writes at the end of a buffer. How it leaves the buffer when it fails is
part of its answer. -/
abbrev Appender := EStateM Error Bytes

namespace Appender

variable {α : Type}

def emit (bytes : Bytes) : Appender Unit := modify (· ++ bytes)

/-- A result worked out before writing. -/
def ofExcept : Except Error α → Appender α
  | .ok a => pure a
  | .error e => throw e

/-- Writes what `encoder` answers. If it fails, `left` is what it has written until then. -/
def run (left : Bytes) (encoder : Encoder Unit) : Appender Unit := fun buffer =>
  match encoder buffer.length with
  | .ok (_, bytes) => .ok () (buffer ++ bytes)
  | .error e => .error e (buffer ++ left)

/-- Runs `appender`, and cuts the buffer off where it ended before if that fails. -/
def undoing (appender : Appender α) : Appender α := fun buffer =>
  match appender buffer with
  | .ok a out => .ok a out
  | .error e out => .error e (out.take buffer.length)

/-- Runs `appender` and changes the error it raises, if any. -/
def mapError (f : Error → Error) (appender : Appender α) : Appender α := fun buffer =>
  match appender buffer with
  | .ok a out => .ok a out
  | .error e out => .error (f e) out

end Appender

/-- A codec and how it writes its values into a buffer. -/
structure BufferCodec where
  codec : Codec
  write : Value → Nat → Appender Unit

namespace BufferCodec

/-- Writes a value into the buffer, empty values and kept bytes included. -/
def writeContent (b : BufferCodec) (value : Value) (length : Nat) : Appender Unit :=
  match value with
  | .empty => pure ()
  | .blob bytes => Appender.emit bytes
  | _ => Appender.undoing (b.write value length)

/-- Writes a field of `length` bytes into the buffer, or leaves the buffer as it was. -/
def writeField (b : BufferCodec) (value : Value) (length : Nat) : Appender Unit := do
  let start := (← get).length
  b.writeContent value length
  let written := (← get).length - start
  unless written = length do
    modify (·.take start)
    raise (.writtenLength b.codec.description written length)

end BufferCodec

/-! ## Parts -/

namespace Series

/-- Writes an item of a series with its length. -/
def writeItemInto (element : BufferCodec) (item : Value) : Appender Unit := do
  let length ← Appender.ofExcept (element.codec.fieldLength item)
  Appender.emit (Ber.lengthBytes (UInt64.ofNat length))
  element.writeField item length

def writeInto (element : BufferCodec) : List Value → Appender Unit
  | [] => pure ()
  | item :: rest => do
    writeItemInto element item
    writeInto element rest

end Series

namespace FieldSet

variable {κ : Type} [SetKey κ]

def writeEntryInto (table : Table) (inner : Format → BufferCodec) (earlier : List Tag)
    (e : Entry κ Value) : Appender Unit :=
  let known := SetKey.entry table e.key
  let part := inner (known.format.after earlier.reverse)
  Appender.mapError (·.within (entryPlace table known)) do
    let length ← Appender.ofExcept (part.codec.hintedLength e.value e.width)
    Appender.run [] (SetKey.write e.key)
    Appender.emit (Ber.lengthBytes (UInt64.ofNat length))
    part.writeField e.value length

/-- Writes the entries of a set, the tags of those before in `earlier`, the latest first. -/
def writeEntriesInto (table : Table) (inner : Format → BufferCodec) :
    (earlier : List Tag) → FieldSet κ → Appender Unit
  | _, [] => pure ()
  | earlier, e :: rest => do
    writeEntryInto table inner earlier e
    writeEntriesInto table inner (SetKey.tag table e.key :: earlier) rest

def writeInto (table : Table) (inner : Option (Format → BufferCodec)) (set : FieldSet κ) :
    Appender Unit := do
  let inner ← descend inner
  writeEntriesInto table inner [] (← Appender.ofExcept (writeOrder table set))

end FieldSet

def IdPack.writeInto (set : BufferCodec) (value : Value) : Appender Unit := do
  let id ← Appender.ofExcept (value.uintField "id")
  Appender.run [] (Ber.writeTag id)
  let content ← Appender.ofExcept (value.field "set")
  let length ← Appender.ofExcept (set.codec.fieldLength content)
  set.writeField content length

/-! ## Formats -/

namespace Format

/-- The bytes that codecs without parts leave behind when they fail. -/
abbrev Leftovers := PlainFormat → Value → Nat → Bytes

/-- How a format writes into a buffer, given how formats one level further in do. -/
def layerInto (registry : Registry) (left : Leftovers) (inner : Option (Format → BufferCodec))
    (f : Format) : BufferCodec where
  codec := f.layer registry (inner.map fun parts f => (parts f).codec)
  write value length :=
    match f with
    | .plain p => Appender.run (left p value length) (p.codec.write value length)
    | .series element => do
      let parts ← descend inner
      Series.writeInto (parts element) (← Appender.ofExcept value.requireSeries)
    | .localSet standard _ => do
      FieldSet.writeInto (registry.table standard) inner
        (← Appender.ofExcept (value.expect "local_set" value.asLocalSet?))
    | .universalSet standard => do
      FieldSet.writeInto (registry.table standard) inner
        (← Appender.ofExcept (value.expect "universal_set" value.asUniversalSet?))
    | .idPack pack => do
      let parts ← descend inner
      IdPack.writeInto (parts (.localSet pack.standard none)) value

/-- How a format with `levels` levels left writes into a buffer. -/
def codecInto (registry : Registry) (left : Leftovers) : (levels : Nat) → Format → BufferCodec
  | 0 => layerInto registry left none
  | levels + 1 => layerInto registry left (some (codecInto registry left levels))

end Format

/-! ## Packets -/

/-- Writes the trailer of the packet that starts at `start`. -/
def Checksum.Trailer.writeInto (t : Trailer) (start : Nat) : Appender Unit := do
  Appender.emit t.header
  let covered := (← get).drop start
  Appender.run [] (Integer.writeUnsigned (t.evaluate covered) t.algorithm.width)

namespace Packet

/-- Writes the key, the length and the value of a packet whose trailer takes `closing` bytes. -/
def writeBodyInto (part : BufferCodec) (packet : Packet) (length closing : Nat) :
    Appender Unit := do
  Appender.emit packet.key.bytes
  Appender.emit (Ber.lengthBytes (UInt64.ofNat (length + closing)))
  part.writeField packet.value length

/-- Writes a packet into the buffer, or leaves the buffer as it was. -/
def writeInto (registry : Registry) (left : Format.Leftovers) (packet : Packet) :
    Appender Unit :=
  let known := entry registry packet.key
  let part := known.format.codecInto registry left maxDepth
  Appender.mapError (·.within known.name) do
    let length ← Appender.ofExcept (part.codec.fieldLength packet.value)
    Appender.undoing do
      let start := (← get).length
      writeBodyInto part packet length (trailerLength known.format)
      match known.format.trailer with
      | some trailer => trailer.writeInto start
      | none => pure ()

end Packet

/-- Reads the packets in `data` and queues them behind those that are pending. Answers their
number. -/
def PacketStream.receive (registry : Registry) (data : Bytes) (timestamp : Timestamp) :
    EStateM Error PacketStream Nat := do
  let packets ← match Packet.readAll registry data with
    | .ok packets => pure packets
    | .error e => throw e
  packets.forM fun packet => modify (·.push packet timestamp)
  return packets.length

end MotionMetadata
