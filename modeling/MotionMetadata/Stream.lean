import MotionMetadata.Packet

/-!
# Packets beside a video

A stream collects packets until the video gets to them. Packets of a synchronous stream wait
for their frame. An asynchronous stream hands over what it has.
-/

namespace MotionMetadata

/-- A place on the timeline of the video, as far as it is known. -/
structure Timestamp where
  microseconds : Option UInt64
  frame : Option UInt64
deriving DecidableEq, Inhabited

namespace Timestamp

/-- What is known comes before what is not, and the lesser of two known before the other. -/
def knownFirst : Option UInt64 → Option UInt64 → Ordering
  | some a, some b => compare a.toNat b.toNat
  | some _, none => .lt
  | none, some _ => .gt
  | none, none => .eq

/-- The order on the timeline: by time, and by frame where the times do not decide. -/
def order (a b : Timestamp) : Ordering :=
  (knownFirst a.microseconds b.microseconds).then (knownFirst a.frame b.frame)

/-- Whether `a` need not come after `b`. -/
def notAfter (a b : Timestamp) : Bool := (a.order b).isLE

/-- Whether a packet stamped so is due at `frame`. One without a frame always is. -/
def isDue (stamp : Timestamp) (frame : UInt64) : Bool :=
  match stamp.frame with
  | some own => own ≤ frame
  | none => true

end Timestamp

/-- A packet with its place on the timeline and the stream it came from. -/
structure TimedPacket where
  packet : Packet
  timestamp : Timestamp
  streamIndex : UInt32
deriving Inhabited

inductive StreamKind where
  /-- Packets belong to frames. -/
  | synchronous
  | asynchronous
deriving DecidableEq, Inhabited

/-- The packets of a stream that have not been handed over yet, in the order they came. -/
structure PacketStream where
  kind : StreamKind
  index : UInt32
  pending : List TimedPacket := []
deriving Inhabited

namespace PacketStream

def push (stream : PacketStream) (packet : Packet) (timestamp : Timestamp) : PacketStream :=
  { stream with pending := stream.pending ++ [⟨packet, timestamp, stream.index⟩] }

/-- Adds the packets in `data`, or none of them if one is bad. Answers their number. -/
def pushBytes (registry : Registry) (stream : PacketStream) (data : Bytes)
    (timestamp : Timestamp) : Except Error (PacketStream × Nat) := do
  let packets ← Packet.readAll registry data
  return (packets.foldl (·.push · timestamp) stream, packets.length)

/-- Takes out the packets that are due at `frame`. From a synchronous stream they come in the
order of the timeline, from an asynchronous one in the order they arrived. -/
def deliver (stream : PacketStream) (frame : UInt64) : PacketStream × List TimedPacket :=
  match stream.kind with
  | .asynchronous => ({ stream with pending := [] }, stream.pending)
  | .synchronous =>
    let (due, later) := stream.pending.partition (·.timestamp.isDue frame)
    ({ stream with pending := later },
      due.mergeSort fun a b => a.timestamp.notAfter b.timestamp)

end PacketStream

end MotionMetadata
