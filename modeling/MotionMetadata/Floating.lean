import MotionMetadata.Integer

/-!
# Floating-point fields

IEEE 754 numbers of four or eight bytes. A value is a double whatever its width on the wire.
-/

namespace MotionMetadata.Floating

def read (width : Nat) : Reader Binary64 := do
  let start ← Reader.position
  match width with
  | 4 => return Binary64.ofSingleBits (← Integer.readUnsigned 4).toUInt32
  | 8 => return ⟨← Integer.readUnsigned 8⟩
  | _ => raiseAt start (.floatWidth width)

/-- Writes the nearest number of the given width. A finite value that has only an infinite
single is refused. -/
def write (value : Binary64) (width : Nat) : Encoder Unit :=
  match width with
  | 4 => do
    let single := value.toSingleBits
    if value.isFinite && Binary64.isInfiniteSingle single then
      raise (.floatTooLarge value)
    Encoder.emit (BigEndian.bytes 4 single.toNat)
  | 8 => Encoder.emit (BigEndian.bytes 8 value.bits.toNat)
  | _ => raise (.floatWidth width)

end MotionMetadata.Floating
