import MotionMetadata.Imap.Codec

/-!
# Linearly mapped real numbers

The older scaling takes a domain onto all the integers of a width, one step being the domain
divided by the largest integer. Its signed form is symmetric about zero, which leaves the
most negative integer over: it says that the value is out of range, and reads as NaN.
-/

namespace MotionMetadata.Linear

/-- The steps the unsigned form has. -/
def unsignedSteps (width : Nat) : Float := (2 ^ (8 * width) : Nat).toFloat - 1.0

/-- The steps the signed form has. -/
def signedSteps (width : Nat) : Float := (2 ^ (8 * width) : Nat).toFloat - 2.0

/-- The integer that stands for a value out of range. -/
def outOfRange (width : Nat) : Int64 := Int64.ofInt (-(2 ^ (8 * width - 1)))

def readUnsigned (low high : Binary64) (width : Nat) : Reader Binary64 := do
  let start ← Reader.position
  match checkDomain low high width with
  | .error f => raiseAt start f
  | .ok () =>
    let raw ← Integer.readUnsigned width
    return .ofFloat (low.toFloat +
      raw.toFloat * (high.toFloat - low.toFloat) / unsignedSteps width)

/-- Refuses a value outside the domain. -/
def checkValue (value low high : Binary64) : Except Fault Unit :=
  if low.le value && value.le high then .ok () else .error (.linearOutside value low high)

/-- Writes the nearest step. -/
def writeUnsigned (value low high : Binary64) (width : Nat) : Encoder Unit :=
  match (do checkDomain low high width; checkValue value low high : Except Fault Unit) with
  | .error f => raise f
  | .ok () =>
    let steps := (value.toFloat - low.toFloat) * unsignedSteps width /
      (high.toFloat - low.toFloat)
    Integer.writeUnsigned steps.round.toUInt64 width

/-- Reads a step. Eight bytes have no integer for a value out of range. To work it out all the
same is to change the sign of the least integer of 64 bits, which is left as it is by arithmetic
that wraps, as it does here. Where an overflow is trapped instead, eight bytes are not read. -/
def readSigned (low high : Binary64) (width : Nat) : Reader Binary64 := do
  let start ← Reader.position
  match checkDomain low high width with
  | .error f => raiseAt start f
  | .ok () =>
    let raw ← Integer.readSigned width
    if width < 8 && raw == outOfRange width then
      return .nan
    return .ofFloat (raw.toFloat * (high.toFloat - low.toFloat) / signedSteps width)

/-- Writes the nearest step, or for a NaN that the value is out of range. -/
def writeSigned (value low high : Binary64) (width : Nat) : Encoder Unit :=
  match checkDomain low high width with
  | .error f => raise f
  | .ok () =>
    if value.isNaN then Integer.writeSigned (outOfRange width) width
    else
      match checkValue value low high with
      | .error f => raise f
      | .ok () =>
        let steps := value.toFloat * signedSteps width / (high.toFloat - low.toFloat)
        Integer.writeSigned steps.round.toInt64 width

end MotionMetadata.Linear
