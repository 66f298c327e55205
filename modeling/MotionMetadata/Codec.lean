import MotionMetadata.Cursor
import MotionMetadata.Encoder
import MotionMetadata.LengthConstraint
import MotionMetadata.Value.Record

/-!
# Codecs

A codec turns the bytes of one field into a value and back. What is common to all fields is
said once, here: a field of no bytes is the empty value, and a field whose length is not
allowed, whose bytes do not parse or are not used up keeps them as they are, so that the
rest of its set stays readable. Kept bytes are written back unchanged. Nesting past the
limit is the one failure that is not absorbed.
-/

namespace MotionMetadata

structure Codec where
  description : String
  constraint : LengthConstraint
  /-- Reads a value of the given length, the cursor being over that field alone. -/
  read : Nat → Reader Value
  /-- Writes a value in the given length. -/
  write : Value → Nat → Encoder Unit
  /-- The length a value takes if the constraint leaves a choice. -/
  naturalLength : Value → Except Error Nat
  print : Value → String := Value.display
  /-- Whether a value can be written in the given length and read back unchanged. A codec
  with no choice of length says no. -/
  fits : Value → Nat → Bool := fun _ _ => false

namespace Codec

/-- What a field becomes when its codec ends on `result`, `kept` being its bytes. -/
def settle (length : Nat) (kept : Bytes) :
    EStateM.Result Error Cursor Value → Except Error Value
  | .ok value after => .ok (if after.consumed = length then value else .blob kept)
  | .error e _ => if e.kind = .depth then .error e else .ok (.blob kept)

/-- Reads a field of `length` bytes. -/
def readField (codec : Codec) (length : Nat) : Reader Value := do
  if length = 0 then
    return .empty
  let field ← Reader.enter length
  if codec.constraint.allows length then
    match settle length field.rest (codec.read length field) with
    | .ok value => return value
    | .error e => throw e
  else
    return .blob field.rest

/-- What `codec` writes for a value, empty values and kept bytes included. -/
def writeContent (codec : Codec) (value : Value) (length : Nat) : Encoder Unit :=
  match value with
  | .empty => pure ()
  | .blob bytes => Encoder.emit bytes
  | _ => codec.write value length

/-- Writes a field of `length` bytes, and nothing if that is not what comes out. -/
def writeField (codec : Codec) (value : Value) (length : Nat) : Encoder Unit := do
  let written ← Encoder.captured (codec.writeContent value length)
  unless written.length = length do
    raise (.writtenLength codec.description written.length length)

/-- The length of the field that holds `value`. -/
def fieldLength (codec : Codec) (value : Value) : Except Error Nat :=
  match value with
  | .empty => .ok 0
  | .blob bytes => .ok bytes.length
  | _ =>
    match codec.constraint.fixedLength with
    | some fixed => .ok fixed
    | none => codec.naturalLength value

/-- Whether the width a value was decoded from is the one to write it with: the codec leaves
a choice, allows this one, and the value still fits. -/
def keepsWidth (codec : Codec) (value : Value) (width : Nat) : Bool :=
  value.isDecoded && codec.constraint.fixedLength.isNone && codec.constraint.allows width &&
    codec.fits value width

/-- The length of the field that holds `value`, which was decoded from `hint` bytes if that
is known. -/
def hintedLength (codec : Codec) (value : Value) (hint : Option Nat) : Except Error Nat :=
  match hint with
  | some width => if codec.keepsWidth value width then .ok width else codec.fieldLength value
  | none => codec.fieldLength value

def printField (codec : Codec) (value : Value) : String :=
  match value with
  | .empty => value.display
  | .blob _ => value.display
  | _ => codec.print value

end Codec

/-- What lies one level further in, where a level is left for it. -/
def descend {m : Type → Type} [Monad m] [MonadExceptOf Error m] {α : Type} :
    Option α → m α
  | some inner => pure inner
  | none => raise .tooDeep

end MotionMetadata
