import MotionMetadata.Bytes
import MotionMetadata.Error

/-!
# Writing

An encoder answers with the bytes it adds to a buffer. All it knows of the buffer is the
length, which errors report as the place where writing stopped. So nothing an encoder does
depends on the bytes before it, and one that fails adds none.
-/

namespace MotionMetadata

/-- A computation that adds bytes to a buffer of a given length. -/
def Encoder (α : Type) : Type := Nat → Except Error (α × Bytes)

namespace Encoder

instance : Monad Encoder where
  pure a := fun _ => .ok (a, [])
  bind x f := fun position =>
    match x position with
    | .error e => .error e
    | .ok (a, first) =>
      match f a (position + first.length) with
      | .error e => .error e
      | .ok (b, second) => .ok (b, first ++ second)

instance : MonadExceptOf Error Encoder where
  throw e := fun _ => .error e
  tryCatch x handler := fun position =>
    match x position with
    | .error e => handler e position
    | .ok r => .ok r

/-- The length of the buffer so far. -/
def position : Encoder Nat := fun p => .ok (p, [])

def emit (bytes : Bytes) : Encoder Unit := fun _ => .ok ((), bytes)

/-- A result worked out before writing. -/
def ofExcept {α : Type} : Except Error α → Encoder α
  | .ok a => pure a
  | .error e => throw e

/-- The bytes `encoder` adds after `position` bytes. -/
def bytesAt {α : Type} (encoder : Encoder α) (position : Nat) : Except Error Bytes :=
  match encoder position with
  | .ok (_, bytes) => .ok bytes
  | .error e => .error e

/-- The bytes `encoder` writes to an empty buffer. -/
def bytes {α : Type} (encoder : Encoder α) : Except Error Bytes := encoder.bytesAt 0

/-- Adds what `encoder` writes to `buffer`, or hands the buffer back as it was. -/
def appendTo {α : Type} (encoder : Encoder α) (buffer : Bytes) : Except Error Unit × Bytes :=
  match encoder buffer.length with
  | .ok (_, bytes) => (.ok (), buffer ++ bytes)
  | .error e => (.error e, buffer)

/-- Runs `encoder` and tells the bytes it added. -/
def captured {α : Type} (encoder : Encoder α) : Encoder Bytes := fun position =>
  match encoder position with
  | .ok (_, bytes) => .ok (bytes, bytes)
  | .error e => .error e

/-- Runs `encoder` and changes the error it raises, if any. -/
def mapError {α : Type} (f : Error → Error) (encoder : Encoder α) : Encoder α := fun position =>
  match encoder position with
  | .ok r => .ok r
  | .error e => .error (f e)

/-- One encoder per item, in order. -/
def each {α : Type} (write : α → Encoder Unit) : List α → Encoder Unit
  | [] => pure ()
  | item :: rest => do
    write item
    each write rest

end Encoder

end MotionMetadata
