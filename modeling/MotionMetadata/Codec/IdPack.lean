import MotionMetadata.Ber
import MotionMetadata.Codec

/-!
# Packs of a number and a set

Such a pack starts with the number of a target, and the rest of it is a set about the
target. The set lies one level further in.
-/

namespace MotionMetadata

namespace IdPack

def read (set : Codec) : Reader Value := do
  let id ← Ber.readTag
  let content ← set.readField (← Reader.remaining)
  return .record [("id", .uint id), ("set", content)]

def write (set : Codec) (value : Value) : Encoder Unit := do
  Ber.writeTag (← Encoder.ofExcept (value.uintField "id"))
  let content ← Encoder.ofExcept (value.field "set")
  let length ← Encoder.ofExcept (set.fieldLength content)
  set.writeField content length

def encodedLength (set : Codec) (value : Value) : Except Error Nat := do
  let id ← value.uintField "id"
  let content ← value.field "set"
  return Ber.tagWidth id + (← set.fieldLength content)

def printValue (set : Codec) (value : Value) : String :=
  match value.uintField "id", value.field "set" with
  | .ok id, .ok content =>
    "\x7b id: " ++ Nat.repr id.toNat ++ ", set: " ++ set.printField content ++ " \x7d"
  | _, _ => value.display

end IdPack

/-- Packs with the set `set`, if a level is left for it. As text the set counts as part of
the pack, and `shown` is its codec for that. -/
def Codec.idPack (description : String) (set : Option Codec) (shown : Codec) : Codec where
  description
  constraint := .free
  read _ := do
    IdPack.read (← descend set)
  write value _ := do
    IdPack.write (← descend set) value
  naturalLength value := do
    IdPack.encodedLength (← descend set) value
  print := IdPack.printValue shown

end MotionMetadata
