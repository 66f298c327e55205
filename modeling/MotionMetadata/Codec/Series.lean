import MotionMetadata.Ber
import MotionMetadata.Codec

/-!
# Series

The elements of a series are of one format, and each is preceded by its length. They lie one
level further in than the series itself, so a series of nothing needs that level too.
-/

namespace MotionMetadata

namespace Series

/-- Reads one element with its length. -/
def readItem (element : Codec) : Reader Value := do
  let start ← Reader.position
  let length ← Ber.readLength
  unless length.toNat ≤ (← Reader.remaining) do
    raiseAt start (.elementOverrun length)
  element.readField length.toNat

/-- Reads elements to the end of the bytes. Each takes a byte or more, so `fuel` suffices
when it is the number of bytes. -/
def readItems (element : Codec) : (fuel : Nat) → Reader (List Value)
  | 0 => return []
  | fuel + 1 => do
    if (← Reader.atEnd) then
      return []
    let item ← readItem element
    let rest ← readItems element fuel
    return item :: rest

def writeItem (element : Codec) (item : Value) : Encoder Unit := do
  let length ← Encoder.ofExcept (element.fieldLength item)
  Ber.writeLength length
  element.writeField item length

/-- The bytes that the elements take, each with its length. -/
def itemsLength (element : Codec) : List Value → Except Error Nat
  | [] => .ok 0
  | item :: rest => do
    let length ← element.fieldLength item
    return Ber.widthOfLength length + length + (← itemsLength element rest)

def printItems (element : Codec) (items : List Value) : String :=
  "[ " ++ ", ".intercalate (items.map element.printField) ++ " ]"

end Series

/-- Series whose elements have the codec `element`, if a level is left for them. -/
def Codec.series (description : String) (element : Option Codec) : Codec where
  description
  constraint := .free
  read length := do
    let element ← descend element
    return .series (← Reader.inField length (Series.readItems element length))
  write value _ := do
    let element ← descend element
    Encoder.each (Series.writeItem element) (← Encoder.ofExcept value.requireSeries)
  naturalLength value := do
    let element ← descend element
    Series.itemsLength element (← value.requireSeries)
  print value :=
    match value.asSeries?, element with
    | some items, some element => Series.printItems element items
    | _, _ => value.display

end MotionMetadata
