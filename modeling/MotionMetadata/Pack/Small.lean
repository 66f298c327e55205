import MotionMetadata.Codec.Scalar

/-!
# Two numbers in one or two bytes

The type and number of a user-defined item, and the place of a detector in its array.
-/

namespace MotionMetadata

namespace UserData

/-- How the bytes of a user-defined item are to be read. -/
def types : Names :=
  [(0, "String"), (1, "Signed Integer"), (2, "Unsigned Integer"), (3, "Experimental")]

def read : Reader Value := do
  let b := (← Reader.byte).toNat
  return .record [("data_type", .uint (UInt64.ofNat (b / 64))),
    ("id", .uint (UInt64.ofNat (b % 64)))]

def write (value : Value) : Encoder Unit := do
  let dataType ← Encoder.ofExcept (value.uintField "data_type")
  let id ← Encoder.ofExcept (value.uintField "id")
  if 3 < dataType ∨ 63 < id then
    raise (.userDataTooLarge dataType id)
  Integer.writeUnsigned (dataType * 64 + id) 1

def print (value : Value) : String :=
  match value.uintField "data_type", value.uintField "id" with
  | .ok dataType, .ok id =>
    "\x7b type: " ++ (types.nameOf dataType).getD "Unknown Data Type" ++ ", value: " ++
      Nat.repr id.toNat ++ " \x7d"
  | _, _ => value.display

end UserData

namespace DetectorIndex

def read : Reader Value := do
  let row ← Reader.byte
  let column ← Reader.byte
  return .record [("row", .uint row.toUInt64), ("column", .uint column.toUInt64)]

def write (value : Value) : Encoder Unit := do
  Integer.writeUnsigned (← Encoder.ofExcept (value.uintField "row")) 1
  Integer.writeUnsigned (← Encoder.ofExcept (value.uintField "column")) 1

def print (value : Value) : String :=
  match value.uintField "row", value.uintField "column" with
  | .ok row, .ok column =>
    "\x7b row: " ++ Nat.repr row.toNat ++ ", column: " ++ Nat.repr column.toNat ++ " \x7d"
  | _, _ => value.display

end DetectorIndex

namespace Codec

/-- Two bits of type and six of number. -/
def userData : Codec where
  description := "user defined data type / id of " ++ (LengthConstraint.exactly 1).description
  constraint := .exactly 1
  read _ := UserData.read
  write value _ := UserData.write value
  naturalLength _ := .ok 1
  print := UserData.print

/-- A row and a column of the focal plane, a byte each. -/
def detectorIndex : Codec where
  description := "FPA index pack of " ++ (LengthConstraint.exactly 2).description
  constraint := .exactly 2
  read _ := DetectorIndex.read
  write value _ := DetectorIndex.write value
  naturalLength _ := .ok 2
  print := DetectorIndex.print

end Codec

end MotionMetadata
