import MotionMetadata.Codec.Scalar

/-!
# Packs of image quality metrics

When a metric was taken, on which part of the image, and who defines it.
-/

namespace MotionMetadata

namespace MetricPeriod

def timestampWidth : Nat := 8

def offsetWidth : Nat := 4

def read : Reader Value := do
  let timestamp ← Integer.readUnsigned timestampWidth
  let offset ← Integer.readUnsigned offsetWidth
  return .record [("timestamp", .uint timestamp), ("offset", .uint offset)]

def write (value : Value) : Encoder Unit := do
  Integer.writeUnsigned (← Encoder.ofExcept (value.uintField "timestamp")) timestampWidth
  Integer.writeUnsigned (← Encoder.ofExcept (value.uintField "offset")) offsetWidth

end MetricPeriod

namespace WindowCorners

/-- The coordinates in wire order. -/
def fields : List String :=
  ["upper_left_row", "upper_left_column", "lower_right_row", "lower_right_column"]

/-- Reads a coordinate of at most 16 bits. -/
def readCorner (name : String) : Reader (String × Value) := do
  let start ← Reader.position
  let v ← Ber.readTag
  if 0xFFFF < v then
    raiseAt start (.cornerTooLarge name v)
  return (name, .uint v)

def readCorners : List String → Reader (List (String × Value))
  | [] => return []
  | name :: rest => do
    let first ← readCorner name
    return first :: (← readCorners rest)

def read : Reader Value := return .record (← readCorners fields)

def write (value : Value) : Encoder Unit :=
  Encoder.each (fun name => do
    Ber.writeTag (← Encoder.ofExcept (value.uintField name))) fields

def naturalLength (value : Value) : Except Error Nat :=
  fields.foldlM (fun total name => return total + Ber.tagWidth (← value.uintField name)) 0

def print (value : Value) : String :=
  let corner := fun name => match value.uintField name with
    | .ok v => Nat.repr v.toNat
    | .error _ => "?"
  "\x7b Upper Left: ( " ++ corner "upper_left_column" ++ ", " ++ corner "upper_left_row" ++
    " ), Lower Right: ( " ++ corner "lower_right_column" ++ ", " ++ corner "lower_right_row" ++
    " ) \x7d"

end WindowCorners

namespace MetricImplementer

/-- What stands between the organization and its subgroup. -/
def separator : Char := Char.ofNat 0x1E

/-- The text before the first separator, and the text after it if there is one. -/
def split : List Char → List Char × Option (List Char)
  | [] => ([], none)
  | c :: rest =>
    if c = separator then ([], some rest)
    else
      let (before, after) := split rest
      (c :: before, after)

def read (length : Nat) : Reader Value := do
  let start ← Reader.position
  let bytes ← Reader.take length
  match Text.Utf8.decode bytes with
  | .error f => raiseAt start (.implementerNotUtf8 f.message)
  | .ok text =>
    let (organization, subgroup) := split text.toList
    let subgroup : Value := match subgroup with
      | some chars => .string (String.ofList chars)
      | none => .empty
    return .record [("organization", .string (String.ofList organization)),
      ("subgroup", subgroup)]

/-- The subgroup, unless it is left out: no field, an empty one, or an empty text. -/
def subgroupOf (value : Value) : Except Error (Option String) :=
  match value.field? "subgroup" with
  | none => .ok none
  | some .empty => .ok none
  | some (.string s) => .ok (if s.isEmpty then none else some s)
  | some other => Value.inside "subgroup" (raise (other.typeFault "string"))

def write (value : Value) : Encoder Unit := do
  Encoder.emit (Text.Utf8.encode (← Encoder.ofExcept (value.stringField "organization")))
  match ← Encoder.ofExcept (subgroupOf value) with
  | none => pure ()
  | some s => Encoder.emit (UInt8.ofNat separator.toNat :: Text.Utf8.encode s)

def naturalLength (value : Value) : Except Error Nat := do
  let subgroup ← subgroupOf value
  let organization ← value.stringField "organization"
  return (Text.Utf8.encode organization).length +
    (match subgroup with
    | none => 0
    | some s => 1 + (Text.Utf8.encode s).length)

end MetricImplementer

namespace Codec

def metricPeriod : Codec where
  description := "metric period pack of " ++ (LengthConstraint.exactly 12).description
  constraint := .exactly 12
  read _ := MetricPeriod.read
  write value _ := MetricPeriod.write value
  naturalLength _ := .ok 12

/-- Four coordinates of at most three bytes each. -/
def windowCorners : Codec where
  description := "window corners pack of " ++ (LengthConstraint.between 4 12).description
  constraint := .between 4 12
  read _ := WindowCorners.read
  write value _ := WindowCorners.write value
  naturalLength := WindowCorners.naturalLength
  print := WindowCorners.print

def metricImplementer : Codec where
  description := "metric implementer of " ++ LengthConstraint.free.description
  constraint := .free
  read := MetricImplementer.read
  write value _ := MetricImplementer.write value
  naturalLength := MetricImplementer.naturalLength

end Codec

end MotionMetadata
