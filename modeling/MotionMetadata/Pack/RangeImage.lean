import MotionMetadata.Grid.Codec

/-!
# Packs of range images

A range image comes in sections: the place of the section, an array of measurements, an
array of their uncertainties, and the coefficients of a plane. Every part is preceded by its
length. What is absent at the end is left off, and what is absent before something else has
length zero.
-/

namespace MotionMetadata

namespace RangeEnumerations

def compressionMethods : Names := [(0, "None"), (1, "Planar Fit")]

def dataTypes : Names := [(0, "Perspective Range Image"), (1, "Depth Range Image")]

def sources : Names := [(0, "Computationally Extracted"), (1, "Range Sensor")]

def read : Reader Value := do
  let bits := (← Ber.readTag).toNat
  return .record [("compression_method", .uint (UInt64.ofNat (bits % 8))),
    ("data_type", .uint (UInt64.ofNat (bits / 8 % 8))),
    ("source", .uint (UInt64.ofNat (bits / 64 % 2)))]

def write (value : Value) : Encoder Unit := do
  let compression ← Encoder.ofExcept (value.uintField "compression_method")
  let dataType ← Encoder.ofExcept (value.uintField "data_type")
  let source ← Encoder.ofExcept (value.uintField "source")
  if 7 < compression ∨ 7 < dataType ∨ 1 < source then
    raise (.enumerationsTooLarge compression dataType source)
  Ber.writeTag (source * 64 + dataType * 8 + compression)

def print (value : Value) : String :=
  match value.uintField "compression_method", value.uintField "data_type",
      value.uintField "source" with
  | .ok compression, .ok dataType, .ok source =>
    "\x7b compression method: " ++ (compressionMethods.nameOf compression).getD "Unknown" ++
      ", data type: " ++ (dataTypes.nameOf dataType).getD "Unknown" ++
      ", source: " ++ (sources.nameOf source).getD "Unknown" ++ " \x7d"
  | _, _, _ => value.display

end RangeEnumerations

namespace RangeSection

/-- The coefficients of the plane in wire order. -/
def planeFields : List String := ["plane_x_scale", "plane_y_scale", "plane_constant"]

def index : Codec := .berOid

def array : Codec := .grid .float

/-- A coefficient takes four or eight bytes, and eight when there is a choice. -/
def coefficient : Codec := .float { shape := .oneOf [4, 8], preferred := some 8 }

/-- Reads one part preceded by its length, which the part has to use up. -/
def readPart (codec : Codec) : Reader Value := do
  let start ← Reader.position
  let length ← Ber.readLength
  unless length.toNat ≤ (← Reader.remaining) do
    raiseAt start (.sectionOverrun length)
  if length = 0 then
    return .empty
  let field ← Reader.enter length.toNat
  match codec.read length.toNat field with
  | .error e _ => throw e
  | .ok value after =>
    unless after.isEmpty do
      raiseAt start (.sectionUnread codec.description after.remaining)
    return value

/-- Reads one part if there is anything left to read. -/
def readPartIfAny (codec : Codec) : Reader Value := do
  if (← get).isEmpty then return .empty
  readPart codec

def readCoefficients : List String → Reader (List (String × Value))
  | [] => return []
  | name :: rest => do
    let first ← readPartIfAny coefficient
    return (name, first) :: (← readCoefficients rest)

def read : Reader Value := do
  let x ← readPart index
  let y ← readPart index
  let measurements ← readPart array
  let uncertainty ← readPartIfAny array
  let plane ← readCoefficients planeFields
  return .record ([("section_x", x), ("section_y", y), ("measurements", measurements),
    ("uncertainty", uncertainty)] ++ plane)

/-- The coefficient in the field `name`, empty if it is absent. -/
def coefficientOf (value : Value) (name : String) : Except Error Value := do
  match ← value.optionalField name with
  | none => return .empty
  | some (.float v) => return .float v
  | some other => Value.inside name (raise (other.typeFault "float"))

/-- A list without the empty values at its end. -/
def trimmed : List Value → List Value
  | [] => []
  | v :: rest =>
    match trimmed rest with
    | [] => if v.isEmpty then [] else [v]
    | kept => v :: kept

/-- The coefficients through the last one that is present. -/
def coefficientsOf (value : Value) : Except Error (List Value) :=
  trimmed <$> planeFields.mapM (coefficientOf value)

def uncertaintyOf (value : Value) : Except Error Value :=
  return (← value.optionalField "uncertainty").getD .empty

/-- The parts of a section after the measurements, each with its codec. -/
def trailingParts (value : Value) : Except Error (List (Codec × Value)) := do
  let plane ← coefficientsOf value
  let uncertainty ← uncertaintyOf value
  let first := if plane.isEmpty && uncertainty.isEmpty then [] else [(array, uncertainty)]
  return first ++ plane.map fun v => (coefficient, v)

def writePart (codec : Codec) (value : Value) : Encoder Unit := do
  let length ← Encoder.ofExcept (codec.fieldLength value)
  Ber.writeLength length
  codec.writeField value length

def write (value : Value) : Encoder Unit := do
  writePart index (.uint (← Encoder.ofExcept (value.uintField "section_x")))
  writePart index (.uint (← Encoder.ofExcept (value.uintField "section_y")))
  writePart array (← Encoder.ofExcept (value.field "measurements"))
  Encoder.each (fun part => writePart part.1 part.2) (← Encoder.ofExcept (trailingParts value))

def partLength (codec : Codec) (value : Value) : Except Error Nat := do
  let length ← codec.fieldLength value
  return Ber.widthOfLength length + length

def naturalLength (value : Value) : Except Error Nat := do
  let x ← partLength index (.uint (← value.uintField "section_x"))
  let y ← partLength index (.uint (← value.uintField "section_y"))
  let measurements ← partLength array (← value.field "measurements")
  let rest ← (← trailingParts value).mapM fun part => partLength part.1 part.2
  return x + y + measurements + rest.foldr (· + ·) 0

def print (value : Value) : String :=
  match value with
  | .record fields =>
    let parts := fields.map fun f =>
      if f.1 = "measurements" ∨ f.1 = "uncertainty" then f.1 ++ ": " ++ array.printField f.2
      else f.1 ++ ": " ++ f.2.display
    "\x7b " ++ ", ".intercalate parts ++ " \x7d"
  | _ => value.display

end RangeSection

namespace Codec

/-- Three small numbers in one byte, which has the form of a tag. -/
def rangeEnumerations : Codec where
  description := "range image enumerations of " ++ (LengthConstraint.exactly 1).description
  constraint := .exactly 1
  read _ := RangeEnumerations.read
  write value _ := RangeEnumerations.write value
  naturalLength _ := .ok 1
  print := RangeEnumerations.print

def rangeSection : Codec where
  description := "section data pack of " ++ LengthConstraint.free.description
  constraint := .free
  read _ := RangeSection.read
  write value _ := RangeSection.write value
  naturalLength := RangeSection.naturalLength
  print := RangeSection.print

end Codec

end MotionMetadata
