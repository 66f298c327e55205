import MotionMetadata.Codec.Scalar
import MotionMetadata.Grid.Runs

/-!
# Arrays on the wire

An array starts with the number of its dimensions, their sizes and the size of an element,
all in the form of tags, and a byte for the processing. Parameters and elements follow.
-/

namespace MotionMetadata

/-- What the elements of an array are. It decides which processings apply, and how an
element of its own is encoded. -/
inductive GridElement where
  | uint
  | sint
  | float
  | bool
  /-- Doubles scaled over a domain that is not on the wire. -/
  | imap (low high : Binary64)
deriving DecidableEq, Inhabited

namespace GridElement

def name : GridElement → String
  | uint => "uint"
  | sint => "sint"
  | float => "float"
  | bool => "bool"
  | imap .. => "IMAP"

def allows : GridElement → Processing → Bool
  | _, .natural => true
  | _, .runs => true
  | float, .scaled => true
  | imap .., .scaled => true
  | bool, .boolean => true
  | uint, .biased => true
  | _, _ => false

/-- Reads one element of `width` bytes. -/
def read : GridElement → (width : Nat) → Reader Value
  | uint, width => return .uint (← Integer.readUnsigned width)
  | sint, width => return .sint (← Integer.readSigned width)
  | float, width => return .float (← Floating.read width)
  | imap low high, width => return .ofImap (← Imap.read low high width)
  | bool, width => do
    if width = 1 then return .bool (← Reader.bool)
    else raiseAt (← Reader.position) (.booleanWidth width)

/-- Writes one element in `width` bytes. -/
def write : GridElement → Value → (width : Nat) → Encoder Unit
  | uint, value, width => do
    Integer.writeUnsigned (← Encoder.ofExcept value.requireUint) width
  | sint, value, width => do
    Integer.writeSigned (← Encoder.ofExcept value.requireSint) width
  | float, value, width => do
    Floating.write (← Encoder.ofExcept value.requireFloat) width
  | imap low high, value, width => do
    Imap.write (← Encoder.ofExcept value.requireImap) low high width
  | bool, value, width => do
    let b ← Encoder.ofExcept value.requireBool
    if width = 1 then Encoder.emit [if b then 1 else 0]
    else raise (.booleanWidth width)

end GridElement

namespace Grid

/-! ## Reading -/

/-- Reads the size of one dimension, which is not zero. -/
def readSize : Reader Nat := do
  let start ← Reader.position
  let size ← Ber.readTag
  if size = 0 then
    raiseAt start .zeroDimension
  return size.toNat

/-- What precedes the parameters and elements of an array. -/
structure Header where
  sizes : List Nat
  elementSize : Nat
  processing : Processing
  /-- Where the byte of the processing stands. -/
  offset : Nat

def readHeader (element : GridElement) : Reader Header := do
  let start ← Reader.position
  let dimensions ← Ber.readTag
  if dimensions = 0 then
    raiseAt start .noDimensions
  let sizes ← Reader.times dimensions.toNat readSize
  unless volume sizes ≤ maxElements do
    raiseAt start .tooManyElements
  let elementSize ← Ber.readTag
  let offset ← Reader.position
  let code := (← Reader.byte).toUInt64
  match Processing.ofCode? code with
  | none => raiseAt offset (.unknownProcessing code)
  | some processing =>
    unless element.allows processing do
      raiseAt offset (.processingReads processing.name element.name)
    return { sizes, elementSize := elementSize.toNat, processing, offset }

/-- The bits of some bytes, most significant first. -/
def bitsOfBytes (bytes : Bytes) : List Bool :=
  bytes.flatMap fun b => (List.range 8).map fun i => b.toNat.testBit (7 - i)

/-- Reads one element of a biased array. A machine word has to hold it. -/
def readDifference (bias : UInt64) : Reader Value := do
  let offset ← Reader.position
  let difference ← Ber.readTag
  unless difference.toNat + bias.toNat < 2 ^ 64 do
    raiseAt offset .elementOverflow
  return .uint (difference + bias)

/-- Reads one box of elements that differ from the common one. -/
def readBox (element : GridElement) (sizes : List Nat) (elementSize : Nat) : Reader Box := do
  let offset ← Reader.position
  let value ← element.read elementSize
  let start ← Reader.times sizes.length Ber.readTag
  let extent ← Reader.times sizes.length Ber.readTag
  let box : Box :=
    { value, start := start.map UInt64.toNat, extent := extent.map UInt64.toNat }
  unless fitsInside sizes box.start box.extent do
    raiseAt offset .runOutside
  return box

/-- Reads boxes up to position `stop`. A box takes a byte at least, so as many as there are
bytes are enough. -/
def readBoxes (readOne : Reader Box) (stop : Nat) : (fuel : Nat) → Reader (List Box)
  | 0 => return []
  | fuel + 1 => do
    if (← Reader.position) < stop then
      let box ← readOne
      return box :: (← readBoxes readOne stop fuel)
    return []

/-- Reads what follows the header of an array, which are `left` bytes up to position `stop`. -/
def readElements (element : GridElement) (header : Header) (left stop : Nat) : Reader Grid :=
  let count := volume header.sizes
  let data := count * header.elementSize
  let grid : Grid :=
    { sizes := header.sizes, elements := [], elementSize := header.elementSize
      processing := header.processing, parametersLength := 0, bounds := none }
  match header.processing with
  | .natural => do
    unless data ≤ left do
      raiseAt header.offset .arrayElementsOverrun
    return { grid with elements := ← Reader.times count (element.read header.elementSize) }
  | .scaled => do
    unless data ≤ left do
      raiseAt header.offset .arrayElementsOverrun
    let parameters := left - data
    let low ← Floating.read (parameters / 2)
    let high ← Floating.read (parameters / 2)
    let elements ← Reader.times count (Imap.read low high header.elementSize)
    return { grid with elements := elements.map Value.ofImap, parametersLength := parameters
                       bounds := some (low, high) }
  | .biased => do
    let bias ← Ber.readTag
    let elements ← Reader.times count (readDifference bias)
    return { grid with elements, elementSize := 1, parametersLength := Ber.tagWidth bias }
  | .boolean => do
    let bits := bitsOfBytes (← Reader.take (ceilDiv count 8))
    return { grid with elements := (bits.take count).map Value.bool }
  | .runs => do
    let common ← element.read header.elementSize
    let boxes ← readBoxes (readBox element header.sizes header.elementSize) stop
      ((← Reader.remaining) + 1)
    return { grid with elements := fillBoxes header.sizes common boxes
                       parametersLength := header.elementSize }

/-- Reads an array of `length` bytes. -/
def read (element : GridElement) (length : Nat) : Reader Grid := do
  let start ← Reader.position
  let header ← readHeader element
  let used := (← Reader.position) - start
  unless used ≤ length do
    raiseAt start .arrayHeaderOverrun
  readElements element header (length - used) (start + length)

/-! ## Writing -/

/-- Bits in bytes, the last byte filled up with zeros. -/
def bytesOfBits : List Bool → Bytes
  | [] => []
  | bit :: rest =>
    let bits := bit :: rest.take 7
    let padded := bits ++ List.replicate (8 - bits.length) false
    let byte := padded.foldl (fun high b => 2 * high + b.toNat) 0
    UInt8.ofNat byte :: bytesOfBits (rest.drop 7)
termination_by bits => bits.length
decreasing_by simp only [List.length_drop, List.length_cons]; omega

def writeHeader (g : Grid) (elementSize : Nat) : Encoder Unit := do
  Ber.writeTag (UInt64.ofNat g.sizes.length)
  Encoder.each (fun size => Ber.writeTag (UInt64.ofNat size)) g.sizes
  Ber.writeTag (UInt64.ofNat elementSize)
  Encoder.emit [g.processing.code.toUInt8]

def writeBox (element : GridElement) (elementSize : Nat) (b : Box) : Encoder Unit := do
  element.write b.value elementSize
  Encoder.each (fun n => Ber.writeTag (UInt64.ofNat n)) b.start
  Encoder.each (fun n => Ber.writeTag (UInt64.ofNat n)) b.extent

def writeElements (element : GridElement) (g : Grid) : Encoder Unit :=
  match g.processing with
  | .natural => Encoder.each (fun e => element.write e g.elementSize) g.elements
  | .scaled => do
    match g.bounds with
    | none => raise .missingBounds
    | some (low, high) =>
      Floating.write low (g.parametersLength / 2)
      Floating.write high (g.parametersLength / 2)
      Encoder.each (fun e => do
        Imap.write (← Encoder.ofExcept e.requireImap) low high g.elementSize) g.elements
  | .biased => do
    let values ← Encoder.ofExcept (g.elements.mapM Value.requireUint)
    let bias := least values
    Ber.writeTag bias
    Encoder.each (fun v => Ber.writeTag (v - bias)) values
  | .boolean => do
    let bits ← Encoder.ofExcept (g.elements.mapM Value.requireBool)
    Encoder.emit (bytesOfBits bits)
  | .runs => do
    match commonElement? g.elements with
    | none => raise .noElements
    | some common =>
      element.write common g.elementSize
      Encoder.each (writeBox element g.elementSize) (findBoxes g.sizes g.elements common)

/-- Refuses an array that could not be read back. -/
def check (element : GridElement) (g : Grid) : Except Error Unit :=
  if !element.allows g.processing then
    raise (.processingWrites g.processing.name element.name)
  else if g.sizes.isEmpty || g.sizes.contains 0 then raise .emptyDimension
  else if count? g.sizes != some g.elements.length then
    raise (.elementCount g.sizes g.elements.length)
  else .ok ()

def write (element : GridElement) (g : Grid) : Encoder Unit := do
  Encoder.ofExcept (g.check element)
  g.writeHeader (if g.processing = .biased then 1 else g.elementSize)
  g.writeElements element

/-- The bytes of an array. They are worked out on their own, so that offsets in an error
count from the array's first byte. -/
def encode (element : GridElement) (g : Grid) : Except Error Bytes := (g.write element).bytes

/-- A value as text: as an array if it has the fields of one. -/
def printValue (value : Value) : String :=
  match ofValue value with
  | .ok g => g.print
  | .error _ => value.display

end Grid

namespace Codec

def grid (element : GridElement) : Codec where
  description := s!"ST1303 MDAP of {element.name} of " ++ LengthConstraint.free.description
  constraint := .free
  read length := return (← Grid.read element length).toValue
  write value _ := do
    Encoder.emit (← Encoder.ofExcept (do (← Grid.ofValue value).encode element))
  naturalLength value := return (← (← Grid.ofValue value).encode element).length
  print := Grid.printValue

end Codec

end MotionMetadata
