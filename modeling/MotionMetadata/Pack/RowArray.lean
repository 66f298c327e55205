import MotionMetadata.Grid.Codec

/-!
# Arrays with a domain per row

The uncertainty of tie points is an array of two dimensions with a column for each point.
Its elements are unsigned on the wire, and every row is scaled over a domain of its own.
-/

namespace MotionMetadata

/-- What the tie points are points of. -/
inductive RowArray where
  /-- The image: row, column and their correlation, for both images. -/
  | pixel
  /-- The ground: latitude and longitude in three rows, elevation in three more. -/
  | geographic
deriving DecidableEq, Inhabited

namespace RowArray

def name : RowArray → String
  | pixel => "pixel"
  | geographic => "geographic"

/-- The domains of the rows. -/
def rows : RowArray → List (Binary64 × Binary64)
  | pixel => [(0, 100), (0, 100), (-1, 1), (0, 100), (0, 100), (-1, 1)]
  | geographic => [(0, 650), (0, 650), (-1, 1), (0, 1000), (-1, 1), (-1, 1)]

/-- How many of the rows an array may have. -/
def rowCounts : RowArray → List Nat
  | pixel => [6]
  | geographic => [3, 6]

/-- Refuses an array of another shape, and answers its number of columns. -/
def checkShape (a : RowArray) (g : Grid) : Except Error Nat :=
  match g.sizes with
  | [rowCount, columns] =>
    if a.rowCounts.contains rowCount && 0 < columns then
      if Grid.count? g.sizes == some g.elements.length then .ok columns
      else raise (.rowArrayCount a.name g.elements.length)
    else raise (.rowArraySizes a.name g.sizes)
  | sizes => raise (.rowArraySizes a.name sizes)

/-- Converts every element, knowing the domain of its row. -/
def mapRows (a : RowArray) (convert : Value → Binary64 × Binary64 → Except Error Value)
    (g : Grid) : Except Error Grid := do
  let columns ← a.checkShape g
  let elements ← g.elements.zipIdx.mapM fun (e, i) =>
    convert e (a.rows.getD (i / columns) (.zero, .zero))
  return { g with elements }

/-- The number that an unsigned element stands for. -/
def scaledElement (width : Nat) (element : Value) (domain : Binary64 × Binary64) :
    Except Error Value := do
  let bytes ← (Integer.writeUnsigned (← element.requireUint) width).bytes
  return .ofImap (← (Imap.read domain.1 domain.2 width).onBytes bytes)

/-- The unsigned element that stands for a number. -/
def unsignedElement (width : Nat) (element : Value) (domain : Binary64 × Binary64) :
    Except Error Value := do
  let bytes ← (Imap.write (← element.requireImap) domain.1 domain.2 width).bytes
  return .uint (← (Integer.readUnsigned width).onBytes bytes)

def read (a : RowArray) (length : Nat) : Reader Value := do
  let g ← Grid.read .uint length
  match a.mapRows (scaledElement g.elementSize) g with
  | .ok scaled => return scaled.toValue
  | .error e => throw e

/-- The array as it is on the wire. -/
def toUnsigned (a : RowArray) (value : Value) : Except Error Grid := do
  let g ← Grid.ofValue value
  a.mapRows (unsignedElement g.elementSize) g

def encode (a : RowArray) (value : Value) : Except Error Bytes := do
  (← a.toUnsigned value).encode .uint

end RowArray

namespace Codec

def rowArray (a : RowArray) : Codec where
  description := s!"ST1601 {a.name} SDCC MDAP of " ++ LengthConstraint.free.description
  constraint := .free
  read := a.read
  write value _ := do Encoder.emit (← Encoder.ofExcept (a.encode value))
  naturalLength value := return (← a.encode value).length
  print := Grid.printValue

end Codec

end MotionMetadata
