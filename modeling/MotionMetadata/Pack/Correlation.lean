import MotionMetadata.Grid.Codec

/-!
# Standard deviations and correlation coefficients

A pack of this kind gives the uncertainty of the entries written right before it in its set:
a standard deviation for each, and a coefficient for each pair of them, row by row. Which
entries those are is not on the wire. The pack only has their number, so reading it takes
the tags of what came before.
-/

namespace MotionMetadata

/-- The content of a pack. -/
structure Correlation where
  members : List Tag
  sigma : List Value
  rho : List Value
  /-- The bytes of a deviation, none if they are left out. -/
  sigmaLength : Nat
  /-- The bytes of a coefficient, none if they are left out. -/
  rhoLength : Nat
  /-- Zero coefficients are left out, and a bit each tells which are there. -/
  sparse : Bool
  /-- The parse control has the form of two bytes. -/
  longControl : Bool
  sigmaScaled : Bool
  rhoScaled : Bool
deriving Inhabited

namespace Correlation

/-- The pairs that can be made of `n` entries. -/
def pairCount (n : Nat) : Nat := n * (n - 1) / 2

def coefficientCount (c : Correlation) : Nat := pairCount c.members.length

/-! ## The record form -/

def toValue (c : Correlation) : Value :=
  .record [("members", .series (c.members.map Value.uint)),
    ("sigma", .series c.sigma),
    ("rho", .series c.rho),
    ("sigma_length", Grid.natValue c.sigmaLength),
    ("rho_length", Grid.natValue c.rhoLength),
    ("sparse", .bool c.sparse),
    ("long_parse_control", .bool c.longControl),
    ("sigma_uses_imap", .bool c.sigmaScaled),
    ("rho_uses_imap", .bool c.rhoScaled)]

/-- The tags a record describes. -/
def membersOf (value : Value) : Except Error (List Tag) := do
  (← value.seriesField "members").mapM fun m => Value.inside "members" m.requireUint

def ofValue (value : Value) : Except Error Correlation := do
  let members ← membersOf value
  let sigma ← value.seriesField "sigma"
  let rho ← value.seriesField "rho"
  let sigmaLength ← value.uintField "sigma_length"
  let rhoLength ← value.uintField "rho_length"
  let sparse ← value.boolField "sparse"
  let longControl ← value.boolField "long_parse_control"
  let sigmaScaled ← value.boolField "sigma_uses_imap"
  let rhoScaled ← value.boolField "rho_uses_imap"
  return { members, sigma, rho, sigmaLength := sigmaLength.toNat, rhoLength := rhoLength.toNat
           sparse, longControl, sigmaScaled, rhoScaled }

/-- The pack most writers make: plain deviations, scaled coefficients, the short control. -/
def plain (members : List Tag) (sigma rho : List Binary64) (sigmaLength rhoLength : Nat) :
    Correlation :=
  { members, sigma := sigma.map Value.float, rho := rho.map Value.float
    sigmaLength, rhoLength, sparse := false, longControl := false
    sigmaScaled := false, rhoScaled := true }

/-! ## The wire form -/

/-- The domain coefficients are scaled over. -/
def coefficientLow : Binary64 := -1

def coefficientHigh : Binary64 := 1

/-- The parse control of the short form: the two lengths and the sparse bit. -/
def shortControl (c : Correlation) : Nat :=
  c.sigmaLength * 2 ^ 4 + c.sparse.toNat * 2 ^ 3 + c.rhoLength

/-- The parse control of the long form, which also tells what is scaled. -/
def longControlValue (c : Correlation) : Nat :=
  c.sparse.toNat * 2 ^ 12 + c.rhoScaled.toNat * 2 ^ 11 + c.rhoLength * 2 ^ 7 +
    c.sigmaScaled.toNat * 2 ^ 4 + c.sigmaLength

/-- What the parse control of `members` says, deviations and coefficients still to come. -/
def ofControl (members : List Tag) (long : Bool) (control : Nat) : Correlation :=
  let base : Correlation :=
    { members, sigma := [], rho := [], sigmaLength := 0, rhoLength := 0, sparse := false
      longControl := long, sigmaScaled := false, rhoScaled := true }
  if long then
    { base with
      sigmaLength := control % 16
      sigmaScaled := control.testBit 4
      rhoLength := control / 2 ^ 7 % 16
      rhoScaled := control.testBit 11
      sparse := control.testBit 12 }
  else
    { base with
      rhoLength := control % 8
      sparse := control.testBit 3
      sigmaLength := control / 2 ^ 4 % 8 }

/-- Reads one coefficient that is on the wire. -/
def readCoefficient (scaled : Bool) (width : Nat) : Reader Value :=
  if scaled then return .ofImap (← Imap.read coefficientLow coefficientHigh width)
  else return .float (← Floating.read width)

/-- Reads the coefficients, those whose bit is clear being zero. -/
def readCoefficients (one : Reader Value) : List Bool → Reader (List Value)
  | [] => return []
  | present :: rest => do
    let first ← if present then one else pure (.float .zero)
    return first :: (← readCoefficients one rest)

/-- Reads a pack that follows entries with the tags `preceding`. -/
def read (preceding : List Tag) : Reader Correlation := do
  let start ← Reader.position
  let n := (← Ber.readTag).toNat
  unless n ≤ preceding.length do
    raiseAt start (.describesTooMany preceding.length)
  let members := preceding.drop (preceding.length - n)
  let start ← Reader.position
  let control ← Ber.readTag
  let width := (← Reader.position) - start
  unless width = 1 ∨ width = 2 do
    raiseAt start (.parseControlWidth width)
  let c := ofControl members (width == 2) control.toNat
  if 0 < c.sigmaLength ∧ c.sigmaScaled then
    raiseAt start .scaledDeviations
  let count := c.coefficientCount
  let present ←
    if c.sparse then
      pure ((Grid.bitsOfBytes (← Reader.take (ceilDiv count 8))).take count)
    else pure (List.replicate count true)
  let sigma ←
    if 0 < c.sigmaLength then Reader.times n (Value.float <$> Floating.read c.sigmaLength)
    else pure []
  let rho ←
    if 0 < c.rhoLength then
      readCoefficients (readCoefficient c.rhoScaled c.rhoLength) present
    else pure []
  return { c with sigma, rho }

def isZero (value : Value) : Bool :=
  match value.asFloat? with
  | some x => x.equals .zero
  | none => false

/-- The longest value a parse control of each form can announce. -/
def lengthLimit (long : Bool) : Nat := if long then 0xF else 0x7

/-- Refuses a pack the wire form has no room for. -/
def check (c : Correlation) : Except Error Unit :=
  let n := c.members.length
  let limit := lengthLimit c.longControl
  if n = 0 then raise .describesNothing
  else if 0 < c.sigmaLength ∧ c.sigmaScaled then raise .scaledDeviations
  else if limit < c.sigmaLength ∨ limit < c.rhoLength then
    raise (.valueLengths c.sigmaLength c.rhoLength limit)
  else if 0 < c.sigmaLength ∧ c.sigma.length ≠ n then
    raise (.deviationCount n c.sigma.length)
  else if 0 < c.rhoLength ∧ c.rho.length ≠ c.coefficientCount then
    raise (.coefficientCount n c.rho.length)
  else .ok ()

/-- The parse control. The long form takes two bytes whatever it says. -/
def writeControl (c : Correlation) : Encoder Unit := do
  if c.longControl then
    let control := UInt64.ofNat c.longControlValue
    if Ber.tagWidth control = 1 then
      Encoder.emit [0x80]
    Ber.writeTag control
  else
    Ber.writeTag (UInt64.ofNat c.shortControl)

/-- A bit per coefficient, set for those that are not zero. There is room for the coefficients
that the described entries have. If the coefficients are left out, and so not counted, there may
be more of them than that, and one past the room that is not zero is the caller's mistake: a
writer that sets bits in place is stopped there by the bounds of its array, and nothing is
promised of the pack. Here the bits past the room are dropped. -/
def presence (c : Correlation) : Bytes :=
  let room := 8 * ceilDiv c.coefficientCount 8
  let bits := c.rho.map (!isZero ·) ++ List.replicate room false
  Grid.bytesOfBits (bits.take room)

def writeCoefficient (c : Correlation) (value : Value) : Encoder Unit := do
  if c.rhoScaled then
    Imap.write (← Encoder.ofExcept value.requireImap) coefficientLow coefficientHigh c.rhoLength
  else
    Floating.write (← Encoder.ofExcept value.requireFloat) c.rhoLength

def write (c : Correlation) : Encoder Unit := do
  Encoder.ofExcept c.check
  Ber.writeTag (UInt64.ofNat c.members.length)
  c.writeControl
  if c.sparse then
    Encoder.emit c.presence
  if 0 < c.sigmaLength then
    Encoder.each (fun s => do
      Floating.write (← Encoder.ofExcept s.requireFloat) c.sigmaLength) c.sigma
  if 0 < c.rhoLength then
    Encoder.each c.writeCoefficient (c.rho.filter fun r => !(c.sparse && isZero r))

/-- The bytes of a pack, worked out on their own like those of an array. -/
def encode (c : Correlation) : Except Error Bytes := c.write.bytes

def printValue (value : Value) : String :=
  match ofValue value with
  | .ok c =>
    let join := fun items => ", ".intercalate (items.map Value.display)
    "\x7b members: (" ++ join (c.members.map Value.uint) ++ "), sigma: (" ++ join c.sigma ++
      "), rho: (" ++ join c.rho ++ ") \x7d"
  | .error _ => value.display

end Correlation

namespace Codec

/-- The pack after entries with the tags `preceding`. -/
def correlation (preceding : List Tag) : Codec where
  description := "SDCC-FLP of " ++ LengthConstraint.free.description
  constraint := .free
  read _ := return (← Correlation.read preceding).toValue
  write value _ := do
    Encoder.emit (← Encoder.ofExcept (do (← Correlation.ofValue value).encode))
  naturalLength value := return (← (← Correlation.ofValue value).encode).length
  print := Correlation.printValue

end Codec

end MotionMetadata
