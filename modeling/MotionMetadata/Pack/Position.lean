import MotionMetadata.Codec.Scalar

/-!
# Positions and rates with their uncertainty

Where a target is, or how fast it moves, is three scaled numbers. Three standard deviations
may follow, and three correlations after those.
-/

namespace MotionMetadata

/-- A scaled number of a pack: its name, its domain and its width. -/
structure ScaledField where
  name : String
  low : Binary64
  high : Binary64
  width : Nat

namespace ScaledField

def read (f : ScaledField) : Reader (String × Value) :=
  return (f.name, .ofImap (← Imap.read f.low f.high f.width))

def readAll : List ScaledField → Reader (List (String × Value))
  | [] => return []
  | f :: rest => do
    let first ← f.read
    return first :: (← readAll rest)

/-- Writes the field of that name of a record. -/
def write (value : Value) (f : ScaledField) : Encoder Unit := do
  Imap.write (← Encoder.ofExcept (value.imapField f.name)) f.low f.high f.width

/-- Refuses a record without a number in one of the fields. -/
def check (value : Value) (fields : List ScaledField) : Except Error Unit :=
  fields.forM fun f => do
    let _ ← value.imapField f.name

end ScaledField

/-- What a pack gives three numbers of. -/
inductive Position where
  | location
  /-- Also used for accelerations. -/
  | velocity
deriving DecidableEq, Inhabited

namespace Position

def name : Position → String
  | location => "location"
  | velocity => "velocity"

/-- The three numbers: degrees and meters, or meters per second. -/
def head : Position → List ScaledField
  | location => [⟨"latitude", -90, 90, 4⟩, ⟨"longitude", -180, 180, 4⟩,
      ⟨"altitude", -900, 19000, 2⟩]
  | velocity => [⟨"east", -900, 900, 2⟩, ⟨"north", -900, 900, 2⟩, ⟨"up", -900, 900, 2⟩]

/-- The standard deviations. -/
def sigma : List ScaledField :=
  [⟨"east", 0, 650, 2⟩, ⟨"north", 0, 650, 2⟩, ⟨"up", 0, 650, 2⟩]

/-- The correlations. -/
def rho : List ScaledField :=
  [⟨"east_north", -1, 1, 2⟩, ⟨"east_up", -1, 1, 2⟩, ⟨"north_up", -1, 1, 2⟩]

/-- The bytes of the deviations, and of the correlations. -/
def tripleLength : Nat := 6

/-- Reads three more numbers if there is room for them. -/
def readTriple (fields : List ScaledField) : Reader Value := do
  if tripleLength ≤ (← Reader.remaining) then
    return .record (← ScaledField.readAll fields)
  return .empty

def read (p : Position) : Reader Value := do
  let first ← ScaledField.readAll p.head
  let deviations ← readTriple sigma
  let correlations ← readTriple rho
  return .record (first ++ [("sigma", deviations), ("rho", correlations)])

/-- The deviations and correlations of a record. Correlations alone are dropped, as they
would be taken for deviations. -/
def triplesOf (value : Value) : Except Error (Option Value × Option Value) := do
  let deviations ← value.optionalField "sigma"
  let correlations ← value.optionalField "rho"
  return if deviations.isNone then (none, none) else (deviations, correlations)

def writeTriple (fields : List ScaledField) : Option Value → Encoder Unit
  | none => pure ()
  | some triple => Encoder.each (ScaledField.write triple) fields

def write (p : Position) (value : Value) : Encoder Unit := do
  Encoder.each (ScaledField.write value) p.head
  let (deviations, correlations) ← Encoder.ofExcept (triplesOf value)
  writeTriple sigma deviations
  writeTriple rho correlations

def headLength (p : Position) : Nat := p.head.foldr (·.width + ·) 0

/-- The bytes of three more numbers, if they are there and good. -/
def lengthOfTriple (fields : List ScaledField) : Option Value → Except Error Nat
  | none => .ok 0
  | some triple => do
    ScaledField.check triple fields
    return tripleLength

def naturalLength (p : Position) (value : Value) : Except Error Nat := do
  ScaledField.check value p.head
  let (deviations, correlations) ← triplesOf value
  let deviationsLength ← lengthOfTriple sigma deviations
  let correlationsLength ← lengthOfTriple rho correlations
  return p.headLength + deviationsLength + correlationsLength

def printTriple (fields : List ScaledField) (value : Value) : String :=
  let parts := fields.map fun f => match value.field f.name with
    | .ok v => f.name ++ ": " ++ v.display
    | .error _ => f.name ++ ": ?"
  "\x7b " ++ ", ".intercalate parts ++ " \x7d"

def print (value : Value) : String :=
  match value with
  | .record fields =>
    let parts := (fields.filter fun f => !f.2.isEmpty).map fun f =>
      if f.1 = "sigma" then "sigma: " ++ printTriple sigma f.2
      else if f.1 = "rho" then "rho: " ++ printTriple rho f.2
      else f.1 ++ ": " ++ f.2.display
    "\x7b " ++ ", ".intercalate parts ++ " \x7d"
  | _ => value.display

end Position

namespace Codec

def position (p : Position) : Codec where
  description := s!"{p.name} pack of " ++ LengthConstraint.free.description
  constraint := .free
  read _ := p.read
  write value _ := p.write value
  naturalLength := p.naturalLength
  print := Position.print

end Codec

end MotionMetadata
