import MotionMetadata.Ber
import MotionMetadata.Text.Utf8

/-!
# Keys

A field of a local set is named by a small number, its tag. A universal key is a label of 16
bytes. One of those bytes is the version of the label, and labels that differ in nothing
else name the same thing.
-/

namespace MotionMetadata

/-- The tag of a field in a local set. -/
abbrev Tag := UInt64

/-- A universal label. -/
structure UniversalKey where
  bytes : Bytes
  length_eq : bytes.length = 16
deriving DecidableEq

/-- What a universal label names, by its fifth byte. -/
inductive LabelCategory where
  | dictionary
  | group
  | wrapper
  | label
  | privateUse
  | invalid
deriving DecidableEq

theorem BigEndian.length_bytes (width n : Nat) : (BigEndian.bytes width n).length = width := by
  induction width generalizing n with
  | zero => rfl
  | succ width ih => simp [BigEndian.bytes, ih]

namespace UniversalKey

def ofBytes? (bytes : Bytes) : Option UniversalKey :=
  if h : bytes.length = 16 then some ⟨bytes, h⟩ else none

/-- A label from its two halves, the way labels are listed. -/
def ofWords (high low : UInt64) : UniversalKey where
  bytes := BigEndian.bytes 8 high.toNat ++ BigEndian.bytes 8 low.toNat
  length_eq := by simp [BigEndian.length_bytes]

instance : Inhabited UniversalKey := ⟨ofWords 0 0⟩

/-- The four bytes every label starts with. -/
def labelStart : Bytes := [0x06, 0x0E, 0x2B, 0x34]

/-- The index of the version byte. -/
def versionIndex : Nat := 7

/-- The bytes that take part in comparisons: all but the version. -/
def significant (key : UniversalKey) : Bytes := key.bytes.eraseIdx versionIndex

/-- Whether two labels name the same thing. -/
def same (a b : UniversalKey) : Bool := a.significant == b.significant

/-- Labels are one key of a map if they name the same thing. -/
instance : BEq UniversalKey := ⟨same⟩

/-- The version takes no part in the hash either. -/
instance : Hashable UniversalKey := ⟨fun key => hash key.significant⟩

theorem beq_iff_significant {a b : UniversalKey} :
    (a == b) = true ↔ a.significant = b.significant :=
  beq_iff_eq (a := a.significant) (b := b.significant)

instance : EquivBEq UniversalKey where
  rfl := beq_iff_significant.2 rfl
  symm h := beq_iff_significant.2 (beq_iff_significant.1 h).symm
  trans h h' := beq_iff_significant.2 ((beq_iff_significant.1 h).trans (beq_iff_significant.1 h'))

instance : LawfulHashable UniversalKey where
  hash_eq _ _ h := congrArg (hash (α := Bytes)) (beq_iff_significant.1 h)

/-- The order of byte strings, the first difference deciding. -/
def compareBytes : Bytes → Bytes → Ordering
  | [], [] => .eq
  | [], _ :: _ => .lt
  | _ :: _, [] => .gt
  | a :: as, b :: bs => (compare a.toNat b.toNat).then (compareBytes as bs)

def order (a b : UniversalKey) : Ordering := compareBytes a.significant b.significant

def category (key : UniversalKey) : LabelCategory :=
  match (key.bytes.getD 4 0).toNat with
  | 1 => .dictionary
  | 2 => .group
  | 3 => .wrapper
  | 4 => .label
  | 5 => .privateUse
  | _ => .invalid

def hasLabelStart (key : UniversalKey) : Bool := key.bytes.take 4 == labelStart

/-- The label starts as labels do, its bytes 4 to 7 are below 128, and its category is
known. -/
def isValid (key : UniversalKey) : Bool :=
  key.hasLabelStart && ((key.bytes.drop 4).take 4).all (·.toNat < 0x80) &&
    key.category != .invalid

/-- Four groups of eight upper-case digits. -/
def display (key : UniversalKey) : String :=
  ".".intercalate ((List.range 4).map fun i =>
    Text.upperHex ((key.bytes.drop (4 * i)).take 4))

/-- The byte a pair of characters spells: two digits, or one digit after a plus sign. -/
def pairValue? (a b : Char) : Option UInt8 := do
  if a = '+' then
    return UInt8.ofNat (← Text.hexValue? b)
  return UInt8.ofNat (16 * (← Text.hexValue? a) + (← Text.hexValue? b))

/-- The byte spelled by two bytes of text. -/
def pairByte (a b : UInt8) : Except Error UInt8 :=
  match Text.Utf8.decode [a, b] with
  | .error _ => raise .keyNotAscii
  | .ok text =>
    match pairValue? (Char.ofNat a.toNat) (Char.ofNat b.toNat) with
    | some byte => .ok byte
    | none => raise (.keyDigitPair text)

def pairBytes : Bytes → Except Error Bytes
  | a :: b :: rest => do
    let byte ← pairByte a b
    let bytes ← pairBytes rest
    return byte :: bytes
  | _ => .ok []

/-- Reads a label from text: digits in pairs, with points and spaces wherever one likes. -/
def parse (text : String) : Except Error UniversalKey := do
  let digits := (Text.Utf8.encode text).filter fun b => b.toNat != 0x2E && b.toNat != 0x20
  if digits.length = 32 then
    match ofBytes? (← pairBytes digits) with
    | some key => return key
    | none => raise (.keyDigits text)
  else raise (.keyDigits text)

def read : Reader UniversalKey := do
  let start ← Reader.position
  match ofBytes? (← Reader.take 16) with
  | some key => return key
  | none => raiseAt start (.outOfBytes 16 0)

def write (key : UniversalKey) : Encoder Unit := Encoder.emit key.bytes

end UniversalKey

end MotionMetadata
