import MotionMetadata.Codec
import MotionMetadata.Floating
import MotionMetadata.Linear
import MotionMetadata.Text.Codec

/-!
# Codecs of single values

Bytes, integers, names of numbers, truth values, real numbers and text.
-/

namespace MotionMetadata

/-- The names of some numbers. The first entry for a number or a name counts. -/
abbrev Names := List (UInt64 × String)

namespace Names

def nameOf (names : Names) (value : UInt64) : Option String :=
  (names.find? (·.1 == value)).map (·.2)

def valueOf (names : Names) (name : String) : Option UInt64 :=
  (names.find? (·.2 == name)).map (·.1)

end Names

namespace Codec

/-- Bytes nobody interprets. Every value that is not made of bytes is refused. -/
def blob (c : LengthConstraint) : Codec where
  description := "raw bytes of " ++ c.description
  constraint := c
  read length := return .blob (← Reader.take length)
  write value _ := raise (value.typeFault "blob")
  naturalLength value := raise (value.typeFault "blob")

def uintFits (value : Value) (width : Nat) : Bool :=
  match value.asUint? with
  | some v => Integer.unsignedWidth v ≤ width && width ≤ 8
  | none => false

def uint (c : LengthConstraint) : Codec where
  description := "unsigned integer of " ++ c.description
  constraint := c
  read length := return .uint (← Integer.readUnsigned length)
  write value length := do
    Integer.writeUnsigned (← Encoder.ofExcept value.requireUint) length
  naturalLength value := return c.fit (Integer.unsignedWidth (← value.requireUint))
  fits := uintFits

def sintFits (value : Value) (width : Nat) : Bool :=
  match value.asSint? with
  | some v => Integer.signedWidth v ≤ width && width ≤ 8
  | none => false

def sint (c : LengthConstraint) : Codec where
  description := "signed integer of " ++ c.description
  constraint := c
  read length := return .sint (← Integer.readSigned length)
  write value length := do
    Integer.writeSigned (← Encoder.ofExcept value.requireSint) length
  naturalLength value := return c.fit (Integer.signedWidth (← value.requireSint))
  fits := sintFits

/-- An unsigned integer in the form tags have. -/
def berOid : Codec where
  description := "BER-OID integer of " ++ LengthConstraint.free.description
  constraint := .free
  read _ := return .uint (← Ber.readTag)
  write value _ := do Ber.writeTag (← Encoder.ofExcept value.requireUint)
  naturalLength value := return Ber.tagWidth (← value.requireUint)

def printName (name : String) (names : Names) (value : Value) : String :=
  match value.asUint? with
  | some v => (names.nameOf v).getD s!"Unknown {name} ({v.toNat})"
  | none => value.display

/-- An unsigned integer whose values have names. -/
def enumeration (name : String) (c : LengthConstraint) (names : Names) : Codec :=
  { uint c with
    description := s!"{name} enumeration of " ++ c.description
    print := printName name names }

/-- A truth value in one byte. -/
def bool : Codec where
  description := "boolean of " ++ (LengthConstraint.exactly 1).description
  constraint := .exactly 1
  read _ := return .bool (← Reader.bool)
  write value _ := do
    Encoder.emit [if ← Encoder.ofExcept value.requireBool then 1 else 0]
  naturalLength _ := .ok 1

/-- A double fits eight bytes, and four if a single equals it or it is no number. -/
def floatFits (value : Value) (width : Nat) : Bool :=
  match value.asFloat?, width with
  | some _, 8 => true
  | some v, 4 => v.isNaN || (Binary64.ofSingleBits v.toSingleBits).equals v
  | _, _ => false

def float (c : LengthConstraint) : Codec where
  description := "IEEE-754 float of " ++ c.description
  constraint := c
  read length := return .float (← Floating.read length)
  write value length := do Floating.write (← Encoder.ofExcept value.requireFloat) length
  naturalLength value := do
    let _ ← value.requireFloat
    return c.suggestedOr 8
  fits := floatFits

def imapFits (value : Value) (width : Nat) : Bool :=
  match value.asImap? with
  | some v => v.minLength ≤ width && width ≤ 8
  | none => false

/-- A scaled real number. -/
def imap (low high : Binary64) (c : LengthConstraint) : Codec where
  description := "IMAP real number in range " ++ Fault.domainText low high ++ " of " ++
    c.description
  constraint := c
  read length := return .ofImap (← Imap.read low high length)
  write value length := do
    Imap.write (← Encoder.ofExcept value.requireImap) low high length
  naturalLength value := return max (c.suggestedOr 8) (← value.requireImap).minLength
  fits := imapFits

/-- A linearly mapped real number. -/
def linear (signed : Bool) (low high : Binary64) (c : LengthConstraint) : Codec where
  description := (if signed then "signed" else "unsigned") ++
    " mapped real number in range " ++ Fault.domainText low high ++ " of " ++ c.description
  constraint := c
  read length :=
    if signed then return .float (← Linear.readSigned low high length)
    else return .float (← Linear.readUnsigned low high length)
  write value length := do
    let v ← Encoder.ofExcept value.requireFloat
    if signed then Linear.writeSigned v low high length
    else Linear.writeUnsigned v low high length
  naturalLength value := do
    let _ ← value.requireFloat
    return c.fixedOr 8

/-- What stands for a text of no characters, so that it is not taken for no text at all. -/
def emptyText : Bytes := [0]

/-- Text. How many characters it may have is part of the description and not enforced. -/
def text (encoding : Text.Encoding) (characters c : LengthConstraint) : Codec where
  description := s!"{encoding.name} string of " ++ c.description ++
    (if characters.isFree then "" else " (characters: " ++ characters.description ++ ")")
  constraint := c
  read length := do
    let start ← Reader.position
    let bytes ← Reader.take length
    if bytes == emptyText then
      return .string ""
    match encoding.decode bytes with
    | .ok text => return .string text
    | .error e => throw (e.atByte start)
  write value _ := do
    let text ← Encoder.ofExcept value.requireString
    if text.isEmpty then Encoder.emit emptyText
    else Encoder.emit (← Encoder.ofExcept (encoding.encode text))
  naturalLength value := do
    let text ← value.requireString
    return if text.isEmpty then emptyText.length else encoding.width text

end Codec

end MotionMetadata
