import MotionMetadata.Error
import MotionMetadata.Text.Utf8

/-!
# Text encodings

The three encodings a text field can have. Decoding refuses what is not well-formed,
encoding what the encoding has no bytes for, which only ASCII can.
-/

namespace MotionMetadata.Text

/-! ## UTF-16, big-endian -/

/-- The one or two units of a character. -/
def units (c : Char) : List Nat :=
  let n := c.toNat
  if n < 0x10000 then [n]
  else [0xD800 + (n - 0x10000) / 0x400, 0xDC00 + (n - 0x10000) % 0x400]

/-- The units of an even number of bytes. -/
def unitsOfBytes : Bytes → List Nat
  | a :: b :: rest => (a.toNat * 256 + b.toNat) :: unitsOfBytes rest
  | _ => []

def isHighSurrogate (u : Nat) : Bool := 0xD800 ≤ u && u ≤ 0xDBFF

def isLowSurrogate (u : Nat) : Bool := 0xDC00 ≤ u && u ≤ 0xDFFF

/-- The characters of a list of units, or the first surrogate without its other half. -/
def charsOfUnits : List Nat → Except Nat (List Char)
  | [] => .ok []
  | [u] =>
    if isHighSurrogate u || isLowSurrogate u then .error u else .ok [Char.ofNat u]
  | u :: v :: rest =>
    if isLowSurrogate u then .error u
    else if isHighSurrogate u then
      if isLowSurrogate v then
        (charsOfUnits rest).map
          (Char.ofNat (0x10000 + (u - 0xD800) * 0x400 + (v - 0xDC00)) :: ·)
      else .error u
    else (charsOfUnits (v :: rest)).map (Char.ofNat u :: ·)

/-! ## Encodings -/

inductive Encoding where
  | ascii
  | utf8
  | utf16
deriving DecidableEq

namespace Encoding

def name : Encoding → String
  | ascii => "ASCII"
  | utf8 => "UTF-8"
  | utf16 => "UTF-16BE"

/-- The first byte that is not ASCII, with its index. -/
def firstBeyondAscii (index : Nat) : Bytes → Option (UInt8 × Nat)
  | [] => none
  | b :: rest => if b.toNat < 0x80 then firstBeyondAscii (index + 1) rest else some (b, index)

def decode : Encoding → Bytes → Except Error String
  | ascii, bytes =>
    match firstBeyondAscii 0 bytes with
    | some (b, index) => raise (.byteNotAscii b index)
    | none => .ok (String.ofList (bytes.map fun b => Char.ofNat b.toNat))
  | utf8, bytes =>
    match Utf8.decode bytes with
    | .ok text => .ok text
    | .error f => raise (.notUtf8 f.message)
  | utf16, bytes =>
    if bytes.length % 2 ≠ 0 then raise (.oddUtf16 bytes.length)
    else
      match charsOfUnits (unitsOfBytes bytes) with
      | .ok chars => .ok (String.ofList chars)
      | .error u =>
        raise (.notUtf16 ("unpaired surrogate found: " ++ String.ofList (Nat.toDigits 16 u)))

def encode : Encoding → String → Except Error Bytes
  | ascii, text =>
    if text.toList.all (·.toNat < 0x80) then .ok (Utf8.encode text)
    else raise (.textNotAscii text)
  | utf8, text => .ok (Utf8.encode text)
  | utf16, text => .ok ((text.toList.flatMap units).flatMap (BigEndian.bytes 2))

/-- The number of bytes `text` takes, also when `encode` refuses it. -/
def width : Encoding → String → Nat
  | ascii, text => (Utf8.encode text).length
  | utf8, text => (Utf8.encode text).length
  | utf16, text => 2 * (text.toList.flatMap units).length

end Encoding

end MotionMetadata.Text
