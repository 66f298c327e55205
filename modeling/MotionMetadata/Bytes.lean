/-!
# Byte strings and big-endian numbers

Every number on the wire is written most significant byte first. The functions here work on
natural numbers of any size. That a number fits its width is the caller's business: a
narrower width keeps the low bytes.
-/

namespace MotionMetadata

abbrev Bytes := List UInt8

/-- The number of binary digits of `n`, none for zero. -/
def bitLength (n : Nat) : Nat := if n = 0 then 0 else Nat.log2 n + 1

/-- `⌈n / d⌉`. -/
def ceilDiv (n d : Nat) : Nat := (n + d - 1) / d

namespace BigEndian

/-- The number a byte string spells. -/
def value (bytes : Bytes) : Nat := bytes.foldl (fun high b => high * 256 + b.toNat) 0

/-- The `width` low bytes of `n`. -/
def bytes : (width n : Nat) → Bytes
  | 0, _ => []
  | width + 1, n => bytes width (n / 256) ++ [UInt8.ofNat (n % 256)]

end BigEndian

/-- The offset of the first place where `pattern` occurs. -/
def Bytes.offsetOf? (pattern : Bytes) : Bytes → Option Nat
  | [] => if pattern.isEmpty then some 0 else none
  | b :: rest =>
    if pattern.isPrefixOf (b :: rest) then some 0 else (offsetOf? pattern rest).map (· + 1)

end MotionMetadata
