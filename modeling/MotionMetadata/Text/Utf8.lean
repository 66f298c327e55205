import MotionMetadata.Bytes

/-!
# UTF-8

A decoder that says where it stopped and why. The bytes of the first ill-formed sequence are
counted the way the Unicode standard recommends: as far as they could still start a
character. A sequence the text ends inside of has no count.
-/

namespace MotionMetadata.Text.Utf8

/-- Where the well-formed text ends, and the length of the ill-formed sequence there unless
the text just ends too early. -/
structure Fault where
  index : Nat
  length : Option Nat
deriving DecidableEq

def Fault.message (f : Fault) : String :=
  match f.length with
  | some n => s!"invalid utf-8 sequence of {n} bytes from index {f.index}"
  | none => s!"incomplete utf-8 byte sequence from index {f.index}"

def isTail (b : UInt8) : Bool := 0x80 ≤ b.toNat && b.toNat ≤ 0xBF

/-- The six bits a tail byte carries. -/
def tailBits (b : UInt8) : Nat := b.toNat % 64

/-- The bytes that may follow a lead byte of three. The ends leave out what two bytes can
spell, and the surrogates. -/
def secondOfThree (lead b : UInt8) : Bool :=
  isTail b && (lead.toNat != 0xE0 || 0xA0 ≤ b.toNat) && (lead.toNat != 0xED || b.toNat ≤ 0x9F)

/-- The bytes that may follow a lead byte of four. The ends leave out what three bytes can
spell, and what lies past the last code point. -/
def secondOfFour (lead b : UInt8) : Bool :=
  isTail b && (lead.toNat != 0xF0 || 0x90 ≤ b.toNat) && (lead.toNat != 0xF4 || b.toNat ≤ 0x8F)

/-- The character that starts with `lead` and goes on in `rest`, with the number of bytes it
takes from `rest`; or the length of the ill-formed sequence. -/
def character (lead : UInt8) (rest : Bytes) : Except (Option Nat) (Char × Nat) :=
  let a := lead.toNat
  if a < 0x80 then .ok (Char.ofNat a, 0)
  else if 0xC2 ≤ a && a ≤ 0xDF then
    match rest with
    | [] => .error none
    | b :: _ =>
      if isTail b then .ok (Char.ofNat (a % 32 * 64 + tailBits b), 1) else .error (some 1)
  else if 0xE0 ≤ a && a ≤ 0xEF then
    match rest with
    | [] => .error none
    | b :: rest =>
      if !secondOfThree lead b then .error (some 1) else
        match rest with
        | [] => .error none
        | c :: _ =>
          if isTail c then .ok (Char.ofNat ((a % 16 * 64 + tailBits b) * 64 + tailBits c), 2)
          else .error (some 2)
  else if 0xF0 ≤ a && a ≤ 0xF4 then
    match rest with
    | [] => .error none
    | b :: rest =>
      if !secondOfFour lead b then .error (some 1) else
        match rest with
        | [] => .error none
        | c :: rest =>
          if !isTail c then .error (some 2) else
            match rest with
            | [] => .error none
            | d :: _ =>
              if isTail d then
                .ok (Char.ofNat
                  (((a % 8 * 64 + tailBits b) * 64 + tailBits c) * 64 + tailBits d), 3)
              else .error (some 3)
  else .error (some 1)

/-- The characters of a text that starts at `index` of the whole. -/
def decodeFrom (index : Nat) : Bytes → Except Fault (List Char)
  | [] => .ok []
  | lead :: rest =>
    match character lead rest with
    | .error length => .error ⟨index, length⟩
    | .ok (c, tails) =>
      match decodeFrom (index + tails + 1) (rest.drop tails) with
      | .error f => .error f
      | .ok chars => .ok (c :: chars)
termination_by bytes => bytes.length
decreasing_by simp only [List.length_drop, List.length_cons]; omega

def decode (bytes : Bytes) : Except Fault String := (decodeFrom 0 bytes).map String.ofList

def encodeChars (chars : List Char) : Bytes := chars.flatMap String.utf8EncodeChar

def encode (text : String) : Bytes := encodeChars text.toList

end MotionMetadata.Text.Utf8
