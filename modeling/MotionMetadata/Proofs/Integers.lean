import Mathlib.Data.List.Induction
import Mathlib.Order.Bounds.Defs
import Mathlib.Tactic.Ring
import MotionMetadata.Integer
import MotionMetadata.Key
import MotionMetadata.Proofs.Reading
import MotionMetadata.Proofs.Writing

/-!
# Fixed-width integers, there and back

Big-endian bytes and numbers below `256 ^ width` are the same thing, and the widths that the
library computes are the least that a number fits. Everything a fixed-width field needs comes
from those two facts: what is read from some bytes is written in the same width as the same
bytes, sign included.
-/

namespace MotionMetadata

/-! ## Digits -/

theorem bitLength_le_iff {n k : Nat} : bitLength n ≤ k ↔ n < 2 ^ k := by
  rw [bitLength]
  split
  · next h =>
      subst h
      simp
  · next h => exact Nat.log2_lt h

theorem ceilDiv_le_iff {n d k : Nat} (hd : 0 < d) : ceilDiv n d ≤ k ↔ n ≤ k * d := by
  rw [ceilDiv, Nat.div_le_iff_le_mul_add_pred hd, Nat.mul_comm d k]
  omega

namespace BigEndian

theorem foldl_eq (high : Nat) (bytes : Bytes) :
    bytes.foldl (fun high b => high * 256 + b.toNat) high =
      high * 256 ^ bytes.length + value bytes := by
  induction bytes generalizing high with
  | nil => simp [value]
  | cons b rest ih =>
      rw [value, List.foldl_cons, List.foldl_cons, ih, ih (0 * 256 + b.toNat), List.length_cons,
        Nat.pow_succ]
      ring

theorem value_append (front back : Bytes) :
    value (front ++ back) = value front * 256 ^ back.length + value back := by
  rw [value, List.foldl_append, foldl_eq]
  rfl

theorem value_concat (front : Bytes) (b : UInt8) :
    value (front ++ [b]) = value front * 256 + b.toNat := by
  rw [value_append]
  simp [value]

theorem value_cons (b : UInt8) (rest : Bytes) :
    value (b :: rest) = b.toNat * 256 ^ rest.length + value rest := by
  rw [← List.singleton_append, value_append]
  simp [value]

theorem value_lt (bytes : Bytes) : value bytes < 256 ^ bytes.length := by
  induction bytes with
  | nil => simp [value]
  | cons b rest ih =>
      have hb := b.toNat_lt
      rw [value_cons, List.length_cons, Nat.pow_succ]
      have : b.toNat * 256 ^ rest.length ≤ 255 * 256 ^ rest.length :=
        Nat.mul_le_mul_right _ (by omega)
      omega

theorem value_bytes (width n : Nat) : value (bytes width n) = n % 256 ^ width := by
  induction width generalizing n with
  | zero => simp [bytes, value, Nat.mod_one]
  | succ width ih =>
      rw [bytes, value_concat, ih, Nat.pow_succ, Nat.mul_comm (256 ^ width) 256, Nat.mod_mul]
      have : (UInt8.ofNat (n % 256)).toNat = n % 256 := by simp
      omega

theorem bytes_value (data : Bytes) : bytes data.length (value data) = data := by
  induction data using List.reverseRecOn with
  | nil => rfl
  | append_singleton front b ih =>
      have hb := b.toNat_lt
      rw [List.length_append, List.length_singleton, bytes, value_concat]
      have hhigh : (value front * 256 + b.toNat) / 256 = value front := by omega
      have hlow : (value front * 256 + b.toNat) % 256 = b.toNat := by omega
      rw [hhigh, hlow, ih]
      simp

/-- Of a number that has room in as many bytes, they are the spelling. -/
theorem value_eq_iff {data : Bytes} {n : Nat} (hn : n < 256 ^ data.length) :
    value data = n ↔ data = bytes data.length n := by
  constructor
  · intro h
    rw [← h, bytes_value]
  · intro h
    rw [h, value_bytes, Nat.mod_eq_of_lt hn]

/-- Only the low bytes of a number are written. -/
theorem bytes_mod (width n : Nat) : bytes width (n % 256 ^ width) = bytes width n := by
  have h := bytes_value (bytes width n)
  rwa [length_bytes, value_bytes] at h

end BigEndian

namespace Integer

theorem widthAllowed_iff {width : Nat} : widthAllowed width = true ↔ 1 ≤ width ∧ width ≤ 8 := by
  simp [widthAllowed]

/-! ## Unsigned integers -/

theorem pow_256 (width : Nat) : 256 ^ width = 2 ^ (8 * width) := by
  rw [Nat.pow_mul]

theorem pow_256_eq_double {width : Nat} (hpos : 1 ≤ width) :
    256 ^ width = 2 * 2 ^ (8 * width - 1) := by
  rw [pow_256, ← Nat.pow_succ']
  congr 1
  omega

theorem pow_256_dvd {width : Nat} (hle : width ≤ 8) : 256 ^ width ∣ 2 ^ 64 := by
  rw [pow_256]
  exact Nat.pow_dvd_pow 2 (by omega)

theorem two_pow_int (width : Nat) : (2 ^ (8 * width) : Int) = ((256 ^ width : Nat) : Int) := by
  rw [pow_256, Nat.cast_pow, Nat.cast_ofNat]

theorem half_pow_int (width : Nat) :
    (2 ^ (8 * width - 1) : Int) = ((2 ^ (8 * width - 1) : Nat) : Int) := by
  rw [Nat.cast_pow, Nat.cast_ofNat]

theorem unsignedWidth_le_iff {v : UInt64} {width : Nat} :
    unsignedWidth v ≤ width ↔ 1 ≤ width ∧ v.toNat < 256 ^ width := by
  rw [unsignedWidth, Nat.max_le, ceilDiv_le_iff (by decide), bitLength_le_iff, pow_256,
    Nat.mul_comm width 8]

theorem unsignedWidth_le_eight (v : UInt64) : unsignedWidth v ≤ 8 :=
  unsignedWidth_le_iff.2 ⟨by decide, v.toNat_lt⟩

theorem one_le_unsignedWidth (v : UInt64) : 1 ≤ unsignedWidth v := Nat.le_max_left _ _

theorem toNat_value_of_le {data : Bytes} (h : data.length ≤ 8) :
    (UInt64.ofNat (BigEndian.value data)).toNat = BigEndian.value data := by
  rw [UInt64.toNat_ofNat']
  refine Nat.mod_eq_of_lt (Nat.lt_of_lt_of_le (BigEndian.value_lt data) ?_)
  exact Nat.pow_le_pow_right (by decide) h

theorem readUnsigned_eq_ok {width : Nat} {c d : Cursor} {v : UInt64} :
    readUnsigned width c = .ok v d ↔
      (1 ≤ width ∧ width ≤ 8) ∧ width ≤ c.rest.length ∧
        v = UInt64.ofNat (BigEndian.value (c.rest.take width)) ∧ d = c.advance width := by
  rw [readUnsigned]
  by_cases hw : widthAllowed width
  · rw [if_pos hw, Reader.bind_eq_ok]
    constructor
    · rintro ⟨bytes, c', htake, hpure⟩
      obtain ⟨hle, rfl, rfl⟩ := Reader.take_eq_ok.1 htake
      injection hpure with hv hd
      exact ⟨widthAllowed_iff.1 hw, hle, hv.symm, hd.symm⟩
    · rintro ⟨_, hle, rfl, rfl⟩
      exact ⟨_, _, Reader.take_eq_ok.2 ⟨hle, rfl, rfl⟩, rfl⟩
  · rw [if_neg hw]
    constructor
    · intro h
      cases h
    · rintro ⟨hallowed, _⟩
      exact absurd (widthAllowed_iff.2 hallowed) hw

theorem reads_value (data : Bytes) (hpos : 1 ≤ data.length) (hle : data.length ≤ 8) :
    Reader.Reads (readUnsigned data.length) data (UInt64.ofNat (BigEndian.value data)) := by
  intro c t hc
  refine readUnsigned_eq_ok.2 ⟨⟨hpos, hle⟩, ?_, ?_, rfl⟩
  · rw [hc, List.length_append]
    omega
  · rw [hc, List.take_left]

theorem reads_bytes {width : Nat} (hpos : 1 ≤ width) (hle : width ≤ 8) (n : Nat) :
    Reader.Reads (readUnsigned width) (BigEndian.bytes width n)
      (UInt64.ofNat (n % 256 ^ width)) := by
  have hlength := BigEndian.length_bytes width n
  have h := reads_value (BigEndian.bytes width n) (by omega) (by omega)
  rwa [hlength, BigEndian.value_bytes] at h

/-- Of as many bytes as are read, the number tells which they are. -/
theorem ofNat_value_eq_iff (data : Bytes) (v : UInt64) (hle : data.length ≤ 8)
    (hv : v.toNat < 256 ^ data.length) :
    UInt64.ofNat (BigEndian.value data) = v ↔ data = BigEndian.bytes data.length v.toNat := by
  rw [← UInt64.toNat_inj, toNat_value_of_le hle, BigEndian.value_eq_iff hv]

theorem writeUnsigned_eq_ok {v : UInt64} {width position : Nat} {bytes : Bytes} :
    writeUnsigned v width position = .ok ((), bytes) ↔
      (1 ≤ width ∧ width ≤ 8) ∧ v.toNat < 256 ^ width ∧
        bytes = BigEndian.bytes width v.toNat := by
  rw [writeUnsigned]
  dsimp only
  rw [Encoder.unless_eq_ok (by rintro _ ⟨⟩), Encoder.unless_eq_ok (by rintro _ ⟨⟩),
    Encoder.emit_eq_ok, widthAllowed_iff]
  exact and_congr_right fun hallowed =>
    and_congr_left' (unsignedWidth_le_iff.trans (and_iff_right hallowed.1))

/-- An integer read from some bytes is written as those bytes. -/
theorem writeUnsigned_value {data : Bytes} (hpos : 1 ≤ data.length) (hle : data.length ≤ 8)
    (position : Nat) :
    writeUnsigned (UInt64.ofNat (BigEndian.value data)) data.length position =
      .ok ((), data) := by
  refine writeUnsigned_eq_ok.2 ⟨⟨hpos, hle⟩, ?_, ?_⟩
  · rw [toNat_value_of_le hle]
    exact BigEndian.value_lt data
  · rw [toNat_value_of_le hle, BigEndian.bytes_value]

theorem reads_writeUnsigned {v : UInt64} {width position : Nat} {bytes : Bytes}
    (h : writeUnsigned v width position = .ok ((), bytes)) :
    Reader.Reads (readUnsigned width) bytes v := by
  obtain ⟨⟨hpos, hle⟩, hlt, rfl⟩ := writeUnsigned_eq_ok.1 h
  have hread := reads_bytes hpos hle v.toNat
  rwa [Nat.mod_eq_of_lt hlt, UInt64.ofNat_toNat] at hread

/-- A byte is written as the byte it is. -/
theorem writeUnsigned_byte {v : UInt64} {b : UInt8} (h : v.toNat = b.toNat) (position : Nat) :
    writeUnsigned v 1 position = .ok ((), [b]) := by
  have hv : v = UInt64.ofNat (BigEndian.value [b]) := by
    refine UInt64.toNat_inj.1 ?_
    rw [toNat_value_of_le (by simp), h, BigEndian.value_cons]
    simp [BigEndian.value]
  have hone : 1 ≤ [b].length ∧ [b].length ≤ 8 := by simp
  rw [hv]
  exact writeUnsigned_value hone.1 hone.2 position

theorem byte_of_writeUnsigned {v : UInt64} {position : Nat} {bytes : Bytes}
    (h : writeUnsigned v 1 position = .ok ((), bytes)) :
    ∃ b : UInt8, bytes = [b] ∧ b.toNat = v.toNat := by
  obtain ⟨-, hlt, rfl⟩ := writeUnsigned_eq_ok.1 h
  refine ⟨UInt8.ofNat (v.toNat % 256), rfl, ?_⟩
  rw [UInt8.toNat_ofNat', Nat.mod_mod]
  omega

theorem ofNat_eq {v : UInt64} {n : Nat} (h : n = v.toNat) : UInt64.ofNat n = v := by
  rw [h, UInt64.ofNat_toNat]

/-! ## Signed integers -/

theorem signedWidth_le_iff {v : Int64} {width : Nat} :
    signedWidth v ≤ width ↔
      1 ≤ width ∧ -(2 ^ (8 * width - 1) : Int) ≤ v.toInt ∧ v.toInt < 2 ^ (8 * width - 1) := by
  rw [signedWidth, ceilDiv_le_iff (by decide)]
  have hbits : bitLength (significant v) + 1 ≤ width * 8 ↔
      1 ≤ width ∧ significant v < 2 ^ (8 * width - 1) := by
    rw [← bitLength_le_iff]
    omega
  rw [hbits]
  rw [half_pow_int, significant]
  -- Of a negative number the digits are those of its distance from minus one.
  cases v.toInt with
  | ofNat n =>
      simp only [Int.ofNat_eq_natCast]
      omega
  | negSucc n =>
      dsimp only
      omega

/-- What an integer looks like modulo the numbers of 64 bits. -/
theorem toUInt64_toNat (v : Int64) : (v.toUInt64.toNat : Int) = v.toInt % 2 ^ 64 := by
  have hlt := v.toUInt64.toNat_lt
  have hcond : v.toInt = if 2 * v.toUInt64.toNat < 2 ^ 64 then (v.toUInt64.toNat : Int)
      else (v.toUInt64.toNat : Int) - (2 ^ 64 : Nat) :=
    BitVec.toInt_eq_toNat_cond v.toBitVec
  split at hcond <;> omega

theorem toInt_signExtend {width raw : Nat} (hpos : 1 ≤ width) (hle : width ≤ 8)
    (hraw : raw < 256 ^ width) :
    (signExtend width (UInt64.ofNat raw)).toInt =
      if raw < 2 ^ (8 * width - 1) then (raw : Int) else raw - 2 ^ (8 * width) := by
  have hwide : 256 ^ width ≤ 2 ^ 64 := Nat.le_of_dvd (by decide) (pow_256_dvd hle)
  have hhalf := pow_256_eq_double hpos
  have htoNat : (UInt64.ofNat raw).toNat = raw := by
    rw [UInt64.toNat_ofNat']
    exact Nat.mod_eq_of_lt (by omega)
  rw [signExtend, htoNat]
  split
  · exact Int64.toInt_ofInt_of_le (by omega) (by omega)
  · rw [two_pow_int]
    exact Int64.toInt_ofInt_of_le (by omega) (by omega)

/-- Moved to the top, digits have their sign for the first bit, and a turn there is a turn of
the digits moved up. -/
theorem toInt_movedUp {width raw : Nat} (hpos : 1 ≤ width) (hle : width ≤ 8)
    (hraw : raw < 256 ^ width) :
    (UInt64.ofNat raw <<< UInt64.ofNat (64 - 8 * width)).toBitVec.toInt =
      (if raw < 2 ^ (8 * width - 1) then (raw : Int) else raw - 2 ^ (8 * width)) *
        ((2 ^ (64 - 8 * width) : Nat) : Int) := by
  have hcount : ∀ w < 9, 1 ≤ w → (UInt64.ofNat (64 - 8 * w)).toNat % 64 = 64 - 8 * w := by decide
  have hup := hcount width (by omega) hpos
  have hturn : 256 ^ width * 2 ^ (64 - 8 * width) = 2 ^ 64 := by
    rw [pow_256, ← Nat.pow_add]
    congr 1
    omega
  generalize 64 - 8 * width = shift at *
  have hshift : 0 < 2 ^ shift := Nat.two_pow_pos shift
  have hmoved : (UInt64.ofNat raw <<< UInt64.ofNat shift).toNat = raw * 2 ^ shift := by
    have hlt : raw * 2 ^ shift < 2 ^ 64 := hturn ▸ Nat.mul_lt_mul_of_pos_right hraw hshift
    have hsmall : raw < 2 ^ 64 := Nat.lt_of_le_of_lt (Nat.le_mul_of_pos_right raw hshift) hlt
    rw [UInt64.toNat_shiftLeft, hup, Nat.shiftLeft_eq, UInt64.toNat_ofNat',
      Nat.mod_eq_of_lt hsmall, Nat.mod_eq_of_lt hlt]
  have hsign : 2 * (raw * 2 ^ shift) < 2 * (2 ^ (8 * width - 1) * 2 ^ shift) ↔
      raw < 2 ^ (8 * width - 1) := by
    rw [Nat.mul_lt_mul_left Nat.two_pos, Nat.mul_lt_mul_right hshift]
  rw [BitVec.toInt_eq_toNat_cond, UInt64.toNat_toBitVec, hmoved, ← hturn,
    pow_256_eq_double hpos, Nat.mul_assoc, two_pow_int, pow_256_eq_double hpos]
  simp only [hsign]
  split
  · push_cast
    ring
  · push_cast
    ring

/-- Digits that are moved to the top and back again, the sign filling up behind them, are
extended by their sign. -/
theorem signExtend_eq_shifts {width raw : Nat} (hpos : 1 ≤ width) (hle : width ≤ 8)
    (hraw : raw < 256 ^ width) :
    signExtend width (UInt64.ofNat raw) =
      (UInt64.ofNat raw <<< UInt64.ofNat (64 - 8 * width)).toInt64 >>>
        Int64.ofNat (64 - 8 * width) := by
  have hcount : ∀ w < 9, 1 ≤ w →
      ((Int64.ofNat (64 - 8 * w)).toBitVec.smod 64).toNat = 64 - 8 * w := by decide
  refine Int64.toInt_inj.1 ?_
  rw [toInt_signExtend hpos hle hraw, ← Int64.toInt_toBitVec, Int64.toBitVec_shiftRight,
    BitVec.sshiftRight', hcount width (by omega) hpos, BitVec.toInt_sshiftRight,
    Int.shiftRight_eq_div_pow]
  show _ = (UInt64.ofNat raw <<< UInt64.ofNat (64 - 8 * width)).toBitVec.toInt / _
  have hshift := Nat.two_pow_pos (64 - 8 * width)
  rw [toInt_movedUp hpos hle hraw, Int.mul_ediv_cancel _ (by omega)]
theorem readSigned_eq_ok {width : Nat} {c d : Cursor} {v : Int64} :
    readSigned width c = .ok v d ↔
      (1 ≤ width ∧ width ≤ 8) ∧ width ≤ c.rest.length ∧
        v = signExtend width (UInt64.ofNat (BigEndian.value (c.rest.take width))) ∧
        d = c.advance width := by
  rw [readSigned, Reader.bind_eq_ok]
  constructor
  · rintro ⟨raw, c', hread, hpure⟩
    obtain ⟨hw, hle, rfl, rfl⟩ := readUnsigned_eq_ok.1 hread
    injection hpure with hv hd
    exact ⟨hw, hle, hv.symm, hd.symm⟩
  · rintro ⟨hw, hle, rfl, rfl⟩
    exact ⟨_, _, readUnsigned_eq_ok.2 ⟨hw, hle, rfl, rfl⟩, rfl⟩

theorem writeSigned_eq_ok {v : Int64} {width position : Nat} {bytes : Bytes} :
    writeSigned v width position = .ok ((), bytes) ↔
      (1 ≤ width ∧ width ≤ 8) ∧ signedWidth v ≤ width ∧
        bytes = BigEndian.bytes width v.toUInt64.toNat := by
  rw [writeSigned]
  dsimp only
  rw [Encoder.unless_eq_ok (by rintro _ ⟨⟩), Encoder.unless_eq_ok (by rintro _ ⟨⟩),
    Encoder.emit_eq_ok, widthAllowed_iff]

/-- A signed integer is read from the low bytes of its two's complement. -/
theorem reads_writeSigned {v : Int64} {width position : Nat} {bytes : Bytes}
    (h : writeSigned v width position = .ok ((), bytes)) :
    Reader.Reads (readSigned width) bytes v := by
  obtain ⟨⟨hpos, hle⟩, hwidth, rfl⟩ := writeSigned_eq_ok.1 h
  obtain ⟨_, hlow, hhigh⟩ := signedWidth_le_iff.1 hwidth
  have hpow := pow_256_dvd hle
  have hhalf := pow_256_eq_double hpos
  have hraw : v.toUInt64.toNat % 256 ^ width < 256 ^ width := Nat.mod_lt _ (Nat.pow_pos (by decide))
  have hmod : ((v.toUInt64.toNat % 256 ^ width : Nat) : Int) =
      v.toInt % ((256 ^ width : Nat) : Int) := by
    rw [Int.natCast_emod, toUInt64_toNat, Int.emod_emod_of_dvd _ (by exact_mod_cast hpow)]
  rw [half_pow_int] at hlow hhigh
  -- A number that is not negative is its own remainder, and the others are one turn below.
  have hvalue : signExtend width (UInt64.ofNat (v.toUInt64.toNat % 256 ^ width)) = v := by
    refine Int64.toInt_inj.1 ?_
    rw [toInt_signExtend hpos hle hraw, two_pow_int]
    rcases Int.lt_or_le v.toInt 0 with hneg | hnonneg
    · rw [← Int.add_emod_right, Int.emod_eq_of_lt (by omega) (by omega)] at hmod
      rw [if_neg (by omega)]
      omega
    · rw [Int.emod_eq_of_lt hnonneg (by omega)] at hmod
      rw [if_pos (by omega)]
      exact hmod
  intro c t hc
  rw [readSigned, Reader.bind_of_ok (reads_bytes hpos hle _ c t hc), hvalue]
  rfl

section SignedField

variable {data : Bytes}

theorem signedWidth_value_le (hpos : 1 ≤ data.length) (hle : data.length ≤ 8) :
    signedWidth (signExtend data.length (UInt64.ofNat (BigEndian.value data))) ≤
      data.length := by
  have hraw := BigEndian.value_lt data
  have hhalf := pow_256_eq_double hpos
  rw [signedWidth_le_iff, toInt_signExtend hpos hle hraw, two_pow_int, half_pow_int]
  split <;> omega

/-- A signed integer read from some bytes is written as those bytes. -/
theorem writeSigned_value (hpos : 1 ≤ data.length) (hle : data.length ≤ 8) (position : Nat) :
    writeSigned (signExtend data.length (UInt64.ofNat (BigEndian.value data))) data.length
      position = .ok ((), data) := by
  refine writeSigned_eq_ok.2 ⟨⟨hpos, hle⟩, signedWidth_value_le hpos hle, ?_⟩
  have hraw := BigEndian.value_lt data
  have hmod := toUInt64_toNat (signExtend data.length (UInt64.ofNat (BigEndian.value data)))
  have hpow := pow_256_dvd hle
  -- Whatever the sign, the low bytes are those that were read.
  have hlow : (signExtend data.length (UInt64.ofNat (BigEndian.value data))).toUInt64.toNat %
      256 ^ data.length = BigEndian.value data := by
    refine Int.ofNat_inj.1 ?_
    rw [Int.natCast_emod, hmod, Int.emod_emod_of_dvd _ (by exact_mod_cast hpow),
      toInt_signExtend hpos hle hraw]
    split
    · exact Int.emod_eq_of_lt (by omega) (by omega)
    · rw [two_pow_int, Int.sub_emod_right]
      exact Int.emod_eq_of_lt (by omega) (by omega)
  rw [← BigEndian.bytes_mod, hlow, BigEndian.bytes_value]

end SignedField

/-! ## Fields of a fixed width -/

/-- Reading and writing integers of one kind belong together. `hasRoom` says of which integers a
width has the digits, and `least` is the width that is worked out for an integer. -/
structure Exact {α : Type} (read : Nat → Reader α) (write : α → Nat → Encoder Unit)
    (hasRoom : Nat → α → Prop) (least : α → Nat) : Prop where
  writes_iff (v : α) (width position : Nat) :
    (∃ bytes, write v width position = .ok ((), bytes)) ↔
      (1 ≤ width ∧ width ≤ 8) ∧ hasRoom width v
  comes_back {v : α} {width position : Nat} {bytes : Bytes}
    (h : write v width position = .ok ((), bytes)) :
    bytes.length = width ∧ Reader.Reads (read width) bytes v
  reads_iff (width : Nat) (c : Cursor) :
    (∃ v d, read width c = .ok v d) ↔ (1 ≤ width ∧ width ≤ 8) ∧ width ≤ c.rest.length
  rewritten {width : Nat} {c d : Cursor} {v : α} (h : read width c = .ok v d) (position : Nat) :
    d = c.advance width ∧ write v width position = .ok ((), c.rest.take width)
  least_writes (v : α) (position : Nat) :
    IsLeast {width | ∃ bytes, write v width position = .ok ((), bytes)} (least v)

/-- If an integer is written in every allowed width from some width on, that is the least. -/
theorem isLeast_of_writes_iff {α : Type} {write : α → Nat → Encoder Unit} {v : α}
    {least position : Nat} (hpos : 1 ≤ least) (hle : least ≤ 8)
    (hwrites : ∀ width, (∃ bytes, write v width position = .ok ((), bytes)) ↔
      (1 ≤ width ∧ width ≤ 8) ∧ least ≤ width) :
    IsLeast {width | ∃ bytes, write v width position = .ok ((), bytes)} least :=
  ⟨(hwrites least).2 ⟨⟨hpos, hle⟩, Nat.le_refl least⟩, fun width h => ((hwrites width).1 h).2⟩

theorem length_take_of_allowed {c : Cursor} {width : Nat} (hallowed : 1 ≤ width ∧ width ≤ 8)
    (hroom : width ≤ c.rest.length) :
    (c.rest.take width).length = width ∧ 1 ≤ (c.rest.take width).length ∧
      (c.rest.take width).length ≤ 8 := by
  rw [List.length_take_of_le hroom]
  exact ⟨rfl, hallowed⟩

theorem unsigned_exact :
    Exact readUnsigned writeUnsigned (fun width v => v.toNat < 2 ^ (8 * width))
      unsignedWidth where
  writes_iff v width position := by
    simp only [writeUnsigned_eq_ok, exists_and_left, exists_eq, and_true, pow_256]
  comes_back h := by
    obtain ⟨-, -, rfl⟩ := writeUnsigned_eq_ok.1 h
    exact ⟨BigEndian.length_bytes .., reads_writeUnsigned h⟩
  reads_iff width c := by
    simp only [readUnsigned_eq_ok, exists_and_left, exists_eq, and_true]
  rewritten h position := by
    obtain ⟨hallowed, hroom, rfl, rfl⟩ := readUnsigned_eq_ok.1 h
    obtain ⟨hlength, hpos, hle⟩ := length_take_of_allowed hallowed hroom
    have hwrite := writeUnsigned_value hpos hle position
    rw [hlength] at hwrite
    exact ⟨rfl, hwrite⟩
  least_writes v position := by
    refine isLeast_of_writes_iff (one_le_unsignedWidth v) (unsignedWidth_le_eight v) fun width => ?_
    simp only [writeUnsigned_eq_ok, exists_and_left, exists_eq, and_true]
    exact and_congr_right fun hallowed =>
      (unsignedWidth_le_iff.trans (and_iff_right hallowed.1)).symm

theorem signed_exact :
    Exact readSigned writeSigned
      (fun width v => -(2 ^ (8 * width - 1)) ≤ v.toInt ∧ v.toInt < 2 ^ (8 * width - 1))
      signedWidth where
  writes_iff v width position := by
    simp only [writeSigned_eq_ok, exists_and_left, exists_eq, and_true]
    exact and_congr_right fun hallowed => signedWidth_le_iff.trans (and_iff_right hallowed.1)
  comes_back h := by
    obtain ⟨-, -, rfl⟩ := writeSigned_eq_ok.1 h
    exact ⟨BigEndian.length_bytes .., reads_writeSigned h⟩
  reads_iff width c := by
    simp only [readSigned_eq_ok, exists_and_left, exists_eq, and_true]
  rewritten h position := by
    obtain ⟨hallowed, hroom, rfl, rfl⟩ := readSigned_eq_ok.1 h
    obtain ⟨hlength, hpos, hle⟩ := length_take_of_allowed hallowed hroom
    have hwrite := writeSigned_value hpos hle position
    rw [hlength] at hwrite
    exact ⟨rfl, hwrite⟩
  least_writes v position := by
    have hpos : 1 ≤ signedWidth v :=
      Nat.pos_of_ne_zero fun hzero => absurd (signedWidth_le_iff.1 hzero.le).1 (by decide)
    have hle : signedWidth v ≤ 8 :=
      signedWidth_le_iff.2 ⟨by decide, v.le_toInt, v.toInt_lt⟩
    refine isLeast_of_writes_iff hpos hle fun width => ?_
    simp only [writeSigned_eq_ok, exists_and_left, exists_eq, and_true]

/-- Fields of one to eight bytes hold the unsigned integers below `2 ^ (8 * width)`, or the
signed ones from `-2 ^ (8 * width - 1)` to below `2 ^ (8 * width - 1)`. These are written in so
many bytes and read back from them, whatever follows; all others are refused. What is read from
any bytes is written as these bytes, and the widths that are worked out are the least in which
an integer is written. -/
theorem fixed_widths_exact :
    Exact readUnsigned writeUnsigned (fun width v => v.toNat < 2 ^ (8 * width)) unsignedWidth ∧
      Exact readSigned writeSigned
        (fun width v => -(2 ^ (8 * width - 1)) ≤ v.toInt ∧ v.toInt < 2 ^ (8 * width - 1))
        signedWidth :=
  ⟨unsigned_exact, signed_exact⟩

end Integer

end MotionMetadata
