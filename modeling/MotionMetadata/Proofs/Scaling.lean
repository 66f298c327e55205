import MotionMetadata.Linear
import MotionMetadata.Proofs.Contracts
import MotionMetadata.Proofs.Integers
import MotionMetadata.Value.Record

/-!
# Numbers on a scale

A scaled field is an integer on the wire and a real number in the program, and the way from
one to the other and back goes through the arithmetic of doubles. What an integer of some
width stands for need not lead back to an integer of that width: over a domain narrow enough
the scale itself is infinite, and the largest integer is all that comes out. So the way back
is a condition on the number, `Imap.Rescales` and `Linear.Rescales`, and the only one. The
special values carry what they need with them.
-/

namespace MotionMetadata

namespace Integer

variable {width : Nat}

theorem readUnsigned_yields (width : Nat) :
    (readUnsigned width).Yields fun v => (1 ≤ width ∧ width ≤ 8) ∧ v.toNat < 256 ^ width := by
  intro c v d hread
  obtain ⟨hwidth, hle, rfl, _⟩ := readUnsigned_eq_ok.1 hread
  have hlength := List.length_take_of_le hle
  have hlt := BigEndian.value_lt (c.rest.take width)
  rw [hlength] at hlt
  refine ⟨hwidth, ?_⟩
  rw [toNat_value_of_le (by omega)]
  exact hlt

theorem writeUnsigned_writes {v : UInt64} (hwidth : 1 ≤ width ∧ width ≤ 8)
    (hv : v.toNat < 256 ^ width) : (writeUnsigned v width).Writes width :=
  fun _ => ⟨_, BigEndian.length_bytes width v.toNat, writeUnsigned_eq_ok.2 ⟨hwidth, hv, rfl⟩⟩

theorem readSigned_yields (width : Nat) :
    (readSigned width).Yields fun v => (1 ≤ width ∧ width ≤ 8) ∧ signedWidth v ≤ width := by
  intro c v d hread
  obtain ⟨hwidth, hle, rfl, _⟩ := readSigned_eq_ok.1 hread
  have hlength := List.length_take_of_le hle
  have h := @signedWidth_value_le (c.rest.take width) (by omega) (by omega)
  rw [hlength] at h
  exact ⟨hwidth, h⟩

theorem writeSigned_writes {v : Int64} (hwidth : 1 ≤ width ∧ width ≤ 8)
    (hv : signedWidth v ≤ width) : (writeSigned v width).Writes width :=
  fun _ => ⟨_, BigEndian.length_bytes width v.toUInt64.toNat,
    writeSigned_eq_ok.2 ⟨hwidth, hv, rfl⟩⟩

end Integer

theorem checkDomain_eq_ok {low high : Binary64} {width : Nat} :
    checkDomain low high width = .ok () ↔
      (low.isFinite && high.isFinite && low.lt high) = true ∧ 1 ≤ width ∧ width ≤ 8 := by
  rw [checkDomain]
  cases low.isFinite && high.isFinite && low.lt high with
  | false => simp
  | true =>
      rw [← Integer.widthAllowed_iff]
      cases Integer.widthAllowed width <;> simp

namespace Imap

variable {low high : Binary64} {width : Nat}

/-- A value that was read from a scaled field. -/
structure IsScaled (low high : Binary64) (width : Nat) (v : Value) : Prop where
  domain : checkDomain low high width = .ok ()
  room : ∃ x, v.asImap? = some x ∧ x.minLength ≤ width

/-- The integer that a value of the domain is sent as, worked out anew, is one of the width. -/
def Rescales (low high : Binary64) (width : Nat) (v : Value) : Prop :=
  ∀ x number, v.asImap? = some x → marked low high x = .normal number → number.isFinite →
    (integerOf low high width number).toNat < 256 ^ width

theorem minLength_le_iff {x : Imap} (hpos : 1 ≤ width) :
    x.minLength ≤ width ↔ x.payload.toNat < 2 ^ (8 * width - 5) := by
  rw [minLength, ceilDiv_le_iff (by decide), ← bitLength_le_iff]
  omega

theorem minLength_pos (x : Imap) : 1 ≤ x.minLength := by
  refine Nat.one_le_iff_ne_zero.2 fun h => ?_
  have hle := (ceilDiv_le_iff (n := bitLength x.payload.toNat + 5) (d := 8) (k := 0) (by decide)).1
    (Nat.le_of_eq h)
  omega

theorem minLength_of_payload {x : Imap} (h : x.payload = 0) (hpos : 1 ≤ width) :
    x.minLength ≤ width := by
  rw [minLength_le_iff hpos, h]
  exact Nat.two_pow_pos _

/-- What a double becomes has no payload. -/
theorem payload_ofBinary64 (x : Binary64) : (ofBinary64 x).payload = 0 := by
  rw [ofBinary64]
  split <;> rfl

theorem isScaled_ofImap {x : Imap} (hdomain : checkDomain low high width = .ok ())
    (hx : x.minLength ≤ width) : IsScaled low high width (.ofImap x) := by
  obtain ⟨_, hpos, _⟩ := checkDomain_eq_ok.1 hdomain
  refine ⟨hdomain, ?_⟩
  cases x with
  | normal number => exact ⟨_, rfl, minLength_of_payload (payload_ofBinary64 number) hpos⟩
  | _ => exact ⟨_, rfl, hx⟩

theorem bare_eq_ok {name : String} {payload : Nat} {value x : Imap} :
    bare name payload value = .ok x ↔ payload = 0 ∧ value = x := by
  rw [bare]
  split
  · next h => simp [h]
  · next h => simp [h]

theorem bare_minLength {name : String} {payload : Nat} {value x : Imap}
    (hvalue : value.payload = 0) (hpos : 1 ≤ width) (h : bare name payload value = .ok x) :
    x.minLength ≤ width := by
  obtain ⟨-, rfl⟩ := bare_eq_ok.1 h
  exact minLength_of_payload hvalue hpos

/-- A special value of some width carries no more than the width has room for. -/
theorem specialOf_minLength {raw : Nat} {x : Imap} (hpos : 1 ≤ width)
    (h : specialOf width raw = .ok x) : x.minLength ≤ width := by
  have hpayload : (UInt64.ofNat (raw % 2 ^ (8 * width - 5))).toNat < 2 ^ (8 * width - 5) := by
    refine Nat.lt_of_le_of_lt ?_ (Nat.mod_lt raw (Nat.two_pow_pos _))
    rw [UInt64.toNat_ofNat']
    exact Nat.mod_le _ _
  rw [specialOf] at h
  dsimp only at h
  split at h
  · exact bare_minLength rfl hpos h
  · exact bare_minLength rfl hpos h
  · injection h with h
    exact (minLength_le_iff hpos).2 (h ▸ hpayload)
  · injection h with h
    exact (minLength_le_iff hpos).2 (h ▸ hpayload)
  · injection h with h
    exact (minLength_le_iff hpos).2 (h ▸ hpayload)
  · injection h with h
    exact (minLength_le_iff hpos).2 (h ▸ hpayload)
  · injection h with h
    exact (minLength_le_iff hpos).2 (h ▸ hpayload)
  · split at h
    · exact bare_minLength rfl hpos h
    · exact bare_minLength rfl hpos h
    · cases h
  · cases h

theorem read_yields (low high : Binary64) (width : Nat) :
    (read low high width).Yields fun x => IsScaled low high width (.ofImap x) := by
  rw [read]
  refine .after fun start => ?_
  split
  · exact .raiseAt _ _
  · next hdomain =>
      obtain ⟨_, hpos, _⟩ := checkDomain_eq_ok.1 hdomain
      refine .after fun raw => ?_
      dsimp only
      split
      · next value hresult =>
          refine .pure (isScaled_ofImap hdomain ?_)
          split at hresult
          · exact specialOf_minLength hpos hresult
          · cases hnumber : numberOf low high width raw with
            | ok number =>
                rw [hnumber] at hresult
                injection hresult with hresult
                exact hresult ▸ minLength_of_payload rfl hpos
            | error f =>
                rw [hnumber] at hresult
                cases hresult
      · exact .raiseAt _ _

/-- The top byte leaves three bits to the payload. -/
theorem header_le (x : Imap) : x.header ≤ 0xF8 := by
  cases x with
  | normal number =>
      rw [header]
      split
      · decide
      · split <;> decide
  | nan signaling negative payload =>
      cases signaling <;> cases negative <;> exact Nat.le_of_ble_eq_true rfl
  | _ => exact Nat.le_of_ble_eq_true rfl

theorem specialInteger_lt {x : Imap} (hwidth : 1 ≤ width ∧ width ≤ 8)
    (hx : x.minLength ≤ width) : (specialInteger width x).toNat < 256 ^ width := by
  have hpayload := (minLength_le_iff hwidth.1).1 hx
  have hheader := x.header_le
  have hsum : x.header * 2 ^ (8 * (width - 1)) + x.payload.toNat < 256 ^ width := by
    have htop : (256 : Nat) ^ width = 2 ^ 8 * 2 ^ (8 * (width - 1)) := by
      rw [Integer.pow_256, ← Nat.pow_add]
      congr 1
      omega
    have hpart : 2 ^ (8 * width - 5) = 2 ^ 3 * 2 ^ (8 * (width - 1)) := by
      rw [← Nat.pow_add]
      congr 1
      omega
    rw [htop]
    rw [hpart] at hpayload
    have hmul := Nat.mul_le_mul_right (2 ^ (8 * (width - 1))) hheader
    omega
  rw [specialInteger, UInt64.toNat_ofNat']
  exact Nat.lt_of_le_of_lt (Nat.mod_le _ _) hsum

theorem marked_minLength {x : Imap} (h : x.minLength ≤ width) (hpos : 1 ≤ width) :
    (marked low high x).minLength ≤ width := by
  cases x with
  | normal number =>
      refine minLength_of_payload ?_ hpos
      rw [marked]
      split
      · rfl
      · split
        · rfl
        · split <;> rfl
  | _ => exact h

/-- A value that was read from a scaled field is written in its width. -/
theorem exists_write_writes {v : Value} (h : IsScaled low high width v)
    (hrescales : Rescales low high width v) :
    ∃ x, v.requireImap = .ok x ∧ (write x low high width).Writes width := by
  obtain ⟨hdomain, x, hx, hroom⟩ := h
  obtain ⟨_, hwidth⟩ := checkDomain_eq_ok.1 hdomain
  refine ⟨x, ?_, ?_⟩
  · rw [Value.requireImap, hx]
    rfl
  rw [write, hdomain]
  dsimp only
  rw [if_pos hroom]
  have hmarked : (marked low high x).minLength ≤ width := marked_minLength hroom hwidth.1
  split
  · next number hnumber =>
      rw [hnumber] at hmarked
      split
      · next hfinite =>
          exact Integer.writeUnsigned_writes hwidth (hrescales x number hx hnumber hfinite)
      · exact Integer.writeUnsigned_writes hwidth (specialInteger_lt hwidth hmarked)
  · exact Integer.writeUnsigned_writes hwidth (specialInteger_lt hwidth hmarked)

theorem write_writes {v : Value} (h : IsScaled low high width v)
    (hrescales : Rescales low high width v) :
    (Encoder.ofExcept v.requireImap >>= fun x => write x low high width).Writes width := by
  obtain ⟨x, hx, hwrites⟩ := exists_write_writes h hrescales
  exact .ofExcept hx hwrites

end Imap

namespace Linear

variable {low high x : Binary64} {width : Nat}

/-- The step nearest to a number, in the form without a sign. -/
def unsignedStep (low high : Binary64) (width : Nat) (x : Binary64) : UInt64 :=
  ((x.toFloat - low.toFloat) * unsignedSteps width /
    (high.toFloat - low.toFloat)).round.toUInt64

/-- The step nearest to a number, in the form with a sign. -/
def signedStep (low high : Binary64) (width : Nat) (x : Binary64) : Int64 :=
  (x.toFloat * signedSteps width / (high.toFloat - low.toFloat)).round.toInt64

/-- The number is in the domain, and its step, worked out anew, is one of the width. With a
sign NaN has a step of its own. -/
def Rescales (signed : Bool) (low high : Binary64) (width : Nat) (x : Binary64) : Prop :=
  if signed then
    x.isNaN = false → checkValue x low high = .ok () ∧
      Integer.signedWidth (signedStep low high width x) ≤ width
  else
    checkValue x low high = .ok () ∧ (unsignedStep low high width x).toNat < 256 ^ width

theorem signedWidth_outOfRange (h : 1 ≤ width ∧ width ≤ 8) :
    Integer.signedWidth (outOfRange width) ≤ width := by
  have hall : ∀ n ≤ 8, 1 ≤ n → Integer.signedWidth (outOfRange n) ≤ n := by decide
  exact hall width h.2 h.1

theorem writeUnsigned_writes (hdomain : checkDomain low high width = .ok ())
    (h : Rescales false low high width x) : (writeUnsigned x low high width).Writes width := by
  obtain ⟨hvalue, hstep⟩ := h
  have hwidth := (checkDomain_eq_ok.1 hdomain).2
  have hchecked : (do checkDomain low high width; checkValue x low high : Except Fault Unit) =
      .ok () := by
    rw [hdomain]
    exact hvalue
  rw [writeUnsigned, hchecked]
  exact Integer.writeUnsigned_writes hwidth hstep

theorem writeSigned_writes (hdomain : checkDomain low high width = .ok ())
    (h : Rescales true low high width x) : (writeSigned x low high width).Writes width := by
  have hwidth := (checkDomain_eq_ok.1 hdomain).2
  rw [writeSigned, hdomain]
  dsimp only
  split
  · exact Integer.writeSigned_writes hwidth (signedWidth_outOfRange hwidth)
  · next hnumber =>
      obtain ⟨hvalue, hstep⟩ := h (Bool.eq_false_iff.2 hnumber)
      rw [hvalue]
      exact Integer.writeSigned_writes hwidth hstep

/-- Nothing is read over what is no domain, or from a width that no integer has. -/
theorem readUnsigned_yields (low high : Binary64) (width : Nat) :
    (readUnsigned low high width).Yields fun _ => checkDomain low high width = .ok () := by
  rw [readUnsigned]
  refine .after fun start => ?_
  split
  · exact .raiseAt _ _
  · next hdomain => exact .after fun _ => .pure hdomain

theorem readSigned_yields (low high : Binary64) (width : Nat) :
    (readSigned low high width).Yields fun _ => checkDomain low high width = .ok () := by
  rw [readSigned]
  refine .after fun start => ?_
  split
  · exact .raiseAt _ _
  · next hdomain =>
      exact .after fun raw => .ite (fun _ => .pure hdomain) fun _ => .pure hdomain

end Linear

end MotionMetadata
