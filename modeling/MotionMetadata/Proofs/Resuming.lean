import MotionMetadata.Proofs.Corruption
import MotionMetadata.Proofs.Integers

/-!
# Checksums taken up again

A message may come in two parts. What a checksum of the first part leaves behind is then the
start value for the second. The running sum needs one thing more, the half that the next byte
goes to, and every byte of the first part has changed it once.

Of the cyclic check of 32 bits this says more. Bits that go in at the top are laid over what is
in the register, and 32 steps later none of either has been lost. So four bytes bring a register
to zero exactly if they spell what is in it, and a message that ends in its own check leaves
zero.
-/

namespace MotionMetadata.Checksum

/-! ## The running sum -/

theorem foldl_sumStep (data : Bytes) (initial : UInt16) (low : Bool) :
    data.foldl sumStep (initial, low) = (runningSum data initial low, not^[data.length] low) :=
  Prod.ext (runningSum_eq data initial low).symm (snd_foldl_sumStep data (initial, low))

theorem runningSum_append (a b : Bytes) (initial : UInt16) (low : Bool) :
    runningSum (a ++ b) initial low =
      runningSum b (runningSum a initial low) (not^[a.length] low) := by
  have hstate := foldl_sumStep a initial low
  rw [runningSum_eq, List.foldl_append, hstate, ← runningSum_eq]

/-! ## What four bytes spell -/

theorem number_append (u v : List Bool) : number (u ++ v) = number u * 2 ^ v.length + number v := by
  induction v using List.reverseRecOn with
  | nil => rw [List.append_nil, List.length_nil, Nat.pow_zero, Nat.mul_one]; rfl
  | append_singleton v bit ih =>
      rw [← List.append_assoc, number_concat, ih, number_concat, List.length_append,
        List.length_singleton, Nat.pow_succ]
      ring

/-- The bits of a message spell the number that its bytes spell. -/
theorem number_messageBits (data : Bytes) : number (messageBits data) = BigEndian.value data := by
  induction data using List.reverseRecOn with
  | nil => rfl
  | append_singleton front b ih =>
      have hbits : messageBits (front ++ [b]) = messageBits front ++ bitsOf b := by
        rw [messageBits, List.flatMap_append, List.flatMap_singleton]
        rfl
      rw [hbits, number_append, length_bitsOf, number_bitsOf, ih, BigEndian.value_concat]

/-! ## The cyclic check -/

/-- As many bits as a register has places, put in at its top, leave nothing behind exactly if they
are what was in it. -/
theorem foldl_feed_eq_zero_iff {w : Nat} {taps : BitVec w} (htap : taps.getLsbD 0) {u : List Bool}
    (hlength : u.length = w) (r : BitVec w) : u.foldl (feed taps w) r = 0 ↔ word taps u = r := by
  have hzero : ∀ s : BitVec w, (advance taps)^[w] s = 0 ↔ s = 0 := fun _ =>
    ((advance_injective htap).iterate w).eq_iff' (iterate_advance_zero taps w)
  rw [foldl_feed, hlength, ← iterate_advance_xor, hzero]
  exact BitVec.xor_eq_zero_iff.trans eq_comm

theorem crc32_eq_zero_iff {trailer : Bytes} (hlength : trailer.length = 4) (register : UInt32) :
    crc32 trailer register = 0 ↔ trailer = BigEndian.bytes 4 register.toNat := by
  have hbits : (messageBits trailer).length = 32 := by rw [length_messageBits, hlength]
  have hroom : register.toNat < 256 ^ trailer.length := hlength ▸ register.toNat_lt
  rw [crc32_eq, ← UInt32.toBitVec_inj, ← List.foldl_hom UInt32.toBitVec toBitVec_crc32Bit]
  refine (foldl_feed_eq_zero_iff rfl hbits register.toBitVec).trans ?_
  rw [← BitVec.toNat_inj, toNat_word _ hbits.le, number_messageBits, ← hlength]
  exact BigEndian.value_eq_iff hroom

theorem crc32_append (a b : Bytes) (initial : UInt32) :
    crc32 (a ++ b) initial = crc32 b (crc32 a initial) := List.foldl_append

/-- A running sum goes on from where it stopped, with the half that the next byte goes to changed
once for every byte so far. So does the cyclic check of 32 bits. Behind a message its own check,
in four bytes and the highest first, makes the whole check zero, and no other four bytes do. -/
theorem checksums_resumed (a b : Bytes) :
    (∀ initial low, runningSum (a ++ b) initial low =
      runningSum b (runningSum a initial low) (not^[a.length] low)) ∧
    (∀ initial, crc32 (a ++ b) initial = crc32 b (crc32 a initial)) ∧
    (∀ initial, crc32 (a ++ BigEndian.bytes 4 (crc32 a initial).toNat) initial = 0) ∧
    ∀ initial trailer, trailer.length = 4 → crc32 (a ++ trailer) initial = 0 →
      trailer = BigEndian.bytes 4 (crc32 a initial).toNat := by
  refine ⟨runningSum_append a b, crc32_append a b, fun initial => ?_,
    fun initial trailer hlength hzero => ?_⟩
  · rw [crc32_append]
    exact (crc32_eq_zero_iff (BigEndian.length_bytes ..) _).2 rfl
  · rw [crc32_append] at hzero
    exact (crc32_eq_zero_iff hlength _).1 hzero

/-- Nine digits followed by their check. After nine bytes the next one goes to the low half. -/
theorem digits_cancelled :
    let digits : Bytes := [0x31, 0x32, 0x33, 0x34, 0x35, 0x36, 0x37, 0x38, 0x39]
    crc32 digits 0xFFFFFFFF = 0x0376E6E7 ∧
      crc32 (digits ++ [0x03, 0x76, 0xE6, 0xE7]) 0xFFFFFFFF = 0 ∧
      runningSum (digits ++ [0x30]) 0 false = runningSum [0x30] 0x09D4 true ∧
      runningSum digits 0 false = 0x09D4 := by
  intro digits
  obtain ⟨hsum, -, hcancelled, -⟩ := checksums_resumed digits [0x30]
  have hcheck : crc32 digits 0xFFFFFFFF = 0x0376E6E7 := by decide +kernel
  have hdigits : runningSum digits 0 false = 0x09D4 := by decide +kernel
  have hresumed := hsum 0 false
  have hzero := hcancelled 0xFFFFFFFF
  rw [hdigits] at hresumed
  rw [hcheck] at hzero
  exact ⟨hcheck, hzero, hresumed, hdigits⟩

end MotionMetadata.Checksum
