import Mathlib.Data.FinEnum
import Mathlib.Logic.Function.Iterate
import MotionMetadata.Checksum

/-!
# What checksums notice

A checksum is a machine that takes a message piece by piece and keeps a state of a few bytes. No
piece brings two states together, so two messages are told apart to the end if their states
differ once. What is left to see is that the states differ where the messages do. The two cyclic
checks are registers: bits go in, and what leaves at the top comes back at the taps. That is a
linear map without a kernel, and bits go through a register side by side as long as no more of
them are on the way than it has places. The running sum keeps the bytes of a pair apart, one in
each half.

The registers take their input at different ends. `feed` has the distance as a parameter: a bit
goes in as it would be that many steps later.
-/

namespace MotionMetadata.Checksum

/-! ## Messages that differ in one stretch -/

section Stretch

variable {α : Type} {n : Nat} {xs ys : List α}

/-- Wherever the messages differ is inside some `n` consecutive places. -/
def DifferWithin (n : Nat) (xs ys : List α) : Prop :=
  ∃ start, ∀ i, xs[i]? ≠ ys[i]? → start ≤ i ∧ i < start + n

/-- Messages of one length that differ in a stretch are the same before it and behind it. -/
theorem differWithin_iff (hlength : xs.length = ys.length) :
    DifferWithin n xs ys ↔ ∃ front u v back, u.length = v.length ∧ u.length ≤ n ∧
      xs = front ++ (u ++ back) ∧ ys = front ++ (v ++ back) := by
  constructor
  · rintro ⟨start, h⟩
    have hfront : xs.take start = ys.take start := by
      refine List.ext_getElem? fun i => ?_
      rw [List.getElem?_take, List.getElem?_take]
      split
      · next hi => exact by_contra fun hne => Nat.not_le.2 hi (h i hne).1
      · rfl
    have hback : (xs.drop start).drop n = (ys.drop start).drop n := by
      refine List.ext_getElem? fun i => ?_
      rw [List.getElem?_drop, List.getElem?_drop, List.getElem?_drop, List.getElem?_drop]
      refine by_contra fun hne => ?_
      have := (h _ hne).2
      omega
    refine ⟨xs.take start, (xs.drop start).take n, (ys.drop start).take n,
      (xs.drop start).drop n, ?_, List.length_take_le .., ?_, ?_⟩
    · simp only [List.length_take, List.length_drop, hlength]
    · rw [List.take_append_drop, List.take_append_drop]
    · rw [hback, hfront, List.take_append_drop, List.take_append_drop]
  · rintro ⟨front, u, v, back, hcount, hn, rfl, rfl⟩
    refine ⟨front.length, fun i hne => ?_⟩
    simp only [List.getElem?_append, hcount] at hne
    split at hne
    · exact absurd rfl hne
    · split at hne
      · omega
      · exact absurd rfl hne

end Stretch

/-! ## Machines that keep messages apart -/

section Machines

variable {σ τ α : Type} {n : Nat} {step : σ → α → σ} {step' : τ → α → τ} {xs ys : List α}

/-- No piece brings two states together, and words of one length up to `n` that leave the same
state behind are the same. -/
structure Separates (n : Nat) (step : σ → α → σ) : Prop where
  state (a : α) : Function.Injective fun s => step s a
  word (s : σ) {u v : List α} (hlength : u.length = v.length) (hn : u.length ≤ n)
    (h : u.foldl step s = v.foldl step s) : u = v

/-- States that differ once differ to the end. -/
theorem Separates.foldl_injective (h : Separates n step) (xs : List α) :
    Function.Injective fun s => xs.foldl step s := by
  induction xs with
  | nil => exact fun _ _ heq => heq
  | cons x xs ih => exact fun _ _ heq => h.state x (ih heq)

/-- Messages that differ in a stretch of up to `n` pieces leave different states behind. -/
theorem Separates.foldl_ne (h : Separates n step) (hlength : xs.length = ys.length)
    (hne : xs ≠ ys) (hwithin : DifferWithin n xs ys) (s : σ) :
    xs.foldl step s ≠ ys.foldl step s := by
  obtain ⟨front, u, v, back, hcount, hn, rfl, rfl⟩ := (differWithin_iff hlength).1 hwithin
  rw [List.foldl_append, List.foldl_append, List.foldl_append, List.foldl_append]
  intro heq
  have hword := h.word _ hcount hn (h.foldl_injective back heq)
  exact hne (by rw [hword])

/-- A machine separates what another does that it follows state for state. -/
theorem Separates.of_hom (h : Separates n step') {f : σ → τ} (hf : Function.Injective f)
    (hstep : ∀ s a, step' (f s) a = f (step s a)) : Separates n step where
  state a s s' heq := hf (h.state a (by
    show step' (f s) a = step' (f s') a
    rw [hstep, hstep]
    exact congrArg f heq))
  word s u v hlength hn heq := h.word (f s) hlength hn (by
    rw [List.foldl_hom f hstep, List.foldl_hom f hstep, heq])

end Machines

/-! ## Bits -/

section Bits

variable {u v : List Bool}

/-- The number that bits spell. -/
def number (bits : List Bool) : Nat := bits.foldl (fun high bit => high * 2 + bit.toNat) 0

theorem number_concat (u : List Bool) (bit : Bool) :
    number (u ++ [bit]) = number u * 2 + bit.toNat := List.foldl_concat ..

theorem number_lt (u : List Bool) : number u < 2 ^ u.length := by
  induction u using List.reverseRecOn with
  | nil => decide
  | append_singleton u bit ih =>
      have hbit := Bool.toNat_lt bit
      rw [number_concat, List.length_append, List.length_singleton, Nat.pow_succ]
      omega

theorem number_inj (hlength : u.length = v.length) (h : number u = number v) : u = v := by
  induction u using List.reverseRecOn generalizing v with
  | nil => exact (List.eq_nil_of_length_eq_zero hlength.symm).symm
  | append_singleton u bit ih =>
      obtain rfl | ⟨v, bit', rfl⟩ := List.eq_nil_or_concat' v
      · simp at hlength
      · rw [List.length_append, List.length_append] at hlength
        rw [number_concat, number_concat] at h
        have hbits : ∀ b b' : Bool, b.toNat = b'.toNat → b = b' := by decide
        have hbit := Bool.toNat_lt bit
        have hbit' := Bool.toNat_lt bit'
        rw [ih (Nat.add_right_cancel hlength) (by omega), hbits bit bit' (by omega)]

/-- The bits of a message, byte by byte. -/
def messageBits (data : Bytes) : List Bool := data.flatMap bitsOf

theorem length_bitsOf (b : UInt8) : (bitsOf b).length = 8 := by
  rw [bitsOf, List.length_map, List.length_range]

theorem number_bitsOf : ∀ b : UInt8, number (bitsOf b) = b.toNat := by decide +kernel

theorem length_messageBits (data : Bytes) : (messageBits data).length = data.length * 8 := by
  rw [messageBits, List.length_flatMap, List.map_congr_left fun b _ => length_bitsOf b,
    List.map_const', List.sum_replicate_nat]

theorem messageBits_ne {a b : Bytes} (hlength : a.length = b.length) (hne : a ≠ b) :
    messageBits a ≠ messageBits b := by
  induction a generalizing b with
  | nil => exact absurd (List.eq_nil_of_length_eq_zero hlength.symm).symm hne
  | cons x a ih =>
      match b, hlength with
      | y :: b, hlength =>
          intro h
          obtain ⟨hbyte, hrest⟩ := List.append_inj
            (show bitsOf x ++ messageBits a = bitsOf y ++ messageBits b from h)
            (by rw [length_bitsOf, length_bitsOf])
          have hxy := congrArg number hbyte
          rw [number_bitsOf, number_bitsOf, UInt8.toNat_inj] at hxy
          subst hxy
          exact ih (Nat.succ.inj hlength) (fun hab => hne (by rw [hab])) hrest

end Bits

/-! ## Registers -/

section Register

variable {w m : Nat} {taps r s : BitVec w} {u v : List Bool}

/-- A register one step on: what leaves it at the top comes back at the taps. -/
def advance (taps r : BitVec w) : BitVec w := r <<< 1 ^^^ if r.msb then taps else 0#w

/-- A register one step on, with a bit that goes in as it would be `m` steps later. -/
def feed (taps : BitVec w) (m : Nat) (r : BitVec w) (bit : Bool) : BitVec w :=
  advance taps r ^^^ (advance taps)^[m] (if bit then 1 else 0)

/-- What is in an empty register after some bits. -/
def word (taps : BitVec w) (u : List Bool) : BitVec w := u.foldl (feed taps 0) 0

theorem advance_xor (taps r s : BitVec w) :
    advance taps (r ^^^ s) = advance taps r ^^^ advance taps s := by
  have hback : (if (r ^^^ s).msb then taps else 0#w) =
      (if r.msb then taps else 0#w) ^^^ if s.msb then taps else 0#w := by
    rw [BitVec.msb_xor]
    cases r.msb <;> cases s.msb <;> simp
  rw [advance, hback, BitVec.shiftLeft_xor_distrib, advance, advance]
  ac_rfl

theorem iterate_advance_xor (taps r s : BitVec w) (m : Nat) :
    (advance taps)^[m] (r ^^^ s) = (advance taps)^[m] r ^^^ (advance taps)^[m] s := by
  induction m generalizing r s with
  | zero => rfl
  | succ m ih =>
      rw [Function.iterate_succ_apply, advance_xor, ih]
      rfl

theorem iterate_advance_zero (taps : BitVec w) (m : Nat) : (advance taps)^[m] 0 = 0 := by
  have h := iterate_advance_xor taps 0 0 m
  rwa [BitVec.xor_self, BitVec.xor_self] at h

theorem and_topBit (r : BitVec w) : (r &&& BitVec.twoPow w (w - 1) != 0#w) = r.msb := by
  rw [BitVec.and_twoPow, BitVec.msb_eq_getLsbD_last]
  cases htop : r.getLsbD (w - 1) with
  | false => simp
  | true =>
      rw [if_pos rfl, bne_iff_ne]
      intro hzero
      have hlowest := congrArg (BitVec.getLsbD · (w - 1)) hzero
      simp [BitVec.lt_of_getLsbD htop] at hlowest

/-- With a tap in the lowest place nothing is lost: a bit that leaves at the top shows there. -/
theorem advance_injective (htap : taps.getLsbD 0) : Function.Injective (advance taps) := by
  intro r s h
  have hzero : advance taps (r ^^^ s) = 0#w := by rw [advance_xor, h, BitVec.xor_self]
  refine BitVec.xor_eq_zero_iff.1 ?_
  generalize r ^^^ s = x at hzero
  rw [advance] at hzero
  cases hmsb : x.msb with
  | true =>
      have hlowest := congrArg (BitVec.getLsbD · 0) hzero
      simp [hmsb, htap] at hlowest
  | false =>
      refine BitVec.eq_of_getLsbD_eq fun i hi => ?_
      rw [BitVec.getLsbD_zero]
      by_cases htop : i + 1 < w
      · have hnext := congrArg (BitVec.getLsbD · (i + 1)) hzero
        rw [hmsb] at hnext
        simpa [htop, -BitVec.getLsbD_eq_getElem] using hnext
      · rwa [BitVec.msb_eq_getLsbD_last, show w - 1 = i by omega] at hmsb

theorem word_concat (taps : BitVec w) (u : List Bool) (bit : Bool) :
    word taps (u ++ [bit]) = advance taps (word taps u) ^^^ if bit then 1 else 0 :=
  List.foldl_concat ..

/-- What was in a register and what went in since lie over one another. -/
theorem foldl_feed (taps : BitVec w) (m : Nat) (r : BitVec w) (u : List Bool) :
    u.foldl (feed taps m) r =
      (advance taps)^[u.length] r ^^^ (advance taps)^[m] (word taps u) := by
  induction u using List.reverseRecOn with
  | nil =>
      show r = r ^^^ (advance taps)^[m] 0
      rw [iterate_advance_zero]
      exact BitVec.xor_zero.symm
  | append_singleton u bit ih =>
      have hcommute : advance taps ((advance taps)^[m] (word taps u)) =
          (advance taps)^[m] (advance taps (word taps u)) :=
        (Function.iterate_succ_apply' ..).symm.trans (Function.iterate_succ_apply ..)
      rw [List.foldl_concat, ih, List.length_append, List.length_singleton, feed, advance_xor,
        hcommute, Function.iterate_succ_apply', word_concat, iterate_advance_xor, BitVec.xor_assoc]

theorem or_bit_eq_xor (r : BitVec w) (bit : Bool) :
    (r <<< 1 ||| if bit then 1 else 0) = r <<< 1 ^^^ if bit then 1 else 0 := by
  refine BitVec.eq_of_getLsbD_eq fun i hi => ?_
  rw [BitVec.getLsbD_or, BitVec.getLsbD_xor, BitVec.getLsbD_shiftLeft]
  cases bit <;> cases i <;> simp

theorem shiftConcat_eq_xor (r : BitVec w) (bit : Bool) :
    r.shiftConcat bit = r <<< 1 ^^^ if bit then 1 else 0 := by
  refine BitVec.eq_of_getLsbD_eq fun i hi => ?_
  rw [BitVec.getLsbD_shiftConcat, BitVec.getLsbD_xor, BitVec.getLsbD_shiftLeft]
  cases bit <;> cases i <;> simp [hi]

/-- While the place at the top is free, nothing comes back. -/
theorem advance_of_lt {k : Nat} (taps : BitVec w) (hk : k < w) (hr : r.toNat < 2 ^ k) :
    advance taps r = r <<< 1 := by
  have hfree : r.msb = false := by
    rw [BitVec.msb_eq_decide, decide_eq_false_iff_not, Nat.not_le]
    exact Nat.lt_of_lt_of_le hr (Nat.pow_le_pow_right (by decide) (by omega))
  rw [advance, hfree, if_neg Bool.false_ne_true, BitVec.xor_zero]

theorem iterate_advance_of_lt {k : Nat} (taps : BitVec w) (hm : k + m ≤ w) (hr : r.toNat < 2 ^ k) :
    (advance taps)^[m] r = r <<< m := by
  induction m with
  | zero => rw [Function.iterate_zero_apply, BitVec.shiftLeft_zero]
  | succ m ih =>
      have hshifted : (r <<< m).toNat < 2 ^ (k + m) := by
        rw [BitVec.toNat_shiftLeft, Nat.shiftLeft_eq, Nat.pow_add]
        exact Nat.lt_of_le_of_lt (Nat.mod_le _ _)
          (Nat.mul_lt_mul_of_pos_right hr (Nat.two_pow_pos m))
      rw [Function.iterate_succ_apply', ih (by omega), advance_of_lt taps (by omega) hshifted,
        ← BitVec.shiftLeft_add]

/-- A register that has room for the bits holds the number they spell. -/
theorem toNat_word (taps : BitVec w) (hw : u.length ≤ w) : (word taps u).toNat = number u := by
  induction u using List.reverseRecOn with
  | nil => exact BitVec.toNat_zero
  | append_singleton u bit ih =>
      rw [List.length_append, List.length_singleton] at hw
      have hword := ih (Nat.le_of_succ_le hw)
      have hlt : (word taps u).toNat < 2 ^ u.length := hword ▸ number_lt u
      rw [word_concat, advance_of_lt taps hw hlt, ← shiftConcat_eq_xor,
        BitVec.toNat_shiftConcat_eq_of_lt hw hlt, hword, number_concat]

theorem word_inj (hlength : u.length = v.length) (hw : u.length ≤ w)
    (h : word taps u = word taps v) : u = v := by
  refine number_inj hlength ?_
  rw [← toNat_word taps hw, h, toNat_word taps (hlength ▸ hw)]

/-- A register that loses nothing separates words that are no longer than itself. -/
theorem separates_feed (taps : BitVec w) (htap : taps.getLsbD 0) (m : Nat) :
    Separates w (feed taps m) where
  state bit _ _ h := advance_injective htap ((BitVec.xor_left_inj _).1 h)
  word r u v hlength hw h := by
    rw [foldl_feed, foldl_feed taps m r v, hlength, BitVec.xor_right_inj] at h
    exact word_inj hlength hw ((advance_injective htap).iterate m h)

end Register

/-! ## The cyclic checks -/

theorem toBitVec_crc16Bit (r : UInt16) (bit : Bool) :
    feed 0x1021#16 0 r.toBitVec bit = (crc16Bit r bit).toBitVec := by
  have hmsb : (r &&& 0x8000 != 0) = r.toBitVec.msb := by
    rw [← and_topBit, Bool.eq_iff_iff, bne_iff_ne, bne_iff_ne, ne_eq, ne_eq, ← UInt16.toBitVec_inj]
    rfl
  have hshift : (r <<< 1 ||| if bit then 1 else 0).toBitVec =
      r.toBitVec <<< 1 ^^^ if bit then 1 else 0 := by
    rw [← or_bit_eq_xor]
    cases bit <;> rfl
  rw [crc16Bit, hmsb, feed, advance, Function.iterate_zero_apply]
  cases r.toBitVec.msb with
  | false => exact (congrArg (· ^^^ _) BitVec.xor_zero).trans hshift.symm
  | true =>
      show _ = (r <<< 1 ||| if bit then 1 else 0).toBitVec ^^^ 0x1021#16
      rw [hshift, if_pos rfl]
      ac_rfl

theorem separates_crc16Bit : Separates 16 crc16Bit :=
  (separates_feed 0x1021#16 rfl 0).of_hom (fun _ _ => UInt16.toBitVec_inj.1) toBitVec_crc16Bit

/-- The sixteen zero bits behind the message are two bytes more. -/
theorem crc16_eq (data : Bytes) (initial : UInt16) :
    crc16 data initial =
      (messageBits [0, 0]).foldl crc16Bit ((messageBits data).foldl crc16Bit initial) := by
  rw [messageBits, messageBits, List.foldl_flatMap, List.foldl_flatMap]
  rfl

/-- One bit of a message put in at the top of a 32-bit register, and one step. -/
def crc32Bit (register : UInt32) (bit : Bool) : UInt32 :=
  crc32Step (register ^^^ if bit then 0x80000000 else 0)

theorem toBitVec_crc32Step (r : UInt32) :
    (crc32Step r).toBitVec = advance 0x04C11DB7#32 r.toBitVec := by
  have hmsb : (r &&& 0x80000000 != 0) = r.toBitVec.msb := by
    rw [← and_topBit, Bool.eq_iff_iff, bne_iff_ne, bne_iff_ne, ne_eq, ne_eq, ← UInt32.toBitVec_inj]
    rfl
  rw [crc32Step, hmsb, advance]
  cases r.toBitVec.msb with
  | false => exact BitVec.xor_zero.symm
  | true => rfl

theorem toBitVec_crc32Bit (r : UInt32) (bit : Bool) :
    feed 0x04C11DB7#32 32 r.toBitVec bit = (crc32Bit r bit).toBitVec := by
  rw [crc32Bit, toBitVec_crc32Step, UInt32.toBitVec_xor, advance_xor, feed]
  congr 1
  cases bit <;> decide +kernel

theorem separates_crc32Bit : Separates 32 crc32Bit :=
  (separates_feed 0x04C11DB7#32 rfl 32).of_hom (fun _ _ => UInt32.toBitVec_inj.1)
    toBitVec_crc32Bit

/-- A byte that is put in at the top all at once goes in bit by bit. -/
theorem crc32Byte_eq (r : UInt32) (b : UInt8) : crc32Byte r b = (bitsOf b).foldl crc32Bit r := by
  have hsteps : ∀ x : UInt32, (Nat.repeat crc32Step 8 x).toBitVec =
      (advance 0x04C11DB7#32)^[8] x.toBitVec := by
    intro x
    simp only [Nat.repeat, toBitVec_crc32Step, Function.iterate_succ_apply,
      Function.iterate_zero_apply]
  have hword : (word 0x04C11DB7#32 (bitsOf b)).toNat = b.toNat := by
    rw [toNat_word _ (by rw [length_bitsOf]; decide), number_bitsOf]
  -- Twenty-four of the thirty-two steps take the byte to the top, and nothing comes back yet.
  have hplace : (b.toUInt32 <<< 24).toBitVec =
      (advance 0x04C11DB7#32)^[24] (word 0x04C11DB7#32 (bitsOf b)) := by
    have hbyte : b.toUInt32.toBitVec = word 0x04C11DB7#32 (bitsOf b) :=
      BitVec.eq_of_toNat_eq ((UInt8.toNat_toUInt32 b).trans hword.symm)
    rw [iterate_advance_of_lt _ (k := 8) (by decide) (hword ▸ b.toNat_lt), ← hbyte]
    rfl
  rw [← UInt32.toBitVec_inj, ← List.foldl_hom UInt32.toBitVec toBitVec_crc32Bit, foldl_feed,
    length_bitsOf, crc32Byte, hsteps, UInt32.toBitVec_xor, iterate_advance_xor, hplace,
    ← Function.iterate_add_apply]

theorem crc32_eq (data : Bytes) (initial : UInt32) :
    crc32 data initial = (messageBits data).foldl crc32Bit initial := by
  have hbytes : crc32Byte = fun r b => (bitsOf b).foldl crc32Bit r :=
    funext fun r => funext fun b => crc32Byte_eq r b
  rw [crc32, hbytes, messageBits, List.foldl_flatMap]

/-! ## The running sum -/

/-- What a byte adds to the running sum. -/
def term (low : Bool) (b : UInt8) : UInt16 := if low then b.toUInt16 else b.toUInt16 <<< 8

/-- One byte added to the running sum. The next one goes to the other half. -/
def sumStep (state : UInt16 × Bool) (b : UInt8) : UInt16 × Bool :=
  (state.1 + term state.2 b, !state.2)

theorem runningSum_eq (data : Bytes) (initial : UInt16) (low : Bool) :
    runningSum data initial low = (data.foldl sumStep (initial, low)).1 := by
  induction data generalizing initial low with
  | nil => rfl
  | cons b data ih => exact ih ..

/-- Which half the next byte goes to depends on how many there were. -/
theorem snd_foldl_sumStep (data : Bytes) (state : UInt16 × Bool) :
    (data.foldl sumStep state).2 = not^[data.length] state.2 := by
  induction data generalizing state with
  | nil => rfl
  | cons b data ih => exact ih _

theorem toNat_term (low : Bool) (b : UInt8) :
    (term low b).toNat = if low then b.toNat else b.toNat * 256 := by
  cases low with
  | true => exact UInt8.toNat_toUInt16 b
  | false =>
      have hb := b.toNat_lt
      show (b.toUInt16 <<< 8).toNat = b.toNat * 256
      rw [UInt16.toNat_shiftLeft, UInt8.toNat_toUInt16]
      show b.toNat <<< 8 % 2 ^ 16 = _
      rw [Nat.shiftLeft_eq]
      omega

theorem term_injective (low : Bool) : Function.Injective (term low) := by
  intro x y h
  have hnumbers := congrArg UInt16.toNat h
  rw [toNat_term, toNat_term] at hnumbers
  refine UInt8.toNat_inj.1 ?_
  cases low with
  | true => exact hnumbers
  | false => exact Nat.eq_of_mul_eq_mul_right (by decide) hnumbers

/-- The two bytes of a pair stand side by side. -/
theorem term_add_term {low : Bool} {x y x' y' : UInt8}
    (h : term low x + term (!low) y = term low x' + term (!low) y') : x = x' ∧ y = y' := by
  have hnumbers := congrArg UInt16.toNat h
  rw [UInt16.toNat_add, UInt16.toNat_add, toNat_term, toNat_term, toNat_term, toNat_term]
    at hnumbers
  have hx := x.toNat_lt
  have hy := y.toNat_lt
  have hx' := x'.toNat_lt
  have hy' := y'.toNat_lt
  rw [← UInt8.toNat_inj, ← UInt8.toNat_inj]
  cases low with
  | true =>
      simp only [if_true, Bool.not_true, Bool.false_eq_true, if_false] at hnumbers
      omega
  | false =>
      simp only [if_true, Bool.not_false, Bool.false_eq_true, if_false] at hnumbers
      omega

theorem separates_sumStep : Separates 2 sumStep where
  state b s s' h := by
    have hlow : s.2 = s'.2 := Bool.not_inj (congrArg Prod.snd h)
    have hsum : s.1 + term s.2 b = s'.1 + term s'.2 b := congrArg Prod.fst h
    rw [hlow, UInt16.add_left_inj] at hsum
    exact Prod.ext hsum hlow
  word s u v hlength hn h := by
    have hsum := congrArg Prod.fst h
    match u, v, hlength, hn with
    | [], [], _, _ => rfl
    | [x], [x'], _, _ =>
        rw [term_injective _ ((UInt16.add_right_inj _).1 hsum)]
    | [x, y], [x', y'], _, _ =>
        have hpair : s.1 + term s.2 x + term (!s.2) y = s.1 + term s.2 x' + term (!s.2) y' := hsum
        rw [UInt16.add_assoc, UInt16.add_assoc, UInt16.add_right_inj] at hpair
        obtain ⟨hx, hy⟩ := term_add_term hpair
        rw [hx, hy]

/-! ## Detection -/

/-- Messages of one length that differ have different checksums if they differ in one short
stretch, from whichever value the checksums start: sixteen bits for the cyclic check of sixteen
bits, thirty-two for that of thirty-two, wherever in a byte the stretch begins, and two bytes for
the running sum, whichever half the first byte goes to. -/
theorem corruption_detected {a b : Bytes} (hlength : a.length = b.length) (hne : a ≠ b) :
    (DifferWithin 16 (messageBits a) (messageBits b) →
      ∀ initial, crc16 a initial ≠ crc16 b initial) ∧
    (DifferWithin 32 (messageBits a) (messageBits b) →
      ∀ initial, crc32 a initial ≠ crc32 b initial) ∧
    (DifferWithin 2 a b → ∀ initial low, runningSum a initial low ≠ runningSum b initial low) := by
  have hbits : (messageBits a).length = (messageBits b).length := by
    rw [length_messageBits, length_messageBits, hlength]
  have hdiffer := messageBits_ne hlength hne
  refine ⟨fun hwithin initial => ?_, fun hwithin initial => ?_, fun hwithin initial low => ?_⟩
  · rw [crc16_eq, crc16_eq]
    intro h
    exact separates_crc16Bit.foldl_ne hbits hdiffer hwithin initial
      (separates_crc16Bit.foldl_injective _ h)
  · rw [crc32_eq, crc32_eq]
    exact separates_crc32Bit.foldl_ne hbits hdiffer hwithin initial
  · rw [runningSum_eq, runningSum_eq]
    intro hsum
    refine separates_sumStep.foldl_ne hlength hne hwithin (initial, low) (Prod.ext hsum ?_)
    rw [snd_foldl_sumStep, snd_foldl_sumStep, hlength]

/-- A burst of nine bits, over the boundary of two bytes. -/
theorem burst_detected :
    let a : Bytes := [0x31, 0x32, 0x33]
    let b : Bytes := [0x31, 0xCD, 0xB3]
    (DifferWithin 16 (messageBits a) (messageBits b) ∧
        ∀ initial, crc16 a initial ≠ crc16 b initial) ∧
      (DifferWithin 32 (messageBits a) (messageBits b) ∧
        ∀ initial, crc32 a initial ≠ crc32 b initial) ∧
      DifferWithin 2 a b ∧ ∀ initial low, runningSum a initial low ≠ runningSum b initial low := by
  intro a b
  have hbits : (messageBits a).length = (messageBits b).length := rfl
  have hsixteen : DifferWithin 16 (messageBits a) (messageBits b) :=
    (differWithin_iff hbits).2 ⟨messageBits [0x31], (messageBits [0x32, 0x33]).take 9,
      (messageBits [0xCD, 0xB3]).take 9, (messageBits [0x33]).drop 1, rfl, by decide, rfl, rfl⟩
  have hthirtytwo : DifferWithin 32 (messageBits a) (messageBits b) :=
    hsixteen.imp fun _ h i hi => (h i hi).imp_right fun hlt => by omega
  have hbytes : a.length = b.length := rfl
  have htwo : DifferWithin 2 a b :=
    (differWithin_iff hbytes).2 ⟨[0x31], [0x32, 0x33], [0xCD, 0xB3], [], rfl, by decide, rfl, rfl⟩
  obtain ⟨hcrc16, hcrc32, hsum⟩ := corruption_detected hbytes (by decide)
  exact ⟨⟨hsixteen, hcrc16 hsixteen⟩, ⟨hthirtytwo, hcrc32 hthirtytwo⟩, htwo, hsum htwo⟩

end MotionMetadata.Checksum
