import MotionMetadata.Proofs.Numerals
import MotionMetadata.Proofs.Singles

/-!
# Integers are not too large for a double

The parts of a special value are taken in before it is known what they are, and its payload is
then a double like any other number. What this double is does not matter, but it has to be
there: a numeral too large for a double would spoil the whole text. No integer of 64 bits is
that large. It is multiplied by one on its way, and the product is bounded by the exponents
alone, with room for every bit that rounding could carry over.
-/

open Float.Model (Format UnpackedFloat totalExponent)
open Float.Model.UnpackedFloat (ExtendedMantissa Accuracy Sign shiftToTargetExponent
  roundWithAccuracy unpackExponent unpackMantissa)

namespace MotionMetadata

namespace Rounding

variable {bits : Nat} {k : Int}

/-- A float that is zero, or has a significand of so many bits and an exponent no larger than
`k`. -/
def Modest (bits : Nat) (k : Int) : UnpackedFloat → Prop
  | .zero _ => True
  | .finite _ significand exponent _ => significand < 2 ^ bits ∧ exponent ≤ k
  | _ => False

theorem Modest.isInf {x : UnpackedFloat} (h : Modest bits k x) : x.isInf = false := by
  cases x with
  | infinity => exact h.elim
  | _ => rfl

/-! ## Patterns -/

theorem toNat_unpackExponent (b : BitVec 64) :
    (@unpackExponent Format.binary64 b).toNat = b.toNat / 2 ^ 52 % 2 ^ 11 := by
  unfold unpackExponent
  simp [BitVec.extractLsb, Nat.shiftRight_eq_div_pow]

theorem unpack_modest {b : BitVec 64} {e : Nat} (hsmall : e < 2047)
    (h : (@unpackExponent Format.binary64 b).toNat ≤ e) :
    Modest 53 (e - 1074) (UnpackedFloat.unpack Format.binary64 b) := by
  unfold UnpackedFloat.unpack
  dsimp only
  by_cases hones : @unpackExponent Format.binary64 b = -1#11
  · rw [hones] at h
    simp at h
    omega
  rw [if_neg hones]
  by_cases hzeros : @unpackExponent Format.binary64 b = 0#11
  · rw [if_pos hzeros]
    by_cases hzero : @unpackMantissa Format.binary64 b = 0#52
    · rw [dif_pos hzero]
      trivial
    · rw [dif_neg hzero]
      refine ⟨?_, ?_⟩
      · have hlt := (@unpackMantissa Format.binary64 b).isLt
        exact Nat.lt_of_lt_of_le hlt (by decide)
      · simp [Format.exponentBias]
        omega
  · rw [if_neg hzeros]
    refine ⟨?_, ?_⟩
    · have hlt := (1#1 ++ @unpackMantissa Format.binary64 b).isLt
      simpa using hlt
    · simp [Format.exponentBias]
      omega

theorem pack_modest {x : UnpackedFloat} (hx : Modest bits k x) {e : Nat} (hk : k + 1075 ≤ e)
    (hsmall : e < 2047) :
    (@unpackExponent Format.binary64 (UnpackedFloat.pack Format.binary64 x)).toNat ≤
      e := by
  cases x with
  | zero s =>
      show (@unpackExponent Format.binary64 (UnpackedFloat.packedZero Format.binary64 s)).toNat ≤ e
      simp [UnpackedFloat.packedZero]
  | finite s significand exponent hpos =>
      obtain ⟨_, hexponent⟩ := hx
      have hbiased :
          (exponent + (Format.binary64.exponentBias : Int) + (52 : Nat)).toNat ≤ e := by
        simp only [Format.exponentBias]
        omega
      unfold UnpackedFloat.pack
      dsimp only
      rw [if_neg (by simp only [not_le]; omega)]
      split
      · rw [UnpackedFloat.unpackExponent_packComponents, BitVec.toNat_ofNat]
        exact (Nat.mod_le _ _).trans hbiased
      · rw [UnpackedFloat.unpackExponent_packComponents]
        simp
  | _ => exact hx.elim

/-- What is packed is unpacked to something as modest. -/
theorem unpack_pack_modest {x : UnpackedFloat} (hx : Modest bits k x) {e : Nat}
    (hk : k + 1075 ≤ e) (hsmall : e < 2047) : Modest 53 (e - 1074)
      (UnpackedFloat.unpack Format.binary64 (UnpackedFloat.pack Format.binary64 x)) :=
  unpack_modest hsmall (pack_modest hx hk hsmall)

/-! ## Products -/

theorem mantissa_shiftRight (em : ExtendedMantissa) (n : Nat) :
    (em >>> n).mantissa ≤ em.mantissa := by
  show (Nat.repeat ExtendedMantissa.shiftRightOne n em).mantissa ≤ _
  induction n with
  | zero => exact Nat.le_refl _
  | succ n ih => exact (Nat.div_le_self _ 2).trans ih

theorem roundedMantissa_le (em : ExtendedMantissa) : em.roundedMantissa ≤ em.mantissa + 1 := by
  obtain ⟨mantissa, roundBit, stickyBit⟩ := em
  show Accuracy.roundToNearestEven mantissa _ ≤ mantissa + 1
  cases roundBit <;> cases stickyBit <;>
    simp [ExtendedMantissa.accuracy, Accuracy.roundToNearestEven]
  omega

/-- Cutting bits off leaves no more of them, and the exponent grows by no more than there are
too many. -/
theorem shiftToTargetExponent_le {significand : Nat} {exponent : Int}
    (hbits : significand < 2 ^ bits) (hexponent : exponent ≤ k) (hk : -1074 ≤ k)
    (hmany : 53 ≤ bits) :
    (shiftToTargetExponent Format.binary64 significand exponent .exact).1.mantissa ≤
        significand ∧
      (shiftToTargetExponent Format.binary64 significand exponent .exact).2 ≤
        k + (bits - 53) := by
  refine ⟨mantissa_shiftRight _ _, ?_⟩
  show exponent + (max (totalExponent significand exponent - 53) (-1074) - exponent).toNat ≤ _
  have hlog : significand.log2 < bits := by
    by_cases hzero : significand = 0
    · rw [hzero, Nat.log2_zero]
      omega
    · exact (Nat.log2_lt hzero).2 hbits
  unfold totalExponent
  omega

theorem roundWithAccuracy_modest {sign : Sign} {significand : Nat} {exponent : Int}
    (hbits : significand < 2 ^ bits) (hexponent : exponent ≤ k) (hk : -1074 ≤ k)
    (hmany : 53 ≤ bits) :
    Modest (bits + 1) (k + 2 * bits - 105)
      (roundWithAccuracy Format.binary64 sign significand exponent .exact) := by
  unfold roundWithAccuracy
  obtain ⟨hmantissa, hfirst⟩ := shiftToTargetExponent_le hbits hexponent hk hmany
  generalize shiftToTargetExponent Format.binary64 significand exponent .exact = shifted at *
  obtain ⟨em, e⟩ := shifted
  dsimp only at *
  have hrounded : em.roundedMantissa < 2 ^ (bits + 1) := by
    have hle := roundedMantissa_le em
    rw [Nat.pow_succ]
    omega
  obtain ⟨hfinal, hsecond⟩ := shiftToTargetExponent_le hrounded hfirst (by omega) (by omega)
  by_cases hzero :
      (shiftToTargetExponent Format.binary64 em.roundedMantissa e .exact).1.mantissa = 0
  · rw [dif_pos hzero]
    trivial
  · rw [dif_neg hzero]
    exact ⟨Nat.lt_of_le_of_lt hfinal hrounded, by omega⟩

end Rounding

namespace Numeral

open Rounding

/-- A double that is not too large does not become infinite by multiplying it by one. -/
theorem isInf_mul_one {x : Binary64} (hx : x.exponentField ≤ 1100) :
    (x.toFloat * powerOfTen 0).isInf = false := by
  have hfield : (@unpackExponent Format.binary64 x.bits.toBitVec).toNat ≤ 1100 := by
    rw [toNat_unpackExponent]
    have hle : x.bits.toNat % 2 ^ 63 / 2 ^ 52 ≤ 1100 := hx
    show x.bits.toNat / 2 ^ 52 % 2 ^ 11 ≤ 1100
    omega
  have hleft : Modest 53 27 (UnpackedFloat.unpack Format.binary64
      (UnpackedFloat.pack Format.binary64 (UnpackedFloat.unpack Format.binary64
        x.bits.toBitVec))) :=
    unpack_pack_modest (e := 1101) (unpack_modest (by decide) hfield) (by decide) (by decide)
  have hone : ∃ h, (powerOfTen 0).toModel.unpack = .finite .positive (2 ^ 52) (-52) h :=
    ⟨by decide, rfl⟩
  obtain ⟨hpos, hone⟩ := hone
  show (UnpackedFloat.unpack Format.binary64 (UnpackedFloat.pack Format.binary64
    (UnpackedFloat.mul Format.binary64 (UnpackedFloat.unpack Format.binary64
      (UnpackedFloat.pack Format.binary64 (UnpackedFloat.unpack Format.binary64
        x.bits.toBitVec))) (powerOfTen 0).toModel.unpack))).isInf = false
  rw [hone]
  generalize UnpackedFloat.unpack Format.binary64 (UnpackedFloat.pack Format.binary64
    (UnpackedFloat.unpack Format.binary64 x.bits.toBitVec)) = left at hleft
  have hproduct : Modest 106 80
      (UnpackedFloat.mul Format.binary64 left (.finite .positive (2 ^ 52) (-52) hpos)) := by
    cases left with
    | zero s => trivial
    | finite s significand exponent h =>
        refine @roundWithAccuracy_modest 105 (-25) _ _ _ ?_ ?_ ?_ ?_
        · have hlt : significand * 2 ^ 52 < 2 ^ 53 * 2 ^ 52 :=
            Nat.mul_lt_mul_of_pos_right hleft.1 (by decide)
          exact hlt
        · have := hleft.2
          omega
        · omega
        · omega
    | _ => exact hleft.elim
  exact (unpack_pack_modest (e := 1200) hproduct (by decide) (by decide)).isInf

end Numeral

/-! ## Integers -/

namespace Binary64

theorem roundDiv_le (n d : Nat) : roundDiv n d ≤ n / d + 1 := by
  unfold roundDiv
  dsimp only
  split <;> omega

/-- An integer of 64 bits is a double with an exponent that is not large. -/
theorem exponentField_ofRatio {n : Nat} (hn : n < 2 ^ 64) : (ofRatio n 1).exponentField ≤ 1100 := by
  by_cases hzero : n = 0
  · subst hzero
    decide
  have hlog : n.log2 < 64 := (Nat.log2_lt hzero).2 hn
  have hlt : n < 2 ^ (n.log2 + 1) := Nat.lt_log2_self
  -- The last place is 52 or 53 below the leading bit, so some 54 bits remain.
  obtain ⟨unit, hunit, hlow, hhigh⟩ : ∃ unit : Int, ofRatio n 1 =
      ofMagnitude false (min ((unit + 1074).toNat * 2 ^ 52 +
        roundDiv (n * 2 ^ (-unit).toNat) (1 * 2 ^ unit.toNat)) infinityMagnitude) ∧
      (n.log2 : Int) - 53 ≤ unit ∧ unit ≤ n.log2 - 52 := by
    rw [ofRatio, if_neg hzero]
    refine ⟨_, rfl, ?_, ?_⟩ <;> (rw [show Nat.log2 1 = 0 from rfl]; split <;> omega)
  have hfew : n * 2 ^ (-unit).toNat < 1 * 2 ^ unit.toNat * 2 ^ 54 := by
    calc n * 2 ^ (-unit).toNat
        < 2 ^ (n.log2 + 1) * 2 ^ (-unit).toNat :=
          Nat.mul_lt_mul_of_pos_right hlt (Nat.two_pow_pos _)
      _ = 2 ^ (n.log2 + 1 + (-unit).toNat) := (Nat.pow_add ..).symm
      _ ≤ 2 ^ (unit.toNat + 54) := Nat.pow_le_pow_right (by decide) (by omega)
      _ = 1 * 2 ^ unit.toNat * 2 ^ 54 := by rw [Nat.pow_add, Nat.one_mul]
  have hround := roundDiv_le (n * 2 ^ (-unit).toNat) (1 * 2 ^ unit.toNat)
  have hquotient := Nat.div_lt_of_lt_mul hfew
  have hmagnitude : min ((unit + 1074).toNat * 2 ^ 52 +
      roundDiv (n * 2 ^ (-unit).toNat) (1 * 2 ^ unit.toNat)) infinityMagnitude <
        1101 * 2 ^ 52 := by
    refine Nat.lt_of_le_of_lt (Nat.min_le_left _ _) ?_
    omega
  rw [hunit, exponentField, magnitude_ofMagnitude (by omega)]
  omega

end Binary64

namespace Numeral

/-- More digits make no smaller number. -/
theorem le_foldl_digits (n : Nat) (ds : List Char) :
    n ≤ ds.foldl (fun n c => 10 * n + digitValue c) n := by
  induction ds generalizing n with
  | nil => exact Nat.le_refl n
  | cons d ds ih =>
      refine Nat.le_trans ?_ (ih (10 * n + digitValue d))
      omega

/-- Digits of an integer of 64 bits are all absorbed. -/
theorem absorb_eq {start : Nat} {ds : List Char}
    (h : ds.foldl (fun n c => 10 * n + digitValue c) start < 2 ^ 64) :
    absorb start ds = (ds.foldl (fun n c => 10 * n + digitValue c) start, ds.length) := by
  induction ds generalizing start with
  | nil => rfl
  | cons d ds ih =>
      have hnext : 10 * start + digitValue d < 2 ^ 64 := Nat.lt_of_le_of_lt (le_foldl_digits _ ds) h
      rw [absorb]
      dsimp only
      rw [if_pos hnext, ih h]
      rfl

/-- An integer of 64 bits counts as a double. -/
theorem binary64?_ofNat {n : Nat} (hn : n < 2 ^ 64) : (ofNat n).binary64?.isSome := by
  have habsorb : absorb 0 (Nat.toDigits 10 n) = (n, (Nat.toDigits 10 n).length) := by
    have hvalue := natValue_toDigits n
    rw [natValue] at hvalue
    rw [absorb_eq (by rw [hvalue]; exact hn), hvalue]
  have hscale : scale 4 (Binary64.ofRatio n 1).toFloat 0 =
      some ((Binary64.ofRatio n 1).toFloat * powerOfTen 0) := by
    have hfinite := isInf_mul_one (Binary64.exponentField_ofRatio hn)
    rw [scale, if_pos (by decide), if_pos (by decide)]
    exact if_neg (by rw [show Int.natAbs 0 = 0 from rfl, hfinite]; decide)
  have hvalue : (ofNat n).binary64? = (do
      let x ← scale 4 (Binary64.ofRatio (absorb 0 (Nat.toDigits 10 n)).1 1).toFloat
        (((Nat.toDigits 10 n).length - (absorb 0 (Nat.toDigits 10 n)).2 : Nat) - (0 : Nat) + 0)
      return .ofFloat x) := rfl
  rw [hvalue, habsorb]
  dsimp only
  rw [Nat.sub_self, show ((0 : Nat) : Int) - (0 : Nat) + 0 = 0 from rfl, hscale]
  rfl

end Numeral

end MotionMetadata
