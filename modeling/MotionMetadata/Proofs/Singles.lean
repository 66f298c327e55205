import MotionMetadata.Floating
import MotionMetadata.Proofs.Contracts
import MotionMetadata.Proofs.Integers

/-!
# Numbers of four bytes

A number of four bytes is widened when it is read and rounded when it is written, and the two
are defined apart, field by field of the pattern. They agree on every single that is a number:
its double is nearest to that single and to no other. A NaN keeps less than its payload, but it
is a NaN again. So what was read from four bytes always fits four bytes.
-/

namespace MotionMetadata

namespace Binary64

theorem roundDiv_mul {d : Nat} (hd : 0 < d) (n : Nat) : roundDiv (n * d) d = n := by
  rw [roundDiv, Nat.mul_mod_left, Nat.mul_div_cancel n hd]
  have hne : (0 == d) = false := by
    rw [beq_eq_false_iff_ne]
    omega
  simp [hne]

section Magnitude

variable {negative : Bool} {m : Nat}

theorem toNat_ofMagnitude (hm : m < 2 ^ 63) :
    (ofMagnitude negative m).bits.toNat = (if negative then 2 ^ 63 else 0) + m := by
  rw [ofMagnitude, UInt64.toNat_ofNat']
  refine Nat.mod_eq_of_lt ?_
  split <;> omega

theorem magnitude_ofMagnitude (hm : m < 2 ^ 63) : (ofMagnitude negative m).magnitude = m := by
  rw [magnitude, toNat_ofMagnitude hm]
  split <;> omega

theorem isNegative_ofMagnitude (hm : m < 2 ^ 63) :
    (ofMagnitude negative m).isNegative = negative := by
  rw [isNegative, toNat_ofMagnitude hm]
  cases negative
  · simp only [Bool.false_eq_true, if_false, decide_eq_false_iff_not]
    omega
  · simp

/-- Exponent and fraction of a magnitude that is put together from them. -/
theorem fields_ofMagnitude (negative : Bool) {e f : Nat} (he : e < 2 ^ 11) (hf : f < 2 ^ 52) :
    (ofMagnitude negative (e * 2 ^ 52 + f)).exponentField = e ∧
      (ofMagnitude negative (e * 2 ^ 52 + f)).fraction = f := by
  rw [exponentField, fraction, magnitude_ofMagnitude (by omega)]
  omega

end Magnitude

/-- The magnitude of the double that equals the single with these fields. -/
def widened (e f : Nat) : Nat :=
  if e = 255 then
    if f = 0 then infinityMagnitude else infinityMagnitude + ((2 ^ 22 ||| f) * 2 ^ 29)
  else if e = 0 then
    if f = 0 then 0 else (Nat.log2 f + 874) * 2 ^ 52 + (f - 2 ^ Nat.log2 f) * 2 ^ (52 - Nat.log2 f)
  else (e + 896) * 2 ^ 52 + f * 2 ^ 29

theorem ofSingleBits_eq (b : UInt32) :
    ofSingleBits b = ofMagnitude (decide (2 ^ 31 ≤ b.toNat))
      (widened (b.toNat % 2 ^ 31 / 2 ^ 23) (b.toNat % 2 ^ 23)) := rfl

/-- The magnitude of the single nearest to a double that is a number. -/
def narrowed (e f : Nat) : Nat :=
  if 897 ≤ e then min (roundDiv ((e - 896) * 2 ^ 52 + f) (2 ^ 29)) 0x7F800000
  else if e = 0 then 0
  else roundDiv (2 ^ 52 + f) (2 ^ min (926 - e) 64)

theorem toSingleBits_eq {x : Binary64} (h : x.isNaN = false) :
    x.toSingleBits = UInt32.ofNat ((if x.isNegative then 2 ^ 31 else 0) +
      narrowed x.exponentField x.fraction) := by
  rw [toSingleBits, narrowed, h]
  rfl

section Subnormal

variable {f : Nat}

theorem two_pow_split {k n : Nat} (h : k ≤ n) : 2 ^ n = 2 ^ k * 2 ^ (n - k) := by
  rw [← Nat.pow_add, Nat.add_sub_cancel' h]

/-- The leading bit of a fraction moves out of it, and the rest fills a fraction again. -/
theorem subnormal_fields (hpos : f ≠ 0) (hf : f < 2 ^ 23) :
    Nat.log2 f ≤ 22 ∧ (f - 2 ^ Nat.log2 f) * 2 ^ (52 - Nat.log2 f) < 2 ^ 52 := by
  have hlow : 2 ^ Nat.log2 f ≤ f := Nat.log2_self_le hpos
  have hhigh : f < 2 ^ (Nat.log2 f + 1) := Nat.lt_log2_self
  have hlog : Nat.log2 f < 23 := (Nat.log2_lt hpos).2 hf
  refine ⟨by omega, ?_⟩
  rw [Nat.pow_succ] at hhigh
  have hrest : f - 2 ^ Nat.log2 f < 2 ^ Nat.log2 f := by omega
  rw [two_pow_split (show Nat.log2 f ≤ 52 by omega)]
  exact (Nat.mul_lt_mul_right (Nat.two_pow_pos _)).2 hrest

theorem narrowed_subnormal (hpos : f ≠ 0) (hf : f < 2 ^ 23) :
    narrowed (Nat.log2 f + 874) ((f - 2 ^ Nat.log2 f) * 2 ^ (52 - Nat.log2 f)) = f := by
  obtain ⟨hlog, _⟩ := subnormal_fields hpos hf
  have hlow : 2 ^ Nat.log2 f ≤ f := Nat.log2_self_le hpos
  have hshift : min (926 - (Nat.log2 f + 874)) 64 = 52 - Nat.log2 f := by omega
  have hvalue : 2 ^ 52 + (f - 2 ^ Nat.log2 f) * 2 ^ (52 - Nat.log2 f) =
      f * 2 ^ (52 - Nat.log2 f) := by
    have hsplit := two_pow_split (show Nat.log2 f ≤ 52 by omega)
    generalize 2 ^ Nat.log2 f = high at hlow hsplit ⊢
    generalize 2 ^ (52 - Nat.log2 f) = scale at hsplit ⊢
    rw [hsplit, ← Nat.add_mul, Nat.add_sub_cancel' hlow]
  rw [narrowed, if_neg (by omega), if_neg (by omega), hshift, hvalue,
    roundDiv_mul (Nat.two_pow_pos _)]

end Subnormal

/-- A single of these fields comes back from its double, unless it is NaN. -/
theorem narrowed_widened {e f : Nat} (negative : Bool) (he : e ≤ 255) (hf : f < 2 ^ 23)
    (hnumber : e = 255 → f = 0) :
    widened e f < 2 ^ 63 ∧ widened e f ≤ infinityMagnitude ∧
      narrowed (ofMagnitude negative (widened e f)).exponentField
        (ofMagnitude negative (widened e f)).fraction = e * 2 ^ 23 + f := by
  rw [infinityMagnitude]
  by_cases hinf : e = 255
  · obtain rfl := hinf
    obtain rfl := hnumber rfl
    have hm : widened 255 0 = 2047 * 2 ^ 52 + 0 := rfl
    rw [hm, (fields_ofMagnitude _ (by decide) (by decide)).1,
      (fields_ofMagnitude _ (by decide) (by decide)).2]
    exact ⟨by decide, by decide, rfl⟩
  · rw [widened, if_neg hinf]
    by_cases hzero : e = 0
    · obtain rfl := hzero
      rw [if_pos rfl]
      by_cases hf0 : f = 0
      · obtain rfl := hf0
        rw [if_pos rfl]
        have hm : (0 : Nat) = 0 * 2 ^ 52 + 0 := rfl
        rw [hm, (fields_ofMagnitude _ (by decide) (by decide)).1,
          (fields_ofMagnitude _ (by decide) (by decide)).2]
        exact ⟨by decide, by decide, rfl⟩
      · rw [if_neg hf0]
        obtain ⟨hlog, hfraction⟩ := subnormal_fields hf0 hf
        have hfields := fields_ofMagnitude negative (show Nat.log2 f + 874 < 2 ^ 11 by omega)
          hfraction
        rw [hfields.1, hfields.2, narrowed_subnormal hf0 hf]
        exact ⟨by omega, by omega, by omega⟩
    · rw [if_neg hzero]
      have hfields := fields_ofMagnitude negative (show e + 896 < 2 ^ 11 by omega)
        (show f * 2 ^ 29 < 2 ^ 52 by omega)
      have hround : roundDiv ((e + 896 - 896) * 2 ^ 52 + f * 2 ^ 29) (2 ^ 29) =
          e * 2 ^ 23 + f := by
        have hfactor : (e + 896 - 896) * 2 ^ 52 + f * 2 ^ 29 = (e * 2 ^ 23 + f) * 2 ^ 29 := by
          omega
        rw [hfactor, roundDiv_mul (Nat.two_pow_pos _)]
      rw [hfields.1, hfields.2, narrowed, if_pos (by omega), hround]
      exact ⟨by omega, by omega, by omega⟩

/-- The fields of a single whose double is a number. -/
theorem number_of_not_isNaN {b : UInt32} (h : (ofSingleBits b).isNaN = false) :
    b.toNat % 2 ^ 31 / 2 ^ 23 = 255 → b.toNat % 2 ^ 23 = 0 := by
  intro he
  by_contra hf
  have hlt : 2 ^ 22 ||| b.toNat % 2 ^ 23 < 2 ^ 23 :=
    Nat.or_lt_two_pow (by decide) (Nat.mod_lt _ (by decide))
  have hpos : 2 ^ 22 ≤ 2 ^ 22 ||| b.toNat % 2 ^ 23 := Nat.left_le_or
  have hm : widened (b.toNat % 2 ^ 31 / 2 ^ 23) (b.toNat % 2 ^ 23) =
      infinityMagnitude + ((2 ^ 22 ||| b.toNat % 2 ^ 23) * 2 ^ 29) := by
    rw [widened, if_pos he, if_neg hf]
  rw [ofSingleBits_eq, hm] at h
  generalize 2 ^ 22 ||| b.toNat % 2 ^ 23 = payload at h hlt hpos
  rw [isNaN, magnitude_ofMagnitude (by rw [infinityMagnitude]; omega),
    decide_eq_false_iff_not] at h
  omega

/-- A single comes back from its double, unless it is NaN. -/
theorem toSingleBits_ofSingleBits {b : UInt32} (h : (ofSingleBits b).isNaN = false) :
    (ofSingleBits b).toSingleBits = b := by
  have hb := b.toNat_lt
  obtain ⟨hlt, _, hnarrowed⟩ := narrowed_widened (decide (2 ^ 31 ≤ b.toNat))
    (e := b.toNat % 2 ^ 31 / 2 ^ 23) (f := b.toNat % 2 ^ 23) (by omega) (by omega)
    (number_of_not_isNaN h)
  rw [toSingleBits_eq h, ofSingleBits_eq, isNegative_ofMagnitude hlt, hnarrowed]
  have hsum : (if decide (2 ^ 31 ≤ b.toNat) = true then 2 ^ 31 else 0) +
      (b.toNat % 2 ^ 31 / 2 ^ 23 * 2 ^ 23 + b.toNat % 2 ^ 23) = b.toNat := by
    simp only [decide_eq_true_eq]
    split <;> omega
  rw [hsum, UInt32.ofNat_toNat]

/-- A finite double that a single was widened to is not rounded to infinity. -/
theorem isInfiniteSingle_ofSingleBits {b : UInt32} (h : (ofSingleBits b).isFinite) :
    isInfiniteSingle (ofSingleBits b).toSingleBits = false := by
  rw [isFinite, decide_eq_true_iff] at h
  have hnan : (ofSingleBits b).isNaN = false := by
    rw [isNaN, decide_eq_false_iff_not]
    omega
  rw [toSingleBits_ofSingleBits hnan, isInfiniteSingle, beq_eq_false_iff_ne]
  intro hinf
  have he : b.toNat % 2 ^ 31 / 2 ^ 23 = 255 := by omega
  have hf : b.toNat % 2 ^ 23 = 0 := number_of_not_isNaN hnan he
  rw [ofSingleBits_eq, he, hf] at h
  rw [magnitude_ofMagnitude (by decide)] at h
  exact absurd h (by decide)

theorem equals_self {x : Binary64} (h : x.isNaN = false) : x.equals x := by
  simp [equals, h]

end Binary64

namespace Floating

/-- Whether a number can be written in so many bytes. -/
def Fits (x : Binary64) (width : Nat) : Prop :=
  width = 8 ∨ width = 4 ∧ (x.isFinite → Binary64.isInfiniteSingle x.toSingleBits = false)

theorem read_yields (width : Nat) :
    (read width).Yields fun x => Fits x width ∧
      (width = 4 → ∃ b, x = Binary64.ofSingleBits b) := by
  rw [read]
  refine .after fun start => ?_
  split
  · refine .after fun raw => .pure ⟨.inr ⟨rfl, fun h => ?_⟩, fun _ => ⟨_, rfl⟩⟩
    exact Binary64.isInfiniteSingle_ofSingleBits h
  · exact .after fun raw => .pure ⟨.inl rfl, fun h => absurd h (by decide)⟩
  · exact .raiseAt _ _

theorem write_writes {x : Binary64} {width : Nat} (h : Fits x width) :
    (write x width).Writes width := by
  rcases h with rfl | ⟨rfl, hfinite⟩
  · exact BigEndian.length_bytes 8 x.bits.toNat ▸ .emit _
  · have hwrite : write x 4 = Encoder.emit (BigEndian.bytes 4 x.toSingleBits.toNat) := by
      have hcond : ¬ (x.isFinite && Binary64.isInfiniteSingle x.toSingleBits) = true := by
        intro hboth
        rw [Bool.and_eq_true] at hboth
        rw [hfinite hboth.1] at hboth
        cases hboth.2
      rw [write]
      dsimp only
      rw [if_neg hcond]
    rw [hwrite]
    exact BigEndian.length_bytes 4 x.toSingleBits.toNat ▸ .emit _

end Floating

end MotionMetadata
