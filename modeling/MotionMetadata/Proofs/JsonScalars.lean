import MotionMetadata.Json.Value
import MotionMetadata.Proofs.Labels
import MotionMetadata.Proofs.WholeNumbers

/-!
# What stands for bytes and numbers

JSON has no bytes and no integers of a fixed width. Bytes are read back from their text in
base 64, and an integer from its numeral. A double is read back from its numeral only as far
as reading numerals goes, so for doubles this is a question and not an answer.
-/

namespace MotionMetadata

/-! ## Base 64 -/

namespace Text.Base64

theorem value?_digit : ∀ n < 64, value? (digit n) = some n := by
  decide

theorem digit_ne_equals : ∀ n < 64, digit n ≠ '=' := by
  decide

theorem decodeChars_encodeChars (bytes : Bytes) : decodeChars (encodeChars bytes) = some bytes := by
  induction bytes using encodeChars.induct with
  | case1 => rfl
  | case2 a =>
      have ha := a.toNat_lt
      rw [encodeChars, decodeChars, value?_digit _ (by omega), value?_digit _ (by omega)]
      show (if (a.toNat % 4 * 16) % 16 ≠ 0 then none
        else some [UInt8.ofNat (a.toNat / 4 * 4 + a.toNat % 4 * 16 / 16)]) = _
      rw [if_neg (by omega), Utf8.ofNat_eq (b := a) (by omega)]
  | case3 a b =>
      have ha := a.toNat_lt
      have hb := b.toNat_lt
      rw [encodeChars, decodeChars, value?_digit _ (by omega), value?_digit _ (by omega),
        value?_digit _ (by omega)]
      · show (if (b.toNat % 16 * 4) % 4 ≠ 0 then none
          else some [UInt8.ofNat (a.toNat / 4 * 4 + (a.toNat % 4 * 16 + b.toNat / 16) / 16),
            UInt8.ofNat ((a.toNat % 4 * 16 + b.toNat / 16) % 16 * 16 + b.toNat % 16 * 4 / 4)]) = _
        rw [if_neg (by omega), Utf8.ofNat_eq (b := a) (by omega), Utf8.ofNat_eq (b := b) (by omega)]
      · exact digit_ne_equals _ (by omega)
  | case4 a b c rest ih =>
      have ha := a.toNat_lt
      have hb := b.toNat_lt
      have hc := c.toNat_lt
      rw [encodeChars, decodeChars, value?_digit _ (by omega), value?_digit _ (by omega),
        value?_digit _ (by omega), value?_digit _ (by omega), ih]
      · show some (UInt8.ofNat (a.toNat / 4 * 4 + (a.toNat % 4 * 16 + b.toNat / 16) / 16) ::
          UInt8.ofNat ((a.toNat % 4 * 16 + b.toNat / 16) % 16 * 16 +
            (b.toNat % 16 * 4 + c.toNat / 64) / 4) ::
          UInt8.ofNat ((b.toNat % 16 * 4 + c.toNat / 64) % 4 * 64 + c.toNat % 64) :: rest) = _
        rw [Utf8.ofNat_eq (b := a) (by omega), Utf8.ofNat_eq (b := b) (by omega),
          Utf8.ofNat_eq (b := c) (by omega)]
      · exact fun _ h _ => digit_ne_equals _ (by omega) h
      · exact fun h _ => digit_ne_equals _ (by omega) h

/-- Bytes are read back from their text. -/
theorem decode?_encode (bytes : Bytes) : decode? (encode bytes) = some bytes := by
  rw [decode?, encode, String.toList_ofList, decodeChars_encodeChars]

end Text.Base64

/-! ## Numbers -/

namespace Json

theorem asUInt64?_ofNat (v : UInt64) : (ofNat v.toNat).asUInt64? = some v := by
  have hv : (v.toNat : Int) < 2 ^ 64 := by exact_mod_cast v.toNat_lt
  rw [asUInt64?, ofNat, asInteger?, Numeral.integer?_ofNat, Option.bind_eq_bind, Option.bind_some,
    if_pos ⟨Int.natCast_nonneg _, hv⟩, Int.toNat_natCast, UInt64.ofNat_toNat]

theorem asInt64?_ofInt (v : Int64) : (ofInt v.toInt).asInt64? = some v := by
  rw [asInt64?, ofInt, asInteger?, Numeral.integer?_ofInt, Option.bind_eq_bind, Option.bind_some,
    if_pos ⟨Int64.le_toInt v, Int64.toInt_lt v⟩, Int64.ofInt_toInt]

end Json

end MotionMetadata
