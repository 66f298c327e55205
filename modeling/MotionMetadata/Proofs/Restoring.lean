import MotionMetadata.Proofs.Fields
import MotionMetadata.Proofs.LegalLengths
import MotionMetadata.Proofs.Text

/-!
# Untouched fields come back

A set remembers of each field how wide it was, so that what nobody touched is written as it
was read. Why that works is different for every kind of field: bytes that were not understood
are kept, integers are padded to the width they had, and texts have only one encoding. These
are the kinds that nest nothing. An element of a series has no width that is remembered, so it
matters here as well which of them tell their own length.
-/

namespace MotionMetadata

namespace Codec

variable {codec : Codec} {v : Value} {data : Bytes}

/-! ## Fields of one kind -/

/-- What was read from `data` is written as `data`, wherever it is written, and a set that
remembers the width gives it as much room. -/
structure Restores (codec : Codec) (v : Value) (data : Bytes) : Prop where
  hinted : codec.hintedLength v (some data.length) = .ok data.length
  written : ∀ position, codec.writeField v data.length position = .ok ((), data)

/-- What becomes of a field: it is empty, its bytes are kept, or its codec has read them. -/
theorem onField_cases (h : codec.onField data = .ok v) :
    (data = [] ∧ v = .empty) ∨ v = .blob data ∨
      (data ≠ [] ∧ codec.constraint.allows data.length ∧
        ∃ after, codec.read data.length (Cursor.ofBytes data) = .ok v after ∧
          after.consumed = data.length) := by
  match data with
  | [] =>
      injection h with h
      exact .inl ⟨rfl, h.symm⟩
  | b :: rest =>
      refine .inr ?_
      have hfield : (Cursor.ofBytes (b :: rest)).field (b :: rest).length =
          Cursor.ofBytes (b :: rest) := by
        rw [Cursor.field, Cursor.rest_ofBytes, List.take_length]
        rfl
      rw [onField, Reader.onBytes, readField_of_le (by simp) (by simp), hfield, content] at h
      by_cases hallows : codec.constraint.allows (b :: rest).length
      · rw [if_pos hallows] at h
        cases hread : codec.read (b :: rest).length (Cursor.ofBytes (b :: rest)) with
        | error e after =>
            rw [hread, settle] at h
            by_cases hdepth : e.kind = .depth
            · rw [if_pos hdepth] at h
              cases h
            · rw [if_neg hdepth] at h
              injection h with h
              exact .inl h.symm
        | ok value after =>
            rw [hread, settle] at h
            by_cases hused : after.consumed = (b :: rest).length
            · rw [if_pos hused] at h
              injection h with h
              exact .inr ⟨by simp, hallows, after, by rw [h], hused⟩
            · rw [if_neg hused] at h
              injection h with h
              exact .inl h.symm
      · rw [if_neg hallows] at h
        injection h with h
        exact .inl h.symm

theorem restores_empty : codec.Restores .empty [] := ⟨rfl, fun _ => rfl⟩

/-- Bytes that are kept are written back whatever the codec. -/
theorem restores_blob (data : Bytes) : codec.Restores (.blob data) data := by
  refine ⟨?_, fun position => ?_⟩
  · rw [hintedLength, keepsWidth]
    rfl
  · exact writeField_eq_ok.2 ⟨rfl, rfl⟩

/-- A field comes back if what its codec reads does. -/
theorem restores_of_read {Q : Prop} (h : codec.onField data = .ok v)
    (hread : ∀ after, codec.constraint.allows data.length →
      codec.read data.length (Cursor.ofBytes data) = .ok v after →
        codec.Restores v data ∧ (Q → codec.fieldLength v = .ok data.length)) :
    codec.Restores v data ∧ (Q → codec.fieldLength v = .ok data.length) := by
  rcases onField_cases h with ⟨rfl, rfl⟩ | rfl | ⟨_, hallows, after, hok, _⟩
  · exact ⟨restores_empty, fun _ => rfl⟩
  · exact ⟨restores_blob data, fun _ => rfl⟩
  · exact hread after hallows hok

theorem writeContent_of_isDecoded (hv : v.isDecoded) (length : Nat) :
    codec.writeContent v length = codec.write v length := by
  cases v <;> first | rfl | cases hv

theorem fieldLength_of_isDecoded (hv : v.isDecoded) :
    codec.fieldLength v =
      match codec.constraint.fixedLength with
      | some fixed => .ok fixed
      | none => codec.naturalLength v := by
  cases v <;> first | rfl | cases hv

/-- A field with just one length has it. -/
theorem fieldLength_of_fixed {n : Nat} (hv : v.isDecoded)
    (hfixed : codec.constraint.fixedLength = some n)
    (hallows : codec.constraint.allows data.length) : codec.fieldLength v = .ok data.length := by
  rw [fieldLength_of_isDecoded hv, hfixed, LengthConstraint.eq_of_fixedLength hfixed hallows]

theorem hintedLength_of_fieldLength (h : codec.fieldLength v = .ok data.length) :
    codec.hintedLength v (some data.length) = .ok data.length := by
  rw [hintedLength]
  split
  · rfl
  · exact h

/-- A value that fits the width it came in keeps it, be it the only one or not. -/
theorem hintedLength_of_fits (hv : v.isDecoded)
    (hallows : codec.constraint.allows data.length) (hfits : codec.fits v data.length) :
    codec.hintedLength v (some data.length) = .ok data.length := by
  cases hfixed : codec.constraint.fixedLength with
  | some n => exact hintedLength_of_fieldLength (fieldLength_of_fixed hv hfixed hallows)
  | none =>
      rw [hintedLength, keepsWidth, hv, hfixed, hallows, hfits]
      rfl

theorem written_of_write (hv : v.isDecoded)
    (hwrite : ∀ position, codec.write v data.length position = .ok ((), data)) (position : Nat) :
    codec.writeField v data.length position = .ok ((), data) := by
  refine writeField_eq_ok.2 ⟨?_, rfl⟩
  rw [writeContent_of_isDecoded hv]
  exact hwrite position

/-- What is written of a value that is not kept as bytes is what its codec writes. -/
theorem write_of_writeField {n position : Nat} {bytes : Bytes} (hv : v.isDecoded)
    (h : codec.writeField v n position = .ok ((), bytes)) :
    codec.write v n position = .ok ((), bytes) ∧ bytes.length = n := by
  obtain ⟨hwrite, hlength⟩ := writeField_eq_ok.1 h
  rw [writeContent_of_isDecoded hv] at hwrite
  exact ⟨hwrite, hlength⟩

/-! ## Numbers and text -/

theorem uint_restores {c : LengthConstraint} (h : (uint c).onField data = .ok v) :
    (uint c).Restores v data ∧
      (c.fixedLength.isSome → (uint c).fieldLength v = .ok data.length) := by
  refine restores_of_read h fun after hallows hread => ?_
  obtain ⟨raw, d, hraw, hpure⟩ := Reader.bind_eq_ok.1 hread
  injection hpure with hv _
  obtain ⟨⟨hpos, hle⟩, _, rfl, _⟩ := Integer.readUnsigned_eq_ok.1 hraw
  rw [Cursor.rest_ofBytes, List.take_length] at hv
  subst hv
  have hwidth := Integer.unsignedWidth_le_iff.2
    ⟨hpos, (Integer.toNat_value_of_le hle).symm ▸ BigEndian.value_lt data⟩
  refine ⟨⟨hintedLength_of_fits rfl hallows ?_, written_of_write rfl fun position => ?_⟩,
    fun hfixed => ?_⟩
  · show (_ && _) = true
    rw [Bool.and_eq_true, decide_eq_true_iff, decide_eq_true_iff]
    exact ⟨hwidth, hle⟩
  · exact Encoder.ofExcept_bind_eq_ok.2
      ⟨_, rfl, Integer.writeUnsigned_value hpos hle position⟩
  · obtain ⟨n, hn⟩ := Option.isSome_iff_exists.1 hfixed
    exact fieldLength_of_fixed rfl hn hallows

theorem sint_restores {c : LengthConstraint} (h : (sint c).onField data = .ok v) :
    (sint c).Restores v data ∧
      (c.fixedLength.isSome → (sint c).fieldLength v = .ok data.length) := by
  refine restores_of_read h fun after hallows hread => ?_
  obtain ⟨raw, d, hraw, hpure⟩ := Reader.bind_eq_ok.1 hread
  injection hpure with hv _
  obtain ⟨⟨hpos, hle⟩, _, rfl, _⟩ := Integer.readSigned_eq_ok.1 hraw
  rw [Cursor.rest_ofBytes, List.take_length] at hv
  subst hv
  refine ⟨⟨hintedLength_of_fits rfl hallows ?_, written_of_write rfl fun position => ?_⟩,
    fun hfixed => ?_⟩
  · show (_ && _) = true
    rw [Bool.and_eq_true, decide_eq_true_iff, decide_eq_true_iff]
    exact ⟨Integer.signedWidth_value_le hpos hle, hle⟩
  · exact Encoder.ofExcept_bind_eq_ok.2
      ⟨_, rfl, Integer.writeSigned_value hpos hle position⟩
  · obtain ⟨n, hn⟩ := Option.isSome_iff_exists.1 hfixed
    exact fieldLength_of_fixed rfl hn hallows

/-- Bytes are written back as they are, be they kept or read as such. -/
theorem blob_restores {c : LengthConstraint} (h : (blob c).onField data = .ok v) :
    (blob c).Restores v data ∧ (blob c).fieldLength v = .ok data.length := by
  rcases onField_cases h with ⟨rfl, rfl⟩ | rfl | ⟨_, _, after, hread, _⟩
  · exact ⟨restores_empty, rfl⟩
  · exact ⟨restores_blob data, rfl⟩
  · obtain ⟨bytes, d, htake, hpure⟩ := Reader.bind_eq_ok.1 hread
    injection hpure with hv _
    obtain ⟨_, rfl, _⟩ := Reader.take_eq_ok.1 htake
    rw [Cursor.rest_ofBytes, List.take_length] at hv
    rw [← hv]
    exact ⟨restores_blob data, rfl⟩

/-- The bytes that a text is written in: its encoding, or the byte that stands for no text. -/
def SpellsText (encoding : Text.Encoding) (s : String) (data : Bytes) : Prop :=
  if s.isEmpty then data = emptyText else encoding.encode s = .ok data

/-- What a text is read from is what it is written as. -/
theorem text_read {encoding : Text.Encoding} {characters c : LengthConstraint} {n : Nat}
    {cursor after : Cursor} (hn : n ≠ 0)
    (h : (text encoding characters c).read n cursor = .ok v after) :
    n ≤ cursor.rest.length ∧ ∃ s : String, v = .string s ∧
      SpellsText encoding s (cursor.rest.take n) := by
  obtain ⟨start, d, hstart, hrest⟩ := Reader.bind_eq_ok.1 h
  injection hstart with _ hd
  obtain ⟨bytes, d', htake, hdecode⟩ := Reader.bind_eq_ok.1 hrest
  obtain ⟨hle, rfl, _⟩ := Reader.take_eq_ok.1 htake
  rw [← hd] at hdecode hle
  refine ⟨hle, ?_⟩
  have hlength : (cursor.rest.take n).length = n := List.length_take_of_le hle
  generalize cursor.rest.take n = data at hdecode hlength ⊢
  by_cases hnone : data == emptyText
  · rw [if_pos hnone] at hdecode
    injection hdecode with hv _
    refine ⟨"", hv.symm, ?_⟩
    rw [SpellsText, if_pos (show "".isEmpty = true from rfl)]
    exact eq_of_beq hnone
  · rw [if_neg hnone] at hdecode
    cases htext : encoding.decode data with
    | error e =>
        rw [htext] at hdecode
        cases hdecode
    | ok s =>
        rw [htext] at hdecode
        injection hdecode with hv _
        refine ⟨s, hv.symm, ?_⟩
        have hne : data ≠ [] := by
          rintro rfl
          exact hn hlength.symm
        rw [SpellsText, if_neg fun hs => hne (Text.Encoding.decode_eq_empty htext hs)]
        exact Text.Encoding.encode_decode htext

/-- A text has the length that it was read from. -/
theorem text_fieldLength {encoding : Text.Encoding} {characters c : LengthConstraint} {s : String}
    (hallows : c.allows data.length) (hs : SpellsText encoding s data) :
    (text encoding characters c).fieldLength (.string s) = .ok data.length := by
  cases hfixed : c.fixedLength with
  | some n => exact fieldLength_of_fixed rfl hfixed hallows
  | none =>
      have hnatural : (text encoding characters c).naturalLength (.string s) =
          .ok (if s.isEmpty then emptyText.length else encoding.width s) := rfl
      have hconstraint : (text encoding characters c).constraint = c := rfl
      rw [fieldLength_of_isDecoded rfl, hconstraint, hfixed]
      dsimp only
      rw [hnatural]
      rw [SpellsText] at hs
      split at hs
      · next hempty => rw [if_pos hempty, hs]
      · next hempty => rw [if_neg hempty, Text.Encoding.length_encode hs]

theorem text_write {encoding : Text.Encoding} {characters c : LengthConstraint} {s : String}
    {length : Nat} (hs : SpellsText encoding s data) (position : Nat) :
    (text encoding characters c).write (.string s) length position = .ok ((), data) := by
  refine Encoder.ofExcept_bind_eq_ok.2 ⟨s, rfl, ?_⟩
  rw [SpellsText] at hs
  split at hs
  · next hempty =>
      rw [if_pos hempty, hs]
      rfl
  · next hempty =>
      rw [if_neg hempty]
      exact Encoder.ofExcept_bind_eq_ok.2 ⟨data, hs, rfl⟩

theorem text_restores {encoding : Text.Encoding} {characters c : LengthConstraint}
    (h : (text encoding characters c).onField data = .ok v) :
    (text encoding characters c).Restores v data ∧
      (text encoding characters c).fieldLength v = .ok data.length := by
  rcases onField_cases h with ⟨rfl, rfl⟩ | rfl | ⟨hdata, hallows, after, hread, _⟩
  · exact ⟨restores_empty, rfl⟩
  · exact ⟨restores_blob data, rfl⟩
  · obtain ⟨_, s, rfl, hs⟩ := text_read (List.length_pos_iff.2 hdata).ne' hread
    rw [Cursor.rest_ofBytes, List.take_length] at hs
    have hlength : (text encoding characters c).fieldLength (.string s) = .ok data.length :=
      text_fieldLength hallows hs
    exact ⟨⟨hintedLength_of_fieldLength hlength, written_of_write rfl (text_write hs)⟩, hlength⟩

end Codec

end MotionMetadata
