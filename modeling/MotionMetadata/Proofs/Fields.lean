import MotionMetadata.Proofs.Locality
import MotionMetadata.Proofs.Writing

/-!
# What a field becomes

Reading a field cannot go wrong but by nesting too deep: everything else ends as the empty
value, as an interpreted one or as the bytes themselves. So a codec makes something of any
byte string, `Codec.onField`, and that is what it makes of the string wherever it stands as a
field. Writing a field succeeds exactly if what comes out has the length that was announced.
-/

namespace MotionMetadata

namespace Codec

variable {codec : Codec}

/-- What the codec makes of a byte string that is a field. -/
def onField (codec : Codec) (data : Bytes) : Except Error Value :=
  (codec.readField data.length).onBytes data

/-- What the codec makes of the bytes of a field, its cursor given. -/
def content (codec : Codec) (length : Nat) (field : Cursor) : Except Error Value :=
  if codec.constraint.allows length then settle length field.rest (codec.read length field)
  else .ok (.blob field.rest)

theorem readField_zero (c : Cursor) : codec.readField 0 c = .ok .empty c := rfl

theorem readField_of_le {n : Nat} {c : Cursor} (hpos : 0 < n) (hle : n ≤ c.rest.length) :
    codec.readField n c =
      match codec.content n (c.field n) with
      | .ok value => .ok value (c.advance n)
      | .error e => .error e (c.advance n) := by
  rw [readField, if_neg (by omega), Reader.bind_of_ok (Reader.enter_of_le hle), content]
  by_cases hallows : codec.constraint.allows n
  · rw [if_pos hallows, if_pos hallows]
    cases settle n (c.field n).rest (codec.read n (c.field n)) <;> rfl
  · rw [if_neg hallows, if_neg hallows]
    rfl

/-- The only failure that reading a field does not absorb. -/
theorem settle_error {n : Nat} {kept : Bytes} {result : EStateM.Result Error Cursor Value}
    {e : Error} (h : settle n kept result = .error e) : e.kind = .depth := by
  match result with
  | .ok value after => cases h
  | .error e' after =>
      rw [settle] at h
      split at h
      · next hdepth =>
          injection h with h
          rw [← h]
          exact hdepth
      · cases h

theorem content_error {n : Nat} {field : Cursor} {e : Error}
    (h : codec.content n field = .error e) : e.kind = .depth := by
  rw [content] at h
  split at h
  · exact settle_error h
  · cases h

theorem onField_nil : codec.onField [] = .ok .empty := rfl

theorem onField_error {data : Bytes} {e : Error} (h : codec.onField data = .error e) :
    e.kind = .depth := by
  match data with
  | [] =>
      rw [onField_nil] at h
      cases h
  | b :: rest =>
      rw [onField, Reader.onBytes,
        readField_of_le (by simp) (by simp)] at h
      cases hcontent :
          codec.content (b :: rest).length ((Cursor.ofBytes (b :: rest)).field (b :: rest).length)
        with
      | ok value =>
          rw [hcontent] at h
          cases h
      | error e' =>
          rw [hcontent] at h
          injection h with h
          rw [← h]
          exact content_error hcontent

/-- What is read of all the bytes of a field is what becomes of it. -/
theorem onField_of_reads {data : Bytes} {v : Value} (hne : data ≠ [])
    (hallows : codec.constraint.allows data.length)
    (hread : (codec.read data.length).Reads data v) : codec.onField data = .ok v := by
  have hpos := List.length_pos_iff.2 hne
  have hfield : ((Cursor.ofBytes data).field data.length).rest = data ++ [] := by
    rw [Cursor.rest_field, Cursor.rest_ofBytes, List.take_length, List.append_nil]
  rw [onField, Reader.onBytes, readField_of_le hpos (Nat.le_refl _), content, if_pos hallows,
    hread _ [] hfield, settle, Cursor.consumed_advance, Cursor.consumed_field, Nat.zero_add,
    if_pos rfl]

/-- What a codec refuses is kept as it is. -/
theorem onField_of_refused {data : Bytes} (hne : data ≠ [])
    (hread : ∀ c, c.rest = data → ∃ e d, codec.read data.length c = .error e d ∧ e.kind ≠ .depth) :
    codec.onField data = .ok (.blob data) := by
  have hpos := List.length_pos_iff.2 hne
  have hfield : ((Cursor.ofBytes data).field data.length).rest = data := by
    rw [Cursor.rest_field, Cursor.rest_ofBytes, List.take_length]
  have hcontent : codec.content data.length ((Cursor.ofBytes data).field data.length) =
      .ok (.blob data) := by
    rw [content, hfield]
    split
    · obtain ⟨e, d, herror, hkind⟩ := hread _ hfield
      rw [herror, settle, if_neg hkind]
    · rfl
  rw [onField, Reader.onBytes, readField_of_le hpos (Nat.le_refl _), hcontent]

/-- A field of bytes that are there is read as what the codec makes of them. -/
theorem readField_eq_onField (hlocal : ∀ n, Reader.Local (codec.read n)) {data t : Bytes}
    {c : Cursor} (hc : c.rest = data ++ t) :
    match codec.onField data with
    | .ok value => codec.readField data.length c = .ok value (c.advance data.length)
    | .error _ => ∃ e, codec.readField data.length c = .error e (c.advance data.length) ∧
        e.kind = .depth := by
  match data with
  | [] =>
      rw [onField_nil]
      exact readField_zero c
  | b :: rest =>
      have hle : (b :: rest).length ≤ c.rest.length := by
        rw [hc, List.length_append]
        omega
      rw [readField_of_le (by simp) hle, onField, Reader.onBytes,
        readField_of_le (by simp) (by simp)]
      -- Both fields are over the same bytes, and only their positions differ.
      have hrest : (c.field (b :: rest).length).rest =
          ((Cursor.ofBytes (b :: rest)).field (b :: rest).length).rest := by
        rw [Cursor.rest_field, Cursor.rest_field, hc, List.take_left, Cursor.rest_ofBytes,
          List.take_length]
      have hcontent : codec.content (b :: rest).length (c.field (b :: rest).length) =
          codec.content (b :: rest).length
            ((Cursor.ofBytes (b :: rest)).field (b :: rest).length) ∨
          ∃ e e', codec.content (b :: rest).length (c.field (b :: rest).length) = .error e ∧
            codec.content (b :: rest).length
              ((Cursor.ofBytes (b :: rest)).field (b :: rest).length) = .error e' := by
        rw [content, content, hrest]
        have hsame := hlocal (b :: rest).length c.position _ _ hrest (Nat.zero_add _).symm
        split
        · generalize codec.read (b :: rest).length
            ((Cursor.ofBytes (b :: rest)).field (b :: rest).length) = r at hsame ⊢
          generalize codec.read (b :: rest).length (c.field (b :: rest).length) = r' at hsame ⊢
          rcases r with ⟨v, d⟩ | ⟨e, d⟩ <;> rcases r' with ⟨v', d'⟩ | ⟨e', d'⟩
          · obtain ⟨hv, n, _, hd, hd'⟩ := hsame
            refine .inl ?_
            rw [settle, settle, hv, hd, hd']
            rfl
          · exact hsame.elim
          · exact hsame.elim
          · rw [settle, settle, Error.kind, Error.kind, hsame.1]
            split
            · exact .inr ⟨e', e, rfl, rfl⟩
            · exact .inl rfl
        · exact .inl rfl
      rcases hcontent with heq | ⟨e, e', he, he'⟩
      · rw [heq]
        cases h : codec.content (b :: rest).length
            ((Cursor.ofBytes (b :: rest)).field (b :: rest).length) with
        | ok value => rfl
        | error e => exact ⟨e, rfl, content_error h⟩
      · rw [he, he']
        exact ⟨e, rfl, content_error he⟩

/-- A field that was read is what the codec makes of its bytes. -/
theorem onField_of_readField (hlocal : ∀ n, Reader.Local (codec.read n)) {data t : Bytes}
    {c d : Cursor} {value : Value} (hc : c.rest = data ++ t)
    (h : codec.readField data.length c = .ok value d) :
    codec.onField data = .ok value ∧ d.rest = t := by
  have honField := readField_eq_onField hlocal hc
  cases hvalue : codec.onField data with
  | ok value' =>
      rw [hvalue] at honField
      dsimp only at honField
      rw [h] at honField
      injection honField with hv hd
      rw [hv, hd, Cursor.rest_advance, hc, List.drop_left]
      exact ⟨rfl, rfl⟩
  | error e =>
      rw [hvalue] at honField
      obtain ⟨_, herror, _⟩ := honField
      rw [h] at herror
      cases herror

theorem writeField_eq_ok {value : Value} {length position : Nat} {bytes : Bytes} :
    codec.writeField value length position = .ok ((), bytes) ↔
      codec.writeContent value length position = .ok ((), bytes) ∧ bytes.length = length := by
  rw [writeField, Encoder.bind_eq_ok]
  constructor
  · rintro ⟨written, first, second, hcaptured, hcheck, rfl⟩
    obtain ⟨rfl, a, hwrite⟩ := Encoder.captured_eq_ok.1 hcaptured
    split at hcheck
    · next hlength =>
        injection hcheck with hcheck
        injection hcheck with _ hsecond
        rw [← hsecond, List.append_nil]
        exact ⟨hwrite, hlength⟩
    · cases hcheck
  · rintro ⟨hwrite, hlength⟩
    refine ⟨bytes, bytes, [], Encoder.captured_eq_ok.2 ⟨rfl, (), hwrite⟩, ?_, ?_⟩
    · rw [if_pos hlength]
      rfl
    · rw [List.append_nil]

end Codec

end MotionMetadata
