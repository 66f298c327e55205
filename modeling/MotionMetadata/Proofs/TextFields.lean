import MotionMetadata.Proofs.Encodings
import MotionMetadata.Proofs.Restoring

/-!
# Text fields keep their text

A text of no characters would be a field of no bytes, which is what an absent value looks like.
So one byte, a NUL, stands for it, and the price is paid by the text that is this one character:
in ASCII and in UTF-8 it has the same byte, and is read as no characters. In UTF-16 a NUL takes
two bytes and is told apart. Every other text is read as it was written.
-/

namespace MotionMetadata

namespace Text.Encoding

variable {encoding : Encoding} {text text' : String} {bytes : Bytes}

theorem encode_injective (h : encoding.encode text = .ok bytes)
    (h' : encoding.encode text' = .ok bytes) : text = text' :=
  Except.ok.inj ((decode_encode h).symm.trans (decode_encode h'))

theorem isEmpty_of_encode_nil (h : encoding.encode text = .ok []) : text.isEmpty := by
  have hempty : encoding.encode "" = .ok [] := by cases encoding <;> rfl
  exact String.isEmpty_iff.2 (encode_injective h hempty)

/-- The one text that has the bytes which stand for no text. -/
theorem encode_eq_emptyText_iff :
    encoding.encode text = .ok Codec.emptyText ↔ encoding ≠ .utf16 ∧ text = "\x00" := by
  constructor
  · intro h
    have hnot : encoding ≠ .utf16 := by
      rintro rfl
      -- Bytes come in twos in UTF-16, and this is one.
      have hdecode := decode_encode h
      rw [decode, if_pos (by decide)] at hdecode
      cases hdecode
    refine ⟨hnot, encode_injective h ?_⟩
    cases encoding with
    | ascii => rfl
    | utf8 => rfl
    | utf16 => exact absurd rfl hnot
  · rintro ⟨hnot, rfl⟩
    cases encoding with
    | ascii => rfl
    | utf8 => rfl
    | utf16 => exact absurd rfl hnot

end Text.Encoding

namespace Codec

variable {encoding : Text.Encoding} {characters c : LengthConstraint} {s : String}
  {data : Bytes} {n position : Nat}

theorem text_write_iff :
    (text encoding characters c).write (.string s) n position = .ok ((), data) ↔
      SpellsText encoding s data := by
  refine ⟨fun h => ?_, fun h => text_write h position⟩
  obtain ⟨s', hs, h⟩ := Encoder.ofExcept_bind_eq_ok.1 h
  injection hs with hs
  subst hs
  rw [SpellsText]
  split at h
  · next hempty =>
      injection h with h
      injection h with _ h
      rw [if_pos hempty, h]
  · next hempty =>
      obtain ⟨bytes, hbytes, h⟩ := Encoder.ofExcept_bind_eq_ok.1 h
      injection h with h
      injection h with _ h
      rw [if_neg hempty, hbytes, h]

/-- A text has bytes if its encoding carries it. -/
theorem exists_spellsText_iff : (∃ data, SpellsText encoding s data) ↔ encoding.Carries s := by
  by_cases hempty : s.isEmpty
  · have hcarries : encoding.Carries s := by
      rw [String.isEmpty_iff] at hempty
      subst hempty
      cases encoding with
      | ascii => exact fun c hc => absurd hc (List.not_mem_nil (a := c))
      | utf8 => trivial
      | utf16 => trivial
    refine iff_of_true ⟨emptyText, ?_⟩ hcarries
    rw [SpellsText, if_pos hempty]
  · simp only [SpellsText, if_neg hempty]
    exact Text.Encoding.encode_iff_carries

namespace SpellsText

variable (h : SpellsText encoding s data)
include h

theorem ne_nil : data ≠ [] := by
  rintro rfl
  rw [SpellsText] at h
  split at h
  · cases h
  · next hempty => exact hempty (Text.Encoding.isEmpty_of_encode_nil h)

/-- The byte for no text is the byte of a NUL as well, where that has one byte. -/
theorem eq_emptyText_iff :
    data = emptyText ↔ s.isEmpty ∨ encoding ≠ .utf16 ∧ s = "\x00" := by
  rw [SpellsText] at h
  split at h
  · next hempty => exact iff_of_true h (.inl hempty)
  · next hempty =>
      rw [or_iff_right hempty, ← Text.Encoding.encode_eq_emptyText_iff, h]
      exact ⟨congrArg Except.ok, Except.ok.inj⟩

/-- What the bytes of a text are read as. -/
theorem reads : ((text encoding characters c).read data.length).Reads data
    (.string (if data = emptyText then "" else s)) := by
  refine .position_bind fun start => .bind_nil (.take data) ?_
  by_cases hnone : data = emptyText
  · rw [if_pos (beq_iff_eq.2 hnone), if_pos hnone]
    exact .pure _
  · rw [SpellsText] at h
    split at h
    · next hempty => exact absurd h hnone
    · next hempty =>
        rw [if_neg fun heq => hnone (eq_of_beq heq), if_neg hnone,
          Text.Encoding.decode_encode h]
        exact .pure _

theorem onField (hallows : c.allows data.length) :
    (text encoding characters c).onField data =
      .ok (.string (if encoding ≠ .utf16 ∧ s = "\x00" then "" else s)) := by
  have hsame : (if data = emptyText then "" else s) =
      if encoding ≠ .utf16 ∧ s = "\x00" then "" else s := by
    simp only [h.eq_emptyText_iff]
    by_cases hempty : s.isEmpty
    · rw [if_pos (.inl hempty), String.isEmpty_iff.1 hempty, ite_self]
    · simp only [or_iff_right hempty]
  rw [← hsame]
  exact onField_of_reads h.ne_nil hallows h.reads

end SpellsText

/-- A text is read as it was written. It is written if its encoding carries it, and the only one
that comes back as another is a NUL where that is a single byte: it is read as no characters,
which this byte stands for. -/
theorem text_written_then_read (encoding : Text.Encoding) (characters : LengthConstraint)
    (preferred : Option Nat) (s : String) :
    let codec := text encoding characters { shape := .free, preferred }
    ((∃ n bytes, codec.fieldLength (.string s) = .ok n ∧
        ∀ position, codec.writeField (.string s) n position = .ok ((), bytes)) ↔
      encoding.Carries s) ∧
    ∀ n position bytes, codec.writeField (.string s) n position = .ok ((), bytes) →
      codec.onField bytes =
        .ok (.string (if encoding ≠ .utf16 ∧ s = "\x00" then "" else s)) := by
  intro codec
  refine ⟨?_, fun n position bytes h => ?_⟩
  · rw [← exists_spellsText_iff]
    constructor
    · rintro ⟨n, bytes, -, h⟩
      exact ⟨bytes, text_write_iff.1 (write_of_writeField rfl (h 0)).1⟩
    · rintro ⟨bytes, h⟩
      exact ⟨bytes.length, bytes, text_fieldLength rfl h,
        written_of_write rfl (text_write h)⟩
  · exact (text_write_iff.1 (write_of_writeField rfl h).1).onField rfl

/-- A NUL is written in UTF-8 and is not read back, and the same happens to it in ASCII. -/
theorem nul_text_lost :
    ((text .utf8 .free .free).fieldLength (.string "\x00") = .ok 1 ∧
      (text .utf8 .free .free).writeField (.string "\x00") 1 0 = .ok ((), [0]) ∧
      (text .utf8 .free .free).onField [0] ≠ .ok (.string "\x00")) ∧
    (text .ascii .free .free).fieldLength (.string "\x00") = .ok 1 ∧
    (text .ascii .free .free).writeField (.string "\x00") 1 0 = .ok ((), [0]) ∧
    (text .ascii .free .free).onField [0] ≠ .ok (.string "\x00") := by
  have hlost : Except.ok (Value.string "") ≠ (.ok (.string "\x00") : Except Error Value) :=
    fun h => absurd (Value.string.inj (Except.ok.inj h)) (by decide)
  exact ⟨⟨rfl, rfl, hlost⟩, rfl, rfl, hlost⟩

end Codec

end MotionMetadata
