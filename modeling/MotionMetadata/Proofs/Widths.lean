import MotionMetadata.Proofs.Refusals
import MotionMetadata.Proofs.Segments
import MotionMetadata.Proofs.Splitting

/-!
# Remembered widths do not change what is said

A width that is remembered is a hint. It is taken where the format leaves a choice of lengths,
allows this one, and the value fits it, and only integers ever say that they fit. So there are
two things to see. Where a hint is taken, the integer is written with padding and read without
it. And where one could be taken, the length that is chosen without a hint is one that is
allowed: had it not been, the field would be kept as bytes when it is read, and the hint would
change that.

From one field to a set it is a matter of framing. Both ways of writing split into one field for
each entry, and the fields mean the same two by two.
-/

namespace MotionMetadata

open Encoder

namespace Codec

variable {codec : Codec} {v : Value} {content : Bytes} {least n : Nat}

/-- The bytes of a field whose width is remembered as `hint`: as many as the hint leads to, and
the same wherever they are written. -/
structure IsContent (codec : Codec) (v : Value) (hint : Option Nat) (content : Bytes) : Prop where
  length : codec.hintedLength v hint = .ok content.length
  written : (codec.writeContent v content.length).Adds content

/-- The codec writes the value as an integer that takes `least` bytes or more, up to eight. -/
structure WritesInteger (codec : Codec) (v : Value) (least : Nat) : Prop where
  natural : codec.naturalLength v = .ok (codec.constraint.fit least)
  fits {n : Nat} : codec.fits v n → least ≤ n ∧ n ≤ 8
  writes {n : Nat} : least ≤ n → n ≤ 8 → ∃ content, (codec.write v n).Adds content
  reads {n : Nat} {content : Bytes} : (codec.write v n).Adds content →
    content.length = n ∧ content ≠ [] ∧ (codec.read n).Reads content v

namespace WritesInteger

/-- Padding is not seen in a length that is allowed. -/
theorem onField (h : codec.WritesInteger v least) (hwrite : (codec.write v n).Adds content)
    (hallows : codec.constraint.allows n) : codec.onField content = .ok v := by
  obtain ⟨hlength, hne, hread⟩ := h.reads hwrite
  rw [← hlength] at hallows hread
  exact onField_of_reads hne hallows hread

/-- A width that is kept is written, and read as what is read without it. -/
theorem kept (h : codec.WritesInteger v least) (hkeeps : codec.keepsWidth v n)
    (hcontent : codec.IsContent v none content) :
    ∃ content', codec.IsContent v (some n) content' ∧
      codec.onField content' = codec.onField content ∧ content'.length ≤ 8 := by
  simp only [keepsWidth, Bool.and_eq_true, Option.isNone_iff_eq_none] at hkeeps
  obtain ⟨⟨⟨hv, hfixed⟩, hallows⟩, hfits⟩ := hkeeps
  obtain ⟨hle, height⟩ := h.fits hfits
  have hchosen : content.length = codec.constraint.fit least := by
    have hlength : codec.fieldLength v = .ok content.length := hcontent.length
    rw [fieldLength_of_isDecoded hv, hfixed] at hlength
    exact Except.ok.inj (hlength.symm.trans h.natural)
  have hwritten := hcontent.written
  rw [writeContent_of_isDecoded hv] at hwritten
  obtain ⟨content', hcontent'⟩ := h.writes hle height
  obtain ⟨rfl, _, _⟩ := h.reads hcontent'
  refine ⟨content', ⟨hintedLength_of_fits hv hallows hfits, ?_⟩, ?_, height⟩
  · rw [writeContent_of_isDecoded hv]
    exact hcontent'
  · rw [h.onField hcontent' hallows, h.onField hwritten]
    rw [hchosen]
    exact LengthConstraint.allows_fit hallows hle

end WritesInteger

/-- With any width remembered a field is written if it is without, and means the same. It has
the same bytes, or those of an integer. -/
theorem content_hinted (hfits : ∀ n, codec.fits v n → ∃ least, codec.WritesInteger v least)
    (hcontent : codec.IsContent v none content) (hint : Option Nat) :
    ∃ content', codec.IsContent v hint content' ∧
      codec.onField content' = codec.onField content ∧
      (content' = content ∨ content'.length ≤ 8) := by
  cases hint with
  | none => exact ⟨content, hcontent, rfl, .inl rfl⟩
  | some n =>
      by_cases hkeeps : codec.keepsWidth v n
      · obtain ⟨least, hinteger⟩ := hfits n (Bool.and_elim_right hkeeps)
        obtain ⟨content', hcontent', hsame, height⟩ := hinteger.kept hkeeps hcontent
        exact ⟨content', hcontent', hsame, .inr height⟩
      · refine ⟨content, ⟨?_, hcontent.written⟩, rfl, .inl rfl⟩
        rw [hintedLength, if_neg hkeeps]
        exact hcontent.length

/-- What is not refused for depth is read as something. -/
theorem exists_onField (hread : ∀ n, (codec.read n).Shallow False) (data : Bytes) :
    ∃ v, codec.onField data = .ok v := by
  cases h : codec.onField data with
  | ok v => exact ⟨v, rfl⟩
  | error e =>
      exact ((readField_shallow (hread data.length)).onBytes data e h (onField_error h)).elim

/-! ## Integers -/

variable {c : LengthConstraint}

theorem uint_write (x : UInt64) : (uint c).write (.uint x) n = Integer.writeUnsigned x n :=
  funext fun _ => bind_of_silent rfl

theorem sint_write (x : Int64) : (sint c).write (.sint x) n = Integer.writeSigned x n :=
  funext fun _ => bind_of_silent rfl

theorem uint_writesInteger (x : UInt64) :
    (uint c).WritesInteger (.uint x) (Integer.unsignedWidth x) where
  natural := rfl
  fits {n} h := by
    have hboth : (Integer.unsignedWidth x ≤ n && n ≤ 8 : Bool) = true := h
    simpa only [Bool.and_eq_true, decide_eq_true_eq] using hboth
  writes {n} hle height := by
    obtain ⟨hpos, hlt⟩ := Integer.unsignedWidth_le_iff.1 hle
    rw [uint_write]
    exact ⟨_, adds_iff_forall.2 fun _ =>
      Integer.writeUnsigned_eq_ok.2 ⟨⟨hpos, height⟩, hlt, rfl⟩⟩
  reads {n content} h := by
    rw [uint_write] at h
    have hwrite := adds_iff_forall.1 h 0
    obtain ⟨⟨hpos, _⟩, _, hbytes⟩ := Integer.writeUnsigned_eq_ok.1 hwrite
    have hlength : content.length = n := hbytes ▸ BigEndian.length_bytes n x.toNat
    refine ⟨hlength, ?_, .bind_nil (Integer.reads_writeUnsigned hwrite) (.pure _)⟩
    exact List.length_pos_iff.1 (by omega)

theorem sint_writesInteger (x : Int64) :
    (sint c).WritesInteger (.sint x) (Integer.signedWidth x) where
  natural := rfl
  fits {n} h := by
    have hboth : (Integer.signedWidth x ≤ n && n ≤ 8 : Bool) = true := h
    simpa only [Bool.and_eq_true, decide_eq_true_eq] using hboth
  writes {n} hle height := by
    obtain ⟨hpos, _⟩ := Integer.signedWidth_le_iff.1 hle
    rw [sint_write]
    exact ⟨_, adds_iff_forall.2 fun _ =>
      Integer.writeSigned_eq_ok.2 ⟨⟨hpos, height⟩, hle, rfl⟩⟩
  reads {n content} h := by
    rw [sint_write] at h
    have hwrite := adds_iff_forall.1 h 0
    obtain ⟨⟨hpos, _⟩, _, hbytes⟩ := Integer.writeSigned_eq_ok.1 hwrite
    have hlength : content.length = n := hbytes ▸ BigEndian.length_bytes n x.toUInt64.toNat
    refine ⟨hlength, ?_, .bind_nil (Integer.reads_writeSigned hwrite) (.pure _)⟩
    exact List.length_pos_iff.1 (by omega)

end Codec

/-! ## Formats -/

/-- Integers, names of integers, texts and bytes. -/
def PlainFormat.Basic : PlainFormat → Prop
  | blob _ | uint _ | sint _ | enumeration _ _ _ | text _ _ _ => True
  | _ => False

/-- Of basic fields only integers ever fit a width. -/
theorem PlainFormat.Basic.writesInteger {f : PlainFormat} (hf : f.Basic) {v : Value} {n : Nat}
    (hfits : f.codec.fits v n) : ∃ least, f.codec.WritesInteger v least := by
  have huint : ∀ c, Codec.uintFits v n → ∃ least, (Codec.uint c).WritesInteger v least := by
    intro c h
    cases v <;> first | exact ⟨_, Codec.uint_writesInteger _⟩ | cases h
  cases f with
  | blob c => cases hfits
  | uint c => exact huint c hfits
  | sint c =>
      cases v <;> first | exact ⟨_, Codec.sint_writesInteger _⟩ | cases hfits
  | enumeration name c names =>
      -- Names change what is shown and nothing else.
      obtain ⟨least, h⟩ := huint c hfits
      exact ⟨least, h.natural, h.fits, h.writes, h.reads⟩
  | text encoding characters c => cases hfits
  | _ => exact hf.elim

/-- The format of a basic field. -/
def Format.Basic : Format → Prop
  | .plain f => f.Basic
  | _ => False

/-- What a table does not know is basic. -/
example (symbol : String) : (TagEntry.unknown symbol).format.Basic := trivial

namespace Format.Basic

variable {f : Format}

theorem codec_eq (hf : f.Basic) (registry : Registry) (levels : Nat) :
    ∃ p : PlainFormat, p.Basic ∧ f.codec registry levels = p.codec := by
  cases f with
  | plain p => exact ⟨p, hf, by cases levels <;> rfl⟩
  | _ => exact hf.elim

/-- Nothing before a basic field matters to it. -/
theorem after_eq (hf : f.Basic) (tags : List Tag) : f.after tags = f := by
  cases f with
  | plain p => cases p <;> first | rfl | exact hf.elim
  | _ => exact hf.elim

theorem described_eq (hf : f.Basic) (v : Value) : f.described v = none := by
  cases f with
  | plain p => cases p <;> first | rfl | exact hf.elim
  | _ => exact hf.elim

end Format.Basic

/-! ## Sets -/

namespace FieldSet

variable {κ : Type} [SetKey κ] {table : Table} {registry : Registry} {levels : Nat}

theorem isSegment_iff {inner : Format → Codec} {e : Entry κ Value} {w : Bytes} :
    IsSegment table inner e w ↔ ∃ spelling content : Bytes, (SetKey.write e.key).Adds spelling ∧
      (inner (SetKey.entry table e.key).format).IsContent e.value e.width content ∧
      w = spelling ++ (Ber.lengthBytes (UInt64.ofNat content.length) ++ content) := by
  constructor
  · rintro ⟨spelling, content, hkey, hlength, hcontent, hw⟩
    exact ⟨spelling, content, hkey, ⟨hlength, hcontent⟩, hw⟩
  · rintro ⟨spelling, content, hkey, ⟨hlength, hcontent⟩, hw⟩
    exact ⟨spelling, content, hkey, hlength, hcontent, hw⟩

/-- Two spellings of a field: it has the same key and means the same wherever it stands. -/
structure Alike (table : Table) (inner : Format → Codec) (f f' : RawField κ) : Prop where
  key : f'.key = f.key
  meaning : ∃ v, ∀ before, f.meaning table inner before = .ok v ∧
    f'.meaning table inner before = .ok v

theorem decodesTo_alike {inner : Format → Codec} {fields fields' : List (RawField κ)}
    (h : List.Forall₂ (Alike table inner) fields fields') (before : List Tag) :
    ∃ back back', DecodesTo table inner before fields back ∧
      DecodesTo table inner before fields' back' ∧ back'.toPairs = back.toPairs := by
  induction h generalizing before with
  | nil => exact ⟨[], [], .nil before, .nil before, rfl⟩
  | @cons f f' fields fields' hf _ ih =>
      obtain ⟨back, back', hback, hback', hpairs⟩ := ih (before ++ [SetKey.tag table f.key])
      obtain ⟨v, hv⟩ := hf.meaning
      refine ⟨_, _, .cons (hv before).1 hback, .cons (hv before).2 (hf.key ▸ hback'), ?_⟩
      show (f'.key, v) :: back'.toPairs = (f.key, v) :: back.toPairs
      rw [hf.key, hpairs]

variable [ReadableKey κ]

/-- A basic entry is written with any width that is remembered if it is without, and both are
fields that mean the same. -/
theorem segment_hinted {e : Entry κ Value} {w : Bytes}
    (hbasic : (SetKey.entry table e.key).format.Basic)
    (h : IsSegment table (Format.codec registry levels) { e with width := none } w)
    (hsize : w.length < 2 ^ 64) :
    ∃ f f' : RawField κ, f.Spelled ∧ w = f.bytes ∧ f'.Spelled ∧
      IsSegment table (Format.codec registry levels) e f'.bytes ∧
      Alike table (Format.codec registry levels) f f' := by
  obtain ⟨spelling, content, hkey, hcontent, rfl⟩ := isSegment_iff.1 h
  rw [List.length_append, List.length_append] at hsize
  dsimp only at hkey hcontent
  obtain ⟨p, hp, hcodec⟩ := hbasic.codec_eq registry levels
  have hsegment := @isSegment_iff κ _ table (Format.codec registry levels) e
  rw [hcodec] at hcontent hsegment
  obtain ⟨content', hcontent', hsame, hlength⟩ :=
    Codec.content_hinted (fun n => hp.writesInteger) hcontent e.width
  have hsize' : content'.length < 2 ^ 64 := by
    rcases hlength with rfl | hlength <;> omega
  have hspelling := adds_iff_forall.1 hkey 0
  refine ⟨_, _, .of_write hspelling (by omega), rfl, .of_write hspelling hsize',
    hsegment.2 ⟨spelling, content', hkey, hcontent', rfl⟩, rfl, ?_⟩
  have hshallow : ∀ n, (p.codec.read n).Shallow False := p.read_shallow
  obtain ⟨v, hv⟩ := Codec.exists_onField hshallow content
  refine ⟨v, fun before => ?_⟩
  simp only [RawField.meaning, codecAfter, hbasic.after_eq, hcodec, hsame, hv, and_self]

/-- The same for a row of entries. -/
theorem pieces_hinted {set : FieldSet κ} {pieces : Pieces κ}
    (hbasic : ∀ e ∈ set, (SetKey.entry table e.key).format.Basic)
    (h : pieces.Of table (Format.codec registry levels) set.clearWidths)
    (hsize : pieces.bytes.length < 2 ^ 64) :
    ∃ (pieces' : Pieces κ) (fields fields' : List (RawField κ)),
      pieces'.Of table (Format.codec registry levels) set ∧ Splits pieces.bytes fields ∧
      Splits pieces'.bytes fields' ∧
      List.Forall₂ (Alike table (Format.codec registry levels)) fields fields' := by
  induction set generalizing pieces with
  | nil =>
      rw [List.map_eq_nil_iff.1 h.entries]
      exact ⟨[], [], [], Pieces.of_nil, .nil, .nil, .nil⟩
  | cons e set ih =>
      obtain ⟨hfirst, hmore⟩ := List.forall_mem_cons.1 hbasic
      obtain ⟨w, rest, rfl, he, hrest⟩ := Pieces.of_cons_iff.1 h
      rw [Pieces.bytes_cons, List.length_append] at hsize
      obtain ⟨f, f', hf, rfl, hf', he', halike⟩ := segment_hinted hfirst he (by omega)
      obtain ⟨pieces', fields, fields', hpieces', hsplits, hsplits', hfields⟩ :=
        ih hmore hrest (by omega)
      refine ⟨(e, f'.bytes) :: pieces', f :: fields, f' :: fields', hpieces'.cons he', ?_, ?_,
        .cons halike hfields⟩
      · rw [Pieces.bytes_cons]
        exact hsplits.cons hf
      · rw [Pieces.bytes_cons]
        exact hsplits'.cons hf'

variable [SteadyKey κ]

/-- Remembered widths change no meaning. A set of integers, names of integers, texts and bytes
that is written without any of them is written with them, whatever they are, and both outputs
are read, as sets with the same keys and values in the same order. The bound is that of any
buffer there is. -/
theorem written_in_any_width {set : FieldSet κ} {buffer out : Bytes}
    (hbasic : ∀ e ∈ set, (SetKey.entry table e.key).format.Basic)
    (hwrite : (write table (Format.inward registry levels) set.clearWidths).appendTo buffer =
      (.ok (), out))
    (hsize : out.length < 2 ^ 64) :
    ∃ (w w' : Bytes) (back back' : FieldSet κ), out = buffer ++ w ∧
      (write table (Format.inward registry levels) set).Adds w' ∧
      back'.toPairs = back.toPairs ∧
      (∀ (c : Cursor) (t : Bytes), c.rest = w ++ t →
        read table (Format.inward registry levels) w.length c = .ok back (c.advance w.length)) ∧
      ∀ (c : Cursor) (t : Bytes), c.rest = w' ++ t →
        read table (Format.inward registry levels) w'.length c =
          .ok back' (c.advance w'.length) := by
  cases levels with
  | zero => cases hwrite
  | succ levels =>
      have hcarries := Format.codec_carries registry levels
      have haccepts := Format.codec_accepts registry levels
      have hlocal : ∀ f n, Reader.Local ((Format.codec registry levels f).read n) :=
        fun f n _ => Format.codec_alike registry levels f n
      have hplain : Plain table set := fun e he => by
        rw [describedBy, (hbasic e he).described_eq]
        rfl
      have hcleared : Plain table set.clearWidths :=
        List.forall_mem_map.2 fun e he => hplain e he
      obtain ⟨_, w, hw, rfl⟩ := appendTo_eq_ok.1 hwrite
      -- Nothing that a set writes depends on what is in the buffer.
      have hsteady : (write table (some (Format.codec registry levels)) set.clearWidths).Steady
          True := by
        refine write_steady (fun _ => trivial) fun inner hinner e _ => ?_
        injection hinner with hinner
        subst hinner
        exact (entryAccepted_iff hcarries []).1 (haccepts _ _)
      replace hw := hsteady.adds_iff.2 hw
      rw [List.length_append] at hsize
      obtain ⟨pieces, hpieces, rfl⟩ := (write_iff_pieces hcarries haccepts hcleared).1 hw
      obtain ⟨pieces', fields, fields', hpieces', hsplits, hsplits', halike⟩ :=
        pieces_hinted hbasic hpieces (by omega)
      obtain ⟨back, back', hback, hback', hpairs⟩ := decodesTo_alike halike []
      refine ⟨pieces.bytes, pieces'.bytes, back, back', rfl,
        (write_iff_pieces hcarries haccepts hplain).2 ⟨pieces', hpieces', rfl⟩, hpairs, ?_, ?_⟩
      · exact fun c t hc => (read_iff_decodesTo hlocal hc).2 ⟨rfl, fields, hsplits, hback⟩
      · exact fun c t hc => (read_iff_decodesTo hlocal hc).2 ⟨rfl, fields', hsplits', hback'⟩

/-- A version that was wider than it has to be, one that does not fit its width any more, a text
and a field that nobody knows. -/
def mixedWidths : FieldSet Tag :=
  [⟨4, .uint 19, some 2⟩, ⟨4, .uint 300, some 1⟩, ⟨3, .string "A", some 7⟩,
    ⟨99, .blob [0xAB], none⟩]

/-- The first version is written in the two bytes it came in, and the rest as without widths. -/
theorem mixedWidths_written :
    let codecs := Format.inward Registry.published 4
    (∀ e ∈ mixedWidths, (SetKey.entry Table.movingTarget e.key).format.Basic) ∧
      (write Table.movingTarget codecs mixedWidths.clearWidths).appendTo [] =
        (.ok (), [0x04, 1, 19, 0x04, 2, 1, 44, 0x03, 1, 0x41, 0x63, 1, 0xAB]) ∧
      ∃ back back' : FieldSet Tag, back'.toPairs = back.toPairs ∧
        read Table.movingTarget codecs 13
            (Cursor.ofBytes [0x04, 1, 19, 0x04, 2, 1, 44, 0x03, 1, 0x41, 0x63, 1, 0xAB]) =
          .ok back ⟨0, 13, []⟩ ∧
        read Table.movingTarget codecs 14
            (Cursor.ofBytes [0x04, 2, 0, 19, 0x04, 2, 1, 44, 0x03, 1, 0x41, 0x63, 1, 0xAB]) =
          .ok back' ⟨0, 14, []⟩ := by
  intro codecs
  have hbasic : ∀ e ∈ mixedWidths, (SetKey.entry Table.movingTarget e.key).format.Basic := by
    simp only [mixedWidths, List.forall_mem_cons]
    exact ⟨trivial, trivial, trivial, trivial, by simp⟩
  have hwrite : (write Table.movingTarget codecs mixedWidths.clearWidths).appendTo [] =
      (.ok (), [0x04, 1, 19, 0x04, 2, 1, 44, 0x03, 1, 0x41, 0x63, 1, 0xAB]) := rfl
  have hhinted : (write Table.movingTarget codecs mixedWidths).Adds
      [0x04, 2, 0, 19, 0x04, 2, 1, 44, 0x03, 1, 0x41, 0x63, 1, 0xAB] :=
    adds_iff_forall.2 fun _ => rfl
  obtain ⟨w, w', back, back', hout, hadds, hpairs, hread, hread'⟩ :=
    written_in_any_width hbasic hwrite (by decide)
  rw [List.nil_append] at hout
  obtain rfl := hadds.unique hhinted
  subst hout
  exact ⟨hbasic, hwrite, back, back', hpairs, hread (Cursor.ofBytes _) [] rfl,
    hread' (Cursor.ofBytes _) [] rfl⟩

end FieldSet

end MotionMetadata
