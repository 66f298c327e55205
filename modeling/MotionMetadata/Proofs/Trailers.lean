import MotionMetadata.Proofs.Reencoding
import MotionMetadata.Proofs.Splitting

/-!
# Where a trailer is seen

Whether a packet ends in a checksum is decided before any of its fields is read, by the last
bytes alone: they begin with the header of the trailer or they do not. The fields are found by
their keys and lengths. Here the two are compared on packets whose value splits into fields.

They agree on most. A packet that does not end in the bytes of a trailer has all its fields
decoded and no checksum, and if the last field is the checksum field, spelled as short as can
be, it is taken off and the fields before it are decoded. But the last bytes of any other field
may begin like a trailer too. Then they are taken off all the same, the rest no longer splits,
and all of it is kept as bytes.
-/

namespace MotionMetadata

/-- What a field is read as that holds the entries of a local set, or none. -/
def Value.ofLocalSet : FieldSet Tag → Value
  | [] => .empty
  | set => .localSet set

namespace Codec

open FieldSet

variable {codec : Codec} {data : Bytes}

theorem onField_of_ne_nil (h : data ≠ []) (hallows : codec.constraint.allows data.length) :
    codec.onField data =
      settle data.length data (codec.read data.length (Cursor.ofBytes data)) := by
  have hfield : (Cursor.ofBytes data).field data.length = Cursor.ofBytes data := by
    rw [Cursor.field, Cursor.rest_ofBytes, List.take_length]
    rfl
  rw [onField, Reader.onBytes, readField_of_le (List.length_pos_iff.2 h) (Nat.le_refl _), hfield,
    content, if_pos hallows, Cursor.rest_ofBytes]
  cases settle data.length data (codec.read data.length (Cursor.ofBytes data)) <;> rfl

variable {description : String} {table : Table} {inner : Format → Codec}
  {fields : List (RawField Tag)}

theorem localSet_read {n : Nat} {c : Cursor} :
    (localSet description table (some inner)).read n c =
      match FieldSet.read (κ := Tag) table (some inner) n c with
      | .ok set d => .ok (.localSet set) d
      | .error e d => .error e d := by
  show (FieldSet.read table (some inner) n >>= fun set => pure (Value.localSet set)) c = _
  cases h : FieldSet.read (κ := Tag) table (some inner) n c with
  | ok set d => rw [Reader.bind_of_ok h, Reader.pure_apply]
  | error e d => rw [Reader.bind_of_error h]

/-- Bytes that split are read as the set of their fields, unless one of these is too deep. -/
theorem localSet_onField_splits (hlocal : ∀ f n, Reader.Local ((inner f).read n))
    (h : Splits data fields) :
    (∀ set, DecodesTo table inner [] fields set →
      (localSet description table (some inner)).onField data = .ok (.ofLocalSet set)) ∧
    (TooDeep table inner [] fields →
      ∃ e, (localSet description table (some inner)).onField data = .error e) := by
  by_cases hnil : data = []
  · subst hnil
    obtain rfl : [] = fields := h.unique .nil
    refine ⟨fun set hset => ?_, fun hdeep => absurd hdeep (DecodesTo.nil []).not_tooDeep⟩
    cases hset
    exact onField_nil
  · rw [onField_of_ne_nil hnil rfl, localSet_read]
    refine ⟨fun set hset => ?_, fun hdeep => ?_⟩
    · have hread := (read_iff_decodesTo (c := Cursor.ofBytes data) hlocal
        (List.append_nil data).symm).2 ⟨rfl, fields, h, hset⟩
      rw [hread, settle, if_pos (by simp)]
      cases hset with
      | nil => exact absurd h.bytes hnil
      | cons _ _ => rfl
    · obtain ⟨e, hread, hdepth⟩ := read_of_tooDeep (c := Cursor.ofBytes data) hlocal h hdeep
        (List.append_nil data).symm
      rw [hread, settle]
      exact ⟨e, if_pos hdepth⟩

/-- Bytes that do not split are kept, unless something among them is too deep. -/
theorem localSet_onField_unsplit (hlocal : ∀ f n, Reader.Local ((inner f).read n))
    (h : ∀ fields, ¬ Splits (κ := Tag) data fields) :
    (localSet description table (some inner)).onField data = .ok (.blob data) ∨
      ∃ e, (localSet description table (some inner)).onField data = .error e := by
  have hne : data ≠ [] := by
    rintro rfl
    exact h [] .nil
  rw [onField_of_ne_nil hne rfl, localSet_read]
  cases hread : FieldSet.read (κ := Tag) table (some inner) data.length (Cursor.ofBytes data) with
  | ok set d =>
      obtain ⟨_, fields, hsplits, _⟩ :=
        (read_iff_decodesTo hlocal (List.append_nil data).symm).1 hread
      exact absurd hsplits (h fields)
  | error e d =>
      rw [settle]
      by_cases hdepth : e.kind = .depth
      · exact .inr ⟨e, if_pos hdepth⟩
      · exact .inl (if_neg hdepth)

end Codec

/-! ## The last bytes -/

namespace Checksum.Trailer

/-- The bytes end in the header of a trailer and as many bytes as its checksum takes. -/
structure Closes (trailer : Trailer) (region content payload : Bytes) : Prop where
  bytes : region = content ++ (trailer.header ++ payload)
  length : payload.length = trailer.algorithm.width

/-- The last field of a packet, if it is the checksum. -/
def field (tag : UInt8) (algorithm : Algorithm) (payload : Bytes) : FieldSet.RawField Tag :=
  ⟨tag.toUInt64, [tag], [UInt8.ofNat algorithm.width], payload⟩

variable {trailer : Trailer} {region content payload front : Bytes}

/-- A trailer is present exactly if the last bytes of the value are like one. -/
theorem isPresent_iff : (trailer.length ≤ region.length && trailer.isPresent (front ++ region)) =
    true ↔ ∃ content payload, trailer.Closes region content payload := by
  rw [isPresent, Bool.and_eq_true, Bool.and_eq_true, decide_eq_true_iff, decide_eq_true_iff,
    List.isPrefixOf_iff_prefix, List.length_append]
  constructor
  · rintro ⟨hroom, _, payload, hpayload⟩
    rw [Nat.add_sub_assoc hroom, List.drop_length_add_append] at hpayload
    have hlength := congrArg List.length hpayload
    rw [List.length_append, List.length_drop, length] at hlength
    rw [length] at hroom
    refine ⟨region.take (region.length - trailer.length), payload, ?_, by omega⟩
    rw [hpayload, List.take_append_drop]
  · rintro ⟨content, payload, rfl, hpayload⟩
    have hlength : (content ++ (trailer.header ++ payload)).length =
        content.length + trailer.length := by
      rw [List.length_append, List.length_append, hpayload, length]
    rw [hlength, Nat.add_sub_assoc (Nat.le_add_left _ _), Nat.add_sub_cancel,
      List.drop_length_add_append, List.drop_left]
    exact ⟨Nat.le_add_left _ _, by omega, List.prefix_append _ _⟩

variable {tag : UInt8} {algorithm : Algorithm} {fields first : List (FieldSet.RawField Tag)}

theorem field_bytes : (field tag algorithm payload).bytes =
    (ofTag tag algorithm).header ++ payload := rfl

theorem field_spelled (htag : tag.toNat < 0x80) (hpayload : payload.length = algorithm.width) :
    (field tag algorithm payload).Spelled where
  key := by
    have hspells : Ber.TagSpelling (UInt64.ofNat (Ber.groupsValue ([] ++ [tag]))) ([] ++ [tag]) :=
      .groups [] tag (by decide) nofun htag
    have hvalue : UInt64.ofNat (Ber.groupsValue ([] ++ [tag])) = tag.toUInt64 := by
      refine UInt64.toNat_inj.1 ?_
      rw [List.nil_append, Ber.groupsValue, List.foldl_cons, List.foldl_nil, UInt64.toNat_ofNat',
        UInt8.toNat_toUInt64]
      omega
    rw [hvalue] at hspells
    exact hspells
  header := by
    have hshort : (UInt8.ofNat algorithm.width).toNat = payload.length := by
      rw [hpayload]
      cases algorithm <;> rfl
    have hsmall : (UInt8.ofNat algorithm.width).toNat < 0x80 := by
      cases algorithm <;> decide
    have hspells := Ber.LengthSpelling.short _ hsmall
    rwa [hshort] at hspells

/-- What stands before the trailer splits exactly if the trailer is the last field. -/
theorem Closes.splits_iff (h : (ofTag tag algorithm).Closes region content payload)
    (htag : tag.toNat < 0x80) (hregion : FieldSet.Splits region fields) :
    FieldSet.Splits content first ↔ fields = first ++ [field tag algorithm payload] := by
  have hfield := field_spelled htag h.length
  constructor
  · intro hcontent
    refine FieldSet.Splits.unique ⟨fun f hf => ?_, ?_⟩ hregion
    · rcases List.mem_append.1 hf with hf | hf
      · exact hcontent.spelled f hf
      · exact List.mem_singleton.1 hf ▸ hfield
    · rw [h.bytes, List.flatMap_append, ← hcontent.bytes, List.flatMap_singleton, field_bytes]
  · rintro rfl
    refine ⟨fun f hf => hregion.spelled f (List.mem_append_left _ hf), ?_⟩
    have hbytes := hregion.bytes
    rw [h.bytes, List.flatMap_append, List.flatMap_singleton, field_bytes] at hbytes
    exact List.append_cancel_right hbytes

end Checksum.Trailer

/-! ## Packets -/

namespace Packet

open FieldSet Checksum

variable {registry : Registry} {key : UniversalKey} {standard : Standard} {tag : UInt8}
  {algorithm : Algorithm} {content payload header region : Bytes}

theorem checkTrailer_open {front : Bytes} {trailer : Trailer}
    (h : ¬ ∃ content payload, trailer.Closes region content payload) :
    checkTrailer (.localSet standard (some trailer)) (front ++ region) region.length =
      .ok (0, .absent) := by
  rw [checkTrailer, Format.trailer]
  exact if_neg fun hpresent => h (Trailer.isPresent_iff.1 hpresent)

theorem verdict_ne_absent {trailer : Trailer} (opened : Bytes) :
    verdict (.localSet standard (some trailer)) opened payload ≠ .absent := by
  rw [verdict, Format.trailer]
  dsimp only
  split <;> rintro ⟨⟩

/-- A packet at the cursor is read as the set of these fields, unless one of them is too deep:
then it is refused, and the cursor stays. -/
def ReadAs (registry : Registry) (standard : Standard) (key : UniversalKey)
    (status : ChecksumStatus) (fields : List (RawField Tag)) (size : Nat) (c : Cursor) : Prop :=
  (∀ set, DecodesTo (registry.table standard) (Format.codec registry (maxDepth - 1)) [] fields
      set → read registry c = .ok ⟨key, .ofLocalSet set, status⟩ (c.advance size)) ∧
    (TooDeep (registry.table standard) (Format.codec registry (maxDepth - 1)) [] fields →
      ∃ e, read registry c = .error e c ∧ e.kind = .depth)

theorem codec_of_localSet {trailer : Option Trailer}
    (hformat : formatOf registry key = .localSet standard trailer) :
    codec registry key = Codec.localSet (Format.localSet standard trailer).description
      (registry.table standard) (some (Format.codec registry (maxDepth - 1))) := by
  rw [codec, ← formatOf, hformat]
  rfl

theorem inner_local (f : Format) (n : Nat) :
    Reader.Local ((Format.codec registry (maxDepth - 1) f).read n) :=
  fun _ => Format.codec_alike registry (maxDepth - 1) f n

/-- A packet whose value splits into fields has no checksum and all its fields decoded, unless
its last bytes are like a trailer. If they are, they are taken off whatever they belong to. The
fields before them are decoded if they are the last field, and if they are not, no field is. -/
theorem trailer_read {c : Cursor} {fields : List (RawField Tag)} {t : Bytes}
    (hkey : key.isValid)
    (hformat : formatOf registry key = .localSet standard (some (.ofTag tag algorithm)))
    (htag : tag.toNat < 0x80) (hheader : Ber.LengthSpelling region.length header)
    (hsplits : Splits region fields) (hc : c.rest = key.bytes ++ (header ++ (region ++ t))) :
    let trailer := Trailer.ofTag tag algorithm
    let size := (key.bytes ++ (header ++ region)).length
    ((¬ ∃ content payload, trailer.Closes region content payload) →
      ReadAs registry standard key .absent fields size c) ∧
    ∀ content payload, trailer.Closes region content payload →
      let status := verdict (.localSet standard (some trailer)) (key.bytes ++ (header ++ content))
        payload
      status ≠ .absent ∧
      (∀ first, fields = first ++ [Trailer.field tag algorithm payload] →
        ReadAs registry standard key status first size c) ∧
      ((∀ first, fields ≠ first ++ [Trailer.field tag algorithm payload]) →
        read registry c = .ok ⟨key, .blob content, status⟩ (c.advance size) ∨
          ∃ e, read registry c = .error e c ∧ e.kind = .depth) := by
  intro trailer size
  have hreads := hheader.reads
  have hsize := hheader.lt
  have hcodec := codec_of_localSet hformat
  -- What is read follows from what the codec makes of the bytes that are not taken off.
  have hvalue : ∀ {content tail : Bytes} {status : ChecksumStatus} {value : Value},
      region = content ++ tail →
      checkTrailer (.localSet standard (some trailer)) (key.bytes ++ (header ++ region))
        region.length = .ok (tail.length, status) →
      (codec registry key).onField content = .ok value →
        read registry c = .ok ⟨key, value, status⟩ (c.advance size) := by
    rintro content tail status value rfl hcheck hok
    have hmeans := read_checked hkey hformat hreads hsize hcheck hc
    rw [hok] at hmeans
    exact hmeans
  have herror : ∀ {content tail : Bytes} {status : ChecksumStatus} {e : Error},
      region = content ++ tail →
      checkTrailer (.localSet standard (some trailer)) (key.bytes ++ (header ++ region))
        region.length = .ok (tail.length, status) →
      (codec registry key).onField content = .error e →
        ∃ e, read registry c = .error e c ∧ e.kind = .depth := by
    rintro content tail status e rfl hcheck he
    have hmeans := read_checked hkey hformat hreads hsize hcheck hc
    rw [he] at hmeans
    exact hmeans
  have hfields : ∀ {content tail : Bytes} {status : ChecksumStatus} {first : List (RawField Tag)},
      region = content ++ tail →
      checkTrailer (.localSet standard (some trailer)) (key.bytes ++ (header ++ region))
        region.length = .ok (tail.length, status) →
      Splits content first → ReadAs registry standard key status first size c := by
    intro content tail status first hregion hcheck hcontent
    obtain ⟨hdecodes, hdeep⟩ := Codec.localSet_onField_splits inner_local hcontent
    refine ⟨fun set hset => hvalue hregion hcheck ?_, fun htoo => ?_⟩
    · rw [hcodec, hdecodes set hset]
    · obtain ⟨e, he⟩ := hdeep htoo
      exact herror hregion hcheck (by rw [hcodec, he])
  refine ⟨fun hopen => ?_, fun content payload hcloses => ?_⟩
  · refine hfields (List.append_nil region).symm ?_ hsplits
    rw [← List.append_assoc]
    exact checkTrailer_open hopen
  · have hcheck : checkTrailer (.localSet standard (some trailer))
        (key.bytes ++ (header ++ region)) region.length =
          .ok ((trailer.header ++ payload).length, verdict (.localSet standard (some trailer))
            (key.bytes ++ (header ++ content)) payload) := by
      have hfits : Fits (.localSet standard (some trailer)) (key.bytes ++ (header ++ content)) := by
        intro trailer' hsome
        exact ⟨algorithm_width _, Algorithm.evaluate_lt _ _⟩
      have hroom : trailer.length ≤ region.length := by
        rw [hcloses.bytes, List.length_append, List.length_append, hcloses.length,
          Trailer.length]
        exact Nat.le_add_left _ _
      have hfound := checkTrailer_closing hfits hcloses.length hroom
      rw [← length_closing hcloses.length, closing, Format.trailer] at hfound
      dsimp only at hfound
      rw [hcloses.bytes] at hfound ⊢
      simp only [List.append_assoc] at hfound ⊢
      exact hfound
    refine ⟨verdict_ne_absent _, fun first hlast => ?_, fun hlast => ?_⟩
    · exact hfields hcloses.bytes hcheck ((hcloses.splits_iff htag hsplits).2 hlast)
    · have hunsplit : ∀ first, ¬ Splits (κ := Tag) content first := fun first hfirst =>
        hlast first ((hcloses.splits_iff htag hsplits).1 hfirst)
      rcases Codec.localSet_onField_unsplit inner_local hunsplit with hblob | ⟨e, he⟩
      · exact .inl (hvalue hcloses.bytes hcheck (by rw [hcodec, hblob]))
      · exact .inr (herror hcloses.bytes hcheck (by rw [hcodec, he]))

/-- A time in microseconds in which the bytes of a trailer happen to stand. -/
def lateSecond : RawField Tag := ⟨2, [2], [8], [0x00, 0x04, 0x59, 0xF4, 0x01, 0x02, 0x4A, 0xA8]⟩

/-- The last half of the time is taken for a checksum, which is found wrong, and the first half
does not make a field, so that it is kept as bytes. -/
theorem lateSecond_taken_for_trailer :
    let region := lateSecond.bytes
    let c := Cursor.ofBytes (PacketKey.datalink.bytes ++ ([0x0A] ++ region))
    formatOf Registry.published PacketKey.datalink =
        .localSet .datalink (some (.ofTag 1 .runningSum)) ∧
      Ber.LengthSpelling region.length [0x0A] ∧ Splits region [lateSecond] ∧
      (∀ first payload, [lateSecond] ≠ first ++ [Trailer.field 1 .runningSum payload]) ∧
      read Registry.published c = .ok
        ⟨PacketKey.datalink, .blob (region.take 6), .mismatch 0x4AA8 0x52AC⟩ (c.advance 27) := by
  intro region c
  have hformat : formatOf Registry.published PacketKey.datalink =
      .localSet .datalink (some (.ofTag 1 .runningSum)) := rfl
  have hheader : Ber.LengthSpelling region.length [0x0A] := .short 0x0A (by decide)
  have hsplits : Splits region [lateSecond] := by
    refine ⟨List.forall_mem_singleton.2 ⟨?_, .short 0x08 (by decide)⟩, ?_⟩
    · exact Ber.TagSpelling.groups [] 2 (by decide) nofun (by decide)
    · rw [List.flatMap_singleton]
  have hlast : ∀ first payload, [lateSecond] ≠ first ++ [Trailer.field 1 .runningSum payload] := by
    intro first payload h
    have happend : [] ++ [lateSecond] = first ++ [Trailer.field 1 .runningSum payload] := h
    have hfield : lateSecond = Trailer.field 1 .runningSum payload :=
      List.singleton_inj.1 (List.append_inj_right' happend rfl)
    have hkey : (2 : UInt64) = 1 := congrArg RawField.key hfield
    exact absurd hkey (by decide)
  have hread := (trailer_read (t := []) (c := c) rfl hformat (by decide) hheader hsplits rfl).2
    (region.take 6) [0x4A, 0xA8] ⟨rfl, rfl⟩
  refine ⟨hformat, hheader, hsplits, hlast, ?_⟩
  rcases hread.2.2 (fun first => hlast first _) with hok | ⟨e, herror, _⟩
  · have hverdict : verdict (.localSet .datalink (some (.ofTag 1 .runningSum)))
        (PacketKey.datalink.bytes ++ ([0x0A] ++ region.take 6)) [0x4A, 0xA8] =
          .mismatch 0x4AA8 0x52AC := by
      decide
    rw [hok, hverdict]
    rfl
  · cases herror

end Packet

end MotionMetadata
