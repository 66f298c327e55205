import MotionMetadata.Packet
import MotionMetadata.Proofs.Fields
import MotionMetadata.Proofs.Searching
import MotionMetadata.Registry

/-!
# Writing a packet and reading it

The writer and the reader of packets find the covered bytes of a checksum each in their own
way: one has just written them, the other counts back from the end of what the length says.
Here the two are put together. What is written is a key, a length, a value and a trailer, in
this order, and what is read from that is what the value's format makes of the value's bytes,
with the verdict on the checksum.

The checksum is left open in all of this. The reader treats every payload of the right length
the same, and only the verdict tells the right one from the others.
-/

namespace MotionMetadata.Packet

/-! ## The parts of a packet -/

/-- The format that the registry has for the packets of a key. -/
def formatOf (registry : Registry) (key : UniversalKey) : Format := (entry registry key).format

/-- What stands before the trailer of a packet with the value bytes `content`. -/
def opened (format : Format) (key : UniversalKey) (content : Bytes) : Bytes :=
  key.bytes ++
    (Ber.lengthBytes (UInt64.ofNat (content.length + trailerLength format)) ++ content)

/-- The trailer of a format with `payload` for a checksum. -/
def closing (format : Format) (payload : Bytes) : Bytes :=
  match format.trailer with
  | some trailer => trailer.header ++ payload
  | none => []

/-- The bytes that the checksum of a trailer takes. -/
def payloadLength (format : Format) : Nat :=
  match format.trailer with
  | some trailer => trailer.algorithm.width
  | none => 0

/-- The checksum of what stands before a trailer and of the trailer's header. -/
def checksumOf (trailer : Checksum.Trailer) (opened : Bytes) : UInt64 :=
  trailer.evaluate (opened ++ trailer.header)

/-- The payload that belongs behind `opened`. -/
def payloadOf (format : Format) (opened : Bytes) : Bytes :=
  match format.trailer with
  | some trailer =>
    BigEndian.bytes trailer.algorithm.width (checksumOf trailer opened).toNat
  | none => []

/-- What is to be said of a payload: it is the one that belongs there, or it is not, and then
both numbers are told. -/
def verdict (format : Format) (opened payload : Bytes) : ChecksumStatus :=
  match format.trailer with
  | none => .absent
  | some trailer =>
    if payload = payloadOf format opened then .valid
    else .mismatch (UInt64.ofNat (BigEndian.value payload)) (checksumOf trailer opened)

/-- A packet put together from its key, the bytes of its value and a checksum. -/
def assembled (format : Format) (key : UniversalKey) (content payload : Bytes) : Bytes :=
  opened format key content ++ closing format payload

variable {registry : Registry} {format : Format} {key : UniversalKey} {content payload : Bytes}

theorem length_payloadOf (format : Format) (opened : Bytes) :
    (payloadOf format opened).length = payloadLength format := by
  rw [payloadOf, payloadLength]
  cases format.trailer with
  | none => rfl
  | some trailer => exact BigEndian.length_bytes _ _

theorem length_closing (h : payload.length = payloadLength format) :
    (closing format payload).length = trailerLength format := by
  rw [payloadLength] at h
  rw [closing, trailerLength]
  cases htrailer : format.trailer with
  | none => rfl
  | some trailer =>
      rw [htrailer] at h
      dsimp only at h ⊢
      rw [List.length_append, h, Checksum.Trailer.length]

theorem length_assembled (key : UniversalKey) (content : Bytes)
    (h : payload.length = payloadLength format) :
    (assembled format key content payload).length =
      16 + Ber.widthOfLength (content.length + trailerLength format) +
        (content.length + trailerLength format) := by
  rw [assembled, List.length_append, length_closing h, opened, List.length_append,
    List.length_append, key.length_eq, Ber.length_lengthBytes, Ber.widthOfLength]
  omega

/-- The payload that belongs there is found to be good. -/
theorem verdict_payloadOf (opened : Bytes) :
    verdict format opened (payloadOf format opened) =
      if format.trailer.isSome then .valid else .absent := by
  rw [verdict]
  cases format.trailer with
  | none => rfl
  | some trailer => exact if_pos rfl

/-! ## What is written -/

/-- A checksum that a trailer has room for. -/
def Fits (format : Format) (opened : Bytes) : Prop :=
  ∀ trailer, format.trailer = some trailer →
    (1 ≤ trailer.algorithm.width ∧ trailer.algorithm.width ≤ 8) ∧
      (checksumOf trailer opened).toNat < 256 ^ trailer.algorithm.width

/-- Writing a packet puts it together from what its codec writes. -/
theorem write_eq_ok {p : Packet} {position : Nat} {e : Bytes}
    (hformat : (entry registry p.key).format = format)
    (h : p.write registry position = .ok ((), e)) :
    ∃ content, (codec registry p.key).fieldLength p.value = .ok content.length ∧
      (∃ start, (codec registry p.key).writeField p.value content.length start =
        .ok ((), content)) ∧
      Fits format (opened format p.key content) ∧
      e = assembled format p.key content (payloadOf format (opened format p.key content)) := by
  subst hformat
  obtain ⟨length, hlength, h⟩ := Encoder.ofExcept_bind_eq_ok.1 (Encoder.mapError_eq_ok.1 h)
  obtain ⟨body, first, second, hbody, hclosing, rfl⟩ := Encoder.bind_eq_ok.1 h
  obtain ⟨rfl, a, hparts⟩ := Encoder.captured_eq_ok.1 hbody
  obtain ⟨_, keyBytes, _, hkey, htail, rfl⟩ := Encoder.bind_eq_ok.1 hparts
  obtain ⟨_, lengthBytes, content, hber, hfield, rfl⟩ := Encoder.bind_eq_ok.1 htail
  injection hkey with hkey
  injection hkey with _ hkey
  injection hber with hber
  injection hber with _ hber
  subst hkey hber
  obtain ⟨_, hcontent⟩ := Codec.writeField_eq_ok.1 hfield
  subst hcontent
  have hopened : p.key.bytes ++
      (Ber.lengthBytes (UInt64.ofNat (content.length +
        trailerLength (entry registry p.key).format)) ++ content) =
      opened (entry registry p.key).format p.key content := by
    rw [opened]
  rw [hopened] at hclosing ⊢
  refine ⟨content, hlength, ⟨_, hfield⟩, ?_⟩
  · rw [assembled, closing, payloadOf]
    cases htrailer : (entry registry p.key).format.trailer with
    | none =>
        rw [htrailer] at hclosing
        injection hclosing with hclosing
        injection hclosing with _ hclosing
        refine ⟨fun trailer hnone => ?_, by rw [← hclosing]⟩
        rw [htrailer] at hnone
        cases hnone
    | some trailer =>
        rw [htrailer] at hclosing
        obtain ⟨_, header, sum, hheader, hsum, rfl⟩ := Encoder.bind_eq_ok.1 hclosing
        injection hheader with hheader
        injection hheader with _ hheader
        obtain ⟨hwidth, hfits, rfl⟩ := Integer.writeUnsigned_eq_ok.1 hsum
        refine ⟨fun trailer' hsome => ?_, ?_⟩
        · rw [htrailer] at hsome
          injection hsome with hsome
          rw [← hsome]
          exact ⟨hwidth, hfits⟩
        · rw [← hheader]
          rfl

/-! ## What is read -/

theorem algorithm_width (algorithm : Checksum.Algorithm) :
    1 ≤ algorithm.width ∧ algorithm.width ≤ 8 := by
  cases algorithm <;> decide

theorem reads_trailer {trailer : Checksum.Trailer} (hpos : 1 ≤ trailer.algorithm.width)
    (hle : trailer.algorithm.width ≤ 8) (hpayload : payload.length = trailer.algorithm.width) :
    Reader.Reads trailer.read (trailer.header ++ payload)
      (UInt64.ofNat (BigEndian.value payload)) := by
  rw [Checksum.Trailer.read]
  refine .position_bind fun _ => .bind (.take trailer.header) ?_
  rw [if_pos (beq_self_eq_true trailer.header), ← hpayload]
  exact Integer.reads_value payload (by omega) (by omega)

/-- The reader finds the trailer, takes it off and compares what is in it. -/
theorem checkTrailer_closing {opened : Bytes} {length : Nat} (hfits : Fits format opened)
    (hpayload : payload.length = payloadLength format)
    (hlength : trailerLength format ≤ length) :
    checkTrailer format (opened ++ closing format payload) length =
      .ok (trailerLength format, verdict format opened payload) := by
  have hclosing := length_closing hpayload
  rw [payloadLength] at hpayload
  rw [checkTrailer, verdict, trailerLength]
  rw [trailerLength] at hlength hclosing
  cases htrailer : format.trailer with
  | none => rfl
  | some trailer =>
      obtain ⟨⟨hpos, hle⟩, hsmall⟩ := hfits trailer htrailer
      rw [htrailer] at hpayload hlength hclosing
      rw [closing, htrailer] at hclosing ⊢
      dsimp only at hpayload hlength hclosing ⊢
      have hstart : (opened ++ (trailer.header ++ payload)).length - trailer.length =
          opened.length := by
        rw [List.length_append, hclosing]
        omega
      have hpresent : trailer.isPresent (opened ++ (trailer.header ++ payload)) = true := by
        rw [Checksum.Trailer.isPresent, hstart, List.drop_left, List.length_append, hclosing,
          Bool.and_eq_true, decide_eq_true_iff]
        exact ⟨by omega, List.isPrefixOf_iff_prefix.2 (List.prefix_append _ _)⟩
      rw [if_pos (by rw [hpresent, Bool.and_true, decide_eq_true_iff]; exact hlength), hstart,
        ← List.append_assoc]
      have hcovered : (opened ++ trailer.header ++ payload).take
          (opened.length + trailer.header.length) = opened ++ trailer.header := by
        rw [← List.length_append, List.take_left]
      rw [hcovered, List.append_assoc, List.drop_left,
        (reads_trailer hpos hle hpayload).onBytes, payloadOf, htrailer]
      -- Two numbers that fit the payload are equal if their bytes are.
      have hsame := Integer.ofNat_value_eq_iff payload (checksumOf trailer opened)
        (by omega) (by rw [hpayload]; exact hsmall)
      rw [hpayload] at hsame
      simp only [← hsame]
      rfl

theorem reads_key (key : UniversalKey) : Reader.Reads UniversalKey.read key.bytes key := by
  rw [UniversalKey.read]
  refine .position_bind fun _ => ?_
  have htake := Reader.Reads.take key.bytes
  rw [key.length_eq] at htake
  refine htake.bind_nil ?_
  rw [UniversalKey.ofBytes?, dif_pos key.length_eq]
  exact .pure key

/-- A valid key is a start of a label, so a packet is not looked for any further. -/
theorem offsetOf?_valid (hkey : key.isValid) (t : Bytes) :
    Bytes.offsetOf? UniversalKey.labelStart (key.bytes ++ t) = some 0 := by
  rw [UniversalKey.isValid, UniversalKey.hasLabelStart, Bool.and_eq_true, Bool.and_eq_true,
    beq_iff_eq] at hkey
  have hprefix : UniversalKey.labelStart <+: key.bytes ++ t := by
    rw [← hkey.1.1]
    exact (List.take_prefix 4 key.bytes).trans (List.prefix_append _ _)
  exact Bytes.offsetOf?_prefix hprefix

theorem codec_local (registry : Registry) (key : UniversalKey) (n : Nat) :
    Reader.Local ((codec registry key).read n) :=
  fun _ => Format.codec_alike registry maxDepth (entry registry key).format n

/-- Up to its value a packet is its key and its length, and what is left to do is to read the
value from the region behind them and to skip what the check took for the trailer. -/
theorem readHere_eq {c : Cursor} {length region t : Bytes} {n : Nat} {status : ChecksumStatus}
    (hkey : key.isValid) (hformat : formatOf registry key = format)
    (hlength : Reader.Reads Ber.readLength length (UInt64.ofNat region.length))
    (hsize : region.length < 2 ^ 64)
    (hcheck : checkTrailer format (key.bytes ++ (length ++ region))
      region.length = .ok (n, status))
    (hc : c.rest = key.bytes ++ (length ++ (region ++ t))) :
    (c.advance (16 + length.length)).rest = region ++ t ∧
      readHere registry c =
        (do
          let value ← Reader.mapError (·.within (entry registry key).name)
            ((codec registry key).readField (region.length - n))
          Reader.skip n
          return ⟨key, value, status⟩ : Reader Packet) (c.advance (16 + length.length)) := by
  have hreadKey : UniversalKey.read c = .ok key (c.advance 16) := by
    rw [← key.length_eq]
    exact reads_key key c _ hc
  have hrestKey : (c.advance 16).rest = length ++ (region ++ t) := by
    rw [Cursor.rest_advance, hc, ← key.length_eq, List.drop_left]
  have hreadLength : Ber.readLength (c.advance 16) =
      .ok (UInt64.ofNat region.length) (c.advance (16 + length.length)) := by
    rw [← Cursor.advance_advance]
    exact hlength _ _ hrestKey
  have hrest : (c.advance (16 + length.length)).rest = region ++ t := by
    rw [← Cursor.advance_advance, Cursor.rest_advance, hrestKey, List.drop_left]
  have htoNat : (UInt64.ofNat region.length).toNat = region.length := by
    rw [UInt64.toNat_ofNat']
    exact Nat.mod_eq_of_lt hsize
  have hleft : region.length ≤ (c.advance (16 + length.length)).rest.length := by
    rw [hrest, List.length_append]
    omega
  have hwhole : c.rest.take ((c.advance (16 + length.length)).position - c.position +
      region.length) = key.bytes ++ (length ++ region) := by
    have hcount : (c.advance (16 + length.length)).position - c.position + region.length =
        (key.bytes ++ (length ++ region)).length := by
      rw [Cursor.position_advance, List.length_append, List.length_append, key.length_eq]
      omega
    have hsplit : c.rest = (key.bytes ++ (length ++ region)) ++ t := by
      rw [hc]
      simp only [List.append_assoc]
    rw [hcount, hsplit, List.take_left]
  rw [formatOf] at hformat
  refine ⟨hrest, ?_⟩
  rw [readHere, Reader.bind_of_ok (Reader.get_apply c), Reader.bind_of_ok hreadKey]
  dsimp only
  rw [if_pos hkey, Reader.bind_of_ok (Reader.position_apply _), Reader.bind_of_ok hreadLength,
    Reader.bind_of_ok (Reader.remaining_apply _), htoNat, if_pos hleft,
    Reader.bind_of_ok (Reader.position_apply _), hwhole, hformat, hcheck]
  rw [codec, hformat]

theorem read_of_start {c : Cursor}
    (h : Bytes.offsetOf? UniversalKey.labelStart c.rest = some 0) :
    read registry c = Reader.restoring (readHere registry) c := by
  rw [read, Reader.restoring, Reader.restoring, Reader.bind_of_ok (Reader.get_apply c), h]
  dsimp only
  rw [Reader.bind_of_ok (Reader.skip_of_le (Nat.zero_le _))]
  rfl

theorem read_of_isValid {c : Cursor} {t : Bytes} (hkey : key.isValid)
    (hc : c.rest = key.bytes ++ t) :
    read registry c = Reader.restoring (readHere registry) c :=
  read_of_start (hc ▸ offsetOf?_valid hkey t)

/-- A packet whose check takes `tail` off is read as what its format makes of the bytes before
that, unless it nests too deep. -/
theorem read_checked {c : Cursor} {length tail t : Bytes} {status : ChecksumStatus}
    (hkey : key.isValid) (hformat : formatOf registry key = format)
    (hlength : Reader.Reads Ber.readLength length (UInt64.ofNat (content ++ tail).length))
    (hsize : (content ++ tail).length < 2 ^ 64)
    (hcheck : checkTrailer format (key.bytes ++ (length ++ (content ++ tail)))
      (content ++ tail).length = .ok (tail.length, status))
    (hc : c.rest = key.bytes ++ (length ++ (content ++ tail ++ t))) :
    match (codec registry key).onField content with
    | .ok value => read registry c = .ok ⟨key, value, status⟩
        (c.advance (key.bytes ++ (length ++ (content ++ tail))).length)
    | .error _ => ∃ e, read registry c = .error e c ∧ e.kind = .depth := by
  obtain ⟨hrest, hhere⟩ := readHere_eq hkey hformat hlength hsize hcheck hc
  rw [List.append_assoc] at hrest
  have hleft : (content ++ tail).length - tail.length = content.length := by
    rw [List.length_append]
    omega
  rw [hleft] at hhere
  have hfield := Codec.readField_eq_onField (codec_local registry key) hrest
  rw [read_of_isValid hkey hc, Reader.restoring, hhere]
  cases hvalue : (codec registry key).onField content with
  | ok value =>
      rw [hvalue] at hfield
      have hskip : tail.length ≤
          ((c.advance (16 + length.length)).advance content.length).rest.length := by
        rw [Cursor.rest_advance, hrest, List.drop_left, List.length_append]
        omega
      have htotal : (key.bytes ++ (length ++ (content ++ tail))).length =
          16 + length.length + (content.length + tail.length) := by
        simp only [List.length_append, key.length_eq, Nat.add_assoc]
      rw [Reader.bind_of_ok (Reader.mapError_eq_ok.2 hfield),
        Reader.bind_of_ok (Reader.skip_of_le hskip), Cursor.advance_advance,
        Cursor.advance_advance, htotal]
      rfl
  | error _ =>
      rw [hvalue] at hfield
      obtain ⟨e, he, hdepth⟩ := hfield
      have hfails : Reader.mapError (·.within (entry registry key).name)
          ((codec registry key).readField content.length) (c.advance (16 + length.length)) =
            .error (e.within (entry registry key).name)
              ((c.advance (16 + length.length)).advance content.length) := by
        rw [Reader.mapError, he]
      rw [Reader.bind_of_error hfails]
      exact ⟨_, rfl, hdepth⟩

/-- A packet that was put together is read as what its format makes of the value's bytes, with
the verdict on the checksum, unless it nests too deep. -/
theorem read_assembled {c : Cursor} {t : Bytes} (hkey : key.isValid)
    (hformat : formatOf registry key = format)
    (hfits : Fits format (opened format key content))
    (hpayload : payload.length = payloadLength format)
    (hsize : content.length + trailerLength format < 2 ^ 64)
    (hc : c.rest = assembled format key content payload ++ t) :
    match (codec registry key).onField content with
    | .ok value =>
      read registry c =
        .ok ⟨key, value, verdict format (opened format key content) payload⟩
          (c.advance (assembled format key content payload).length)
    | .error _ => ∃ e, read registry c = .error e c ∧ e.kind = .depth := by
  have hclosing := length_closing hpayload
  have hregion : (content ++ closing format payload).length =
      content.length + trailerLength format := by
    rw [List.length_append, hclosing]
  have hcheck :=
    checkTrailer_closing hfits hpayload (Nat.le_add_left (trailerLength format) content.length)
  have hreads := Ber.reads_lengthBytes (UInt64.ofNat (content.length + trailerLength format))
  rw [assembled] at hc ⊢
  rw [opened] at hc hcheck ⊢
  generalize Ber.lengthBytes (UInt64.ofNat (content.length + trailerLength format)) = length
    at *
  simp only [List.append_assoc] at hc hcheck ⊢
  rw [← hregion, ← hclosing] at hcheck
  rw [← hregion] at hreads hsize
  rw [← List.append_assoc content] at hc
  exact read_checked hkey hformat hreads hsize hcheck hc

/-- What is written is a packet of the length that was announced. Reading it, whatever comes
before and after, gives the key, what the format makes of the value's bytes, and a good
checksum. Another checksum of the same length in its place is noticed, and changes nothing
else. The bound is that of any buffer there is. -/
theorem write_then_read {p : Packet} {buffer out : Bytes} (hkey : p.key.isValid)
    (hwrite : (p.write registry).appendTo buffer = (.ok (), out))
    (hsize : out.length < 2 ^ 64) :
    let format := formatOf registry p.key
    ∃ content : Bytes,
      (∃ start, (codec registry p.key).writeField p.value content.length start =
        .ok ((), content)) ∧
      out = buffer ++
        assembled format p.key content (payloadOf format (opened format p.key content)) ∧
      p.length registry = .ok (assembled format p.key content
        (payloadOf format (opened format p.key content))).length ∧
      verdict format (opened format p.key content)
        (payloadOf format (opened format p.key content)) =
          (if format.trailer.isSome then .valid else .absent) ∧
      ∀ payload : Bytes, payload.length = payloadLength format → ∀ (c : Cursor) (t : Bytes),
        c.rest = assembled format p.key content payload ++ t →
        match (codec registry p.key).onField content with
        | .ok value =>
          read registry c =
            .ok ⟨p.key, value, verdict format (opened format p.key content) payload⟩
              (c.advance (assembled format p.key content payload).length)
        | .error _ => ∃ e, read registry c = .error e c ∧ e.kind = .depth := by
  intro format
  obtain ⟨_, e, he, rfl⟩ := Encoder.appendTo_eq_ok.1 hwrite
  obtain ⟨content, hlength, hfield, hfits, rfl⟩ := write_eq_ok (show _ = format from rfl) he
  have htotal := length_assembled p.key content
    (length_payloadOf format (opened format p.key content))
  rw [List.length_append, htotal] at hsize
  refine ⟨content, hfield, rfl, ?_, verdict_payloadOf _, fun payload hpayload c t hc => ?_⟩
  · rw [length, htotal]
    exact except_bind_eq_ok.2 ⟨content.length, hlength, rfl⟩
  · exact read_assembled hkey rfl hfits hpayload (by omega) hc

/-- A packet of a version number and nothing else but its checksum. -/
def versionOnly : Packet := ⟨PacketKey.datalink, .localSet [⟨65, .uint 19, none⟩], .absent⟩

def versionOnlyBytes : Bytes :=
  [0x06, 0x0E, 0x2B, 0x34, 0x02, 0x0B, 0x01, 0x01, 0x0E, 0x01, 0x03, 0x01, 0x01, 0x00, 0x00,
    0x00, 0x07, 0x41, 0x01, 0x13, 0x01, 0x02, 0x4F, 0xA6]

/-- Behind a stray byte the packet has the length that was announced, and its parts are found
again. -/
theorem versionOnly_framed :
    versionOnly.key.isValid = true ∧
      (versionOnly.write Registry.published).appendTo [0xFF] =
        (.ok (), 0xFF :: versionOnlyBytes) ∧
      versionOnly.length Registry.published = .ok versionOnlyBytes.length ∧
      ∃ content, versionOnlyBytes =
        assembled (formatOf Registry.published versionOnly.key) versionOnly.key content
          (payloadOf (formatOf Registry.published versionOnly.key)
            (opened (formatOf Registry.published versionOnly.key) versionOnly.key content)) := by
  have hwrite : (versionOnly.write Registry.published).appendTo [0xFF] =
      (.ok (), 0xFF :: versionOnlyBytes) := rfl
  obtain ⟨content, _, hout, hlength, _⟩ := write_then_read rfl hwrite (by decide)
  rw [List.singleton_append] at hout
  have hbytes := List.tail_eq_of_cons_eq hout
  refine ⟨rfl, hwrite, ?_, content, hbytes⟩
  rw [hlength, ← hbytes]

end MotionMetadata.Packet
