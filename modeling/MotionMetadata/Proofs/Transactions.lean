import MotionMetadata.PrecisionTime
import MotionMetadata.Proofs.Refusals
import MotionMetadata.Proofs.Spellings
import MotionMetadata.Proofs.Undoing

/-!
# What fails leaves no trace

A reader of an item moves over the item, or it does not move. Most readers have this for the
reason that they look before they move. The others, which find out on the way, put the cursor
back: those of lengths, of time packets and of packets. A writer adds to its buffer or hands it
back, and a queue takes the packets of some data all together or takes none.
-/

namespace MotionMetadata

namespace Reader

variable {α β : Type}

/-- If the reader succeeds, what it answers is an item that stood ahead, and the cursor is
behind the item. -/
def Spans (r : Reader α) (Item : α → Bytes → Prop) : Prop :=
  ∀ c a d, r c = .ok a d →
    ∃ item rest, Item a item ∧ c.rest = item ++ rest ∧ d = c.advance item.length

/-- If the reader fails, it has not moved. -/
def Stays (r : Reader α) : Prop := ∀ c e d, r c = .error e d → d = c

/-- The reader takes an item that stands ahead, and is behind it, or it fails where it was. -/
def Transacts (r : Reader α) (Item : α → Bytes → Prop) : Prop :=
  ∀ c, match r c with
    | .ok a d => ∃ item rest, Item a item ∧ c.rest = item ++ rest ∧ d = c.advance item.length
    | .error _ d => d = c

variable {r : Reader α} {f : α → Reader β} {Item : α → Bytes → Prop} {Item' : β → Bytes → Prop}

theorem Stays.transacts (hstays : r.Stays) (hspans : r.Spans Item) : r.Transacts Item := by
  intro c
  cases hr : r c with
  | ok a d => exact hspans c a d hr
  | error e d => exact hstays c e d hr

namespace Spans

theorem pure {a : α} (h : Item a []) : (Pure.pure a : Reader α).Spans Item := by
  intro c b d hread
  injection hread with hb hd
  exact ⟨[], c.rest, hb ▸ h, rfl, by rw [← hd]; rfl⟩

theorem throw (e : Error) : (MonadExcept.throw e : Reader α).Spans Item :=
  fun _ _ _ h => nomatch h

theorem raiseAt (offset : Nat) (fault : Fault) :
    (MotionMetadata.raiseAt offset fault : Reader α).Spans Item := fun _ _ _ h => nomatch h

/-- The items of a sequence stand one behind another. -/
theorem bind (hr : r.Spans Item)
    (hf : ∀ a first, Item a first → (f a).Spans fun b second => Item' b (first ++ second)) :
    (r >>= f).Spans Item' := by
  intro c b d h
  obtain ⟨a, c', hfirst, hsecond⟩ := bind_eq_ok.1 h
  obtain ⟨first, rest, ha, hc, rfl⟩ := hr c a c' hfirst
  obtain ⟨second, rest', hb, hc', rfl⟩ := hf a first ha _ b d hsecond
  rw [Cursor.rest_advance_of_append hc] at hc'
  refine ⟨first ++ second, rest', hb, by rw [hc, hc', List.append_assoc], ?_⟩
  rw [Cursor.advance_advance, List.length_append]

/-- A sequence that looks at the cursor before it goes on. -/
theorem get_bind {f : Cursor → Reader β} (hf : ∀ c, (f c).Spans Item') :
    (get >>= f).Spans Item' := by
  intro c b d h
  rw [bind_of_ok (get_apply c)] at h
  exact hf c c b d h

theorem position_bind {f : Nat → Reader β} (hf : ∀ p, (f p).Spans Item') :
    (Reader.position >>= f).Spans Item' := by
  intro c b d h
  rw [bind_of_ok (position_apply c)] at h
  exact hf _ c b d h

theorem remaining_bind {f : Nat → Reader β} (hf : ∀ n, (f n).Spans Item') :
    (Reader.remaining >>= f).Spans Item' := by
  intro c b d h
  rw [bind_of_ok (remaining_apply c)] at h
  exact hf _ c b d h

/-- A sequence that goes on only under a condition. -/
theorem require {p : Prop} [Decidable p] {offset : Nat} {fault : Fault} (hr : p → r.Spans Item) :
    (if p then r else MotionMetadata.raiseAt offset fault >>= fun (_ : Unit) => r).Spans Item := by
  split
  · next hp => exact hr hp
  · exact fun _ _ _ h => nomatch h

theorem mapError {g : Error → Error} (hr : r.Spans Item) : (Reader.mapError g r).Spans Item :=
  fun c a d h => hr c a d (mapError_eq_ok.1 h)

theorem restoring (hr : r.Spans Item) : (Reader.restoring r).Spans Item :=
  fun c a d h => hr c a d (restoring_eq_ok.1 h)

theorem take (n : Nat) :
    (Reader.take n).Spans fun bytes item => item.length = n ∧ bytes = item := by
  intro c bytes d h
  obtain ⟨hle, rfl, rfl⟩ := take_eq_ok.1 h
  have hlength := List.length_take_of_le hle
  exact ⟨_, _, ⟨hlength, rfl⟩, (List.take_append_drop ..).symm, by rw [hlength]⟩

theorem skip (n : Nat) : (Reader.skip n).Spans fun _ item => item.length = n :=
  (take n).bind fun _ item h => .pure (by rw [List.append_nil]; exact h.1)

theorem byte : Reader.byte.Spans fun b item => item = [b] := by
  refine (take 1).bind fun bytes item h => .pure ?_
  obtain ⟨hlength, rfl⟩ := h
  obtain ⟨b, rfl⟩ := List.length_eq_one_iff.1 hlength
  rfl

end Spans

namespace Stays

theorem restoring (r : Reader α) : (Reader.restoring r).Stays := by
  intro c e d h
  rw [Reader.restoring] at h
  cases hr : r c with
  | ok a c' =>
      rw [hr] at h
      cases h
  | error e' c' =>
      rw [hr] at h
      exact (EStateM.Result.error.inj h).2.symm

theorem raiseAt (offset : Nat) (fault : Fault) :
    (MotionMetadata.raiseAt offset fault : Reader α).Stays := by
  intro c e d h
  exact (EStateM.Result.error.inj h).2.symm

theorem take (n : Nat) : (Reader.take n).Stays := by
  intro c e d h
  rcases Nat.lt_or_ge c.rest.length n with hlt | hle
  · rw [take_of_lt hlt] at h
    exact (EStateM.Result.error.inj h).2.symm
  · rw [take_of_le hle] at h
    cases h

theorem position_bind {f : Nat → Reader α} (hf : ∀ p, (f p).Stays) :
    (Reader.position >>= f).Stays := by
  intro c e d h
  rw [bind_of_ok (position_apply c)] at h
  exact hf _ c e d h

/-- A sequence whose second part does not fail. -/
theorem bind_pure (h : r.Stays) (f : α → β) : (r >>= fun a => pure (f a)).Stays := by
  intro c e d hbind
  cases hr : r c with
  | ok a c' =>
      rw [bind_of_ok hr] at hbind
      cases hbind
  | error e' c' =>
      rw [bind_of_error hr] at hbind
      injection hbind with _ hbind
      exact hbind ▸ h c e' c' hr

theorem ite {p : Prop} [Decidable p] {x y : Reader α} (hx : p → x.Stays) (hy : ¬ p → y.Stays) :
    (if p then x else y).Stays := by
  split
  · next hp => exact hx hp
  · next hp => exact hy hp

end Stays

end Reader

open Reader

/-! ## Items -/

namespace Integer

theorem readUnsigned_stays (width : Nat) : (readUnsigned width).Stays := by
  rw [readUnsigned]
  exact .ite (fun _ => (Stays.take width).bind_pure _) fun _ => .position_bind fun p => .raiseAt _ _

theorem readUnsigned_spans (width : Nat) : (readUnsigned width).Spans fun v item =>
    item.length = width ∧ v = UInt64.ofNat (BigEndian.value item) := by
  rw [readUnsigned]
  split
  · refine (Spans.take width).bind fun bytes item h => .pure ?_
    rw [List.append_nil]
    exact ⟨h.1, by rw [h.2]⟩
  · exact .position_bind fun p => .raiseAt _ _

theorem readSigned_spans (width : Nat) : (readSigned width).Spans fun v item =>
    item.length = width ∧ v = signExtend width (UInt64.ofNat (BigEndian.value item)) := by
  refine (readUnsigned_spans width).bind fun raw item h => .pure ?_
  rw [List.append_nil]
  exact ⟨h.1, by rw [h.2]⟩

end Integer

namespace Ber

theorem readLength_spans : readLength.Spans fun v item => LengthSpelling v.toNat item :=
  fun _ _ _ h => readLength_eq_ok.1 h

theorem readTag_spans : readTag.Spans TagSpelling := fun _ _ _ h => readTag_iff_spelling.1 h

theorem readTag_stays : readTag.Stays := by
  intro c e d h
  rw [readTag, bind_of_ok (get_apply c)] at h
  cases hscan : scanTag maxTagWidth 0 c.rest with
  | some found =>
      rw [hscan] at h
      cases h
  | none =>
      rw [hscan] at h
      exact (EStateM.Result.error.inj h).2.symm

end Ber

namespace Floating

theorem read_stays (width : Nat) : (read width).Stays := by
  refine .position_bind fun start => ?_
  split
  · exact (Integer.readUnsigned_stays 4).bind_pure _
  · exact (Integer.readUnsigned_stays 8).bind_pure _
  · exact .raiseAt _ _

theorem read_spans (width : Nat) : (read width).Spans fun v item => item.length = width ∧
    ((width = 4 ∧ v = .ofSingleBits (UInt64.ofNat (BigEndian.value item)).toUInt32) ∨
      (width = 8 ∧ v = ⟨UInt64.ofNat (BigEndian.value item)⟩)) := by
  refine .position_bind fun start => ?_
  split
  · refine (Integer.readUnsigned_spans 4).bind fun raw item h => .pure ?_
    rw [List.append_nil]
    exact ⟨h.1, .inl ⟨rfl, by rw [h.2]⟩⟩
  · refine (Integer.readUnsigned_spans 8).bind fun raw item h => .pure ?_
    rw [List.append_nil]
    exact ⟨h.1, .inr ⟨rfl, by rw [h.2]⟩⟩
  · exact .raiseAt _ _

end Floating

namespace UniversalKey

theorem read_stays : UniversalKey.read.Stays := by
  intro c e d h
  rcases Nat.lt_or_ge c.rest.length 16 with hlt | hle
  · rw [read, bind_of_ok (position_apply c), bind_of_error (take_of_lt hlt)] at h
    exact (EStateM.Result.error.inj h).2.symm
  · rw [read, bind_of_ok (position_apply c), bind_of_ok (take_of_le hle), ofBytes?,
      dif_pos (List.length_take_of_le hle)] at h
    cases h

theorem read_spans : UniversalKey.read.Spans fun key item => item = key.bytes := by
  intro c key d h
  obtain ⟨rest, hc, hd⟩ := UniversalKey.read_eq_ok.1 h
  exact ⟨key.bytes, rest, rfl, hc, hd⟩

end UniversalKey

namespace PrecisionTime

/-- The time that a time packet tells. -/
def ToldBy (t : PrecisionTime) (item : Bytes) : Prop :=
  ∃ tag status stuffed, item = tag ++ ([status] ++ stuffed) ∧ tag.length = tagLength ∧
    stuffed.length = stuffedLength ∧
    let count := UInt64.ofNat (BigEndian.value (unstuff stuffed))
    t = if tag = nanoTag then ofNanoseconds count status else ofMicroseconds count status

theorem read_spans : PrecisionTime.read.Spans ToldBy := by
  refine .restoring ((Spans.take tagLength).bind fun tag item htag => ?_)
  refine Spans.byte.bind fun status item' hstatus => ?_
  refine (Spans.take stuffedLength).bind fun stuffed item'' hstuffed => .pure ?_
  obtain ⟨htag, rfl⟩ := htag
  obtain ⟨hstuffed, rfl⟩ := hstuffed
  subst hstatus
  rw [List.append_nil]
  exact ⟨tag, status, stuffed, rfl, htag, hstuffed, rfl⟩

end PrecisionTime

/-! ## Packets -/

namespace Packet

variable {registry : Registry}

/-- A packet as it stands in a buffer: bytes in which no label starts, the key, a spelling of
the length of a region, and the region. -/
def StandsAs (p : Packet) (item : Bytes) : Prop :=
  ∃ junk spelling region : Bytes, Silent junk ∧ p.key.isValid ∧
    Ber.LengthSpelling region.length spelling ∧
    item = junk ++ (p.key.bytes ++ (spelling ++ region))

/-- A trailer does not take more than there is. -/
theorem checkTrailer_le {format : Format} {packet : Bytes} {length closing : Nat}
    {status : ChecksumStatus} (h : checkTrailer format packet length = .ok (closing, status)) :
    closing ≤ length := by
  rw [checkTrailer] at h
  cases htrailer : format.trailer with
  | none =>
      rw [htrailer] at h
      cases h
      exact Nat.zero_le _
  | some trailer =>
      rw [htrailer] at h
      dsimp only at h
      split at h
      · next hpresent =>
          obtain ⟨stored, _, h⟩ := except_bind_eq_ok.1 h
          cases h
          exact of_decide_eq_true (Bool.and_eq_true_iff.1 hpresent).1
      · cases h
        exact Nat.zero_le _

theorem readHere_spans : (readHere registry).Spans fun p item =>
    ∃ spelling region : Bytes, p.key.isValid ∧ Ber.LengthSpelling region.length spelling ∧
      item = p.key.bytes ++ (spelling ++ region) := by
  rw [readHere]
  refine .get_bind fun start => UniversalKey.read_spans.bind fun key item hkey => ?_
  refine .require fun hvalid => .position_bind fun lengthStart => ?_
  refine Ber.readLength_spans.bind fun length spelling hspelling => .remaining_bind fun left => ?_
  refine .require fun _ => .position_bind fun stop => ?_
  dsimp only
  split
  · exact .throw _
  · next closing checksum hcheck =>
      have hclosing := checkTrailer_le hcheck
      have hfield : ((codec registry key).readField (length.toNat - closing)).Spans
          fun _ item => item.length = length.toNat - closing :=
        fun c v d h => by
          obtain ⟨hle, rfl⟩ := Codec.readField_moves h
          have hlength := List.length_take_of_le hle
          exact ⟨_, _, hlength, (List.take_append_drop ..).symm, by rw [hlength]⟩
      refine (Spans.mapError hfield).bind fun value content hcontent => ?_
      refine (Spans.skip closing).bind fun _ tail htail => .pure ?_
      refine ⟨spelling, content ++ tail, hvalid, ?_, ?_⟩
      · have htotal : (content ++ tail).length = length.toNat := by
          rw [List.length_append]
          omega
        rw [htotal]
        exact hspelling
      · rw [hkey, List.append_nil]

/-- In front of the first start of a label no label starts. -/
theorem silent_of_offsetOf? {data : Bytes} {n : Nat}
    (h : Bytes.offsetOf? UniversalKey.labelStart data = some n) : Silent (data.take n) := by
  have hfirst := Bytes.offsetOf?_isFirst UniversalKey.labelStart data
  rw [h] at hfirst
  rintro ⟨front, back, hsplit⟩
  have hlt : front.length < n := by
    have hlength := congrArg List.length hsplit
    have hpos : 0 < UniversalKey.labelStart.length := by decide
    rw [List.length_append, List.length_append, List.length_take] at hlength
    omega
  have hdata : front ++ (UniversalKey.labelStart ++ (back ++ data.drop n)) = data := by
    rw [← List.append_assoc, ← List.append_assoc, hsplit, List.take_append_drop]
  refine hfirst.2 front.length hlt ⟨back ++ data.drop n, ?_⟩
  conv_rhs => rw [← hdata, List.drop_left]

theorem read_transacts (registry : Registry) : (read registry).Transacts StandsAs := by
  refine (Stays.restoring _).transacts fun c p d h => ?_
  obtain ⟨n, hoffset, hle, hhere⟩ := read_eq_ok.1 h
  obtain ⟨item, rest, ⟨spelling, region, hvalid, hspelling, rfl⟩, hc, rfl⟩ :=
    readHere_spans _ p d hhere
  have htotal : ∀ packet : Bytes, (c.rest.take n ++ packet).length = n + packet.length := by
    intro packet
    rw [List.length_append, List.length_take_of_le hle]
  refine ⟨c.rest.take n ++ _, rest, ⟨_, spelling, region, silent_of_offsetOf? hoffset, hvalid,
    hspelling, rfl⟩, ?_, ?_⟩
  · rw [List.append_assoc, ← hc, Cursor.rest_advance, List.take_append_drop]
  · rw [Cursor.advance_advance, htotal]

end Packet

/-! ## Queues -/

namespace PacketStream

/-- Packets are queued one after another. -/
theorem forM_push (packets : List Packet) (timestamp : Timestamp) (stream : PacketStream) :
    (packets.forM fun packet => modify (·.push packet timestamp) :
      EStateM Error PacketStream Unit) stream =
      .ok () (packets.foldl (·.push · timestamp) stream) := by
  induction packets generalizing stream with
  | nil => rfl
  | cons packet rest ih => exact ih (stream.push packet timestamp)

theorem foldl_push (packets : List Packet) (timestamp : Timestamp) (stream : PacketStream) :
    packets.foldl (·.push · timestamp) stream =
      { stream with
        pending := stream.pending ++ packets.map fun p => ⟨p, timestamp, stream.index⟩ } := by
  induction packets generalizing stream with
  | nil => simp
  | cons packet rest ih =>
      rw [List.foldl_cons, ih]
      simp [push]

/-- The packets of some data are queued all together, behind those that are pending, or the
queue is left as it was. -/
theorem receive_eq (registry : Registry) (data : Bytes) (timestamp : Timestamp)
    (stream : PacketStream) :
    receive registry data timestamp stream =
      match Packet.readAll registry data with
      | .ok packets => .ok packets.length { stream with
          pending := stream.pending ++ packets.map fun p => ⟨p, timestamp, stream.index⟩ }
      | .error e => .error e stream := by
  rw [receive]
  cases Packet.readAll registry data with
  | error e => rfl
  | ok packets =>
      show EStateM.bind (packets.forM fun packet => modify (·.push packet timestamp)) _ stream = _
      rw [EStateM.bind, forM_push, foldl_push]
      rfl

end PacketStream

/-! ## All of them -/

/-- What fails leaves things as they were, and what succeeds moves by what it has read or
written. That goes for the readers of integers, lengths, tags, floats, truth values, bytes,
keys, times and packets; for writing a field of any format at any depth, and a packet, into a
buffer, whatever codecs without parts leave behind when they fail; and for queueing the packets
in some data. -/
theorem failures_leave_no_trace (registry : Registry) :
    (∀ width, (Integer.readUnsigned width).Transacts fun v item =>
      item.length = width ∧ v = UInt64.ofNat (BigEndian.value item)) ∧
    (∀ width, (Integer.readSigned width).Transacts fun v item =>
      item.length = width ∧
        v = Integer.signExtend width (UInt64.ofNat (BigEndian.value item))) ∧
    Ber.readLength.Transacts (fun v item => Ber.LengthSpelling v.toNat item) ∧
    Ber.readTag.Transacts Ber.TagSpelling ∧
    (∀ width, (Floating.read width).Transacts fun v item => item.length = width ∧
      ((width = 4 ∧ v = .ofSingleBits (UInt64.ofNat (BigEndian.value item)).toUInt32) ∨
        (width = 8 ∧ v = ⟨UInt64.ofNat (BigEndian.value item)⟩))) ∧
    Reader.bool.Transacts (fun v item => ∃ b, item = [b] ∧ v = (b != 0)) ∧
    (∀ n, (Reader.take n).Transacts fun bytes item => item.length = n ∧ bytes = item) ∧
    (SetKey.read (κ := Tag)).Transacts Ber.TagSpelling ∧
    (SetKey.read (κ := UniversalKey)).Transacts (fun key item => item = key.bytes) ∧
    PrecisionTime.read.Transacts PrecisionTime.ToldBy ∧
    (Packet.read registry).Transacts Packet.StandsAs ∧
    (∀ left levels f value length,
      ((Format.codecInto registry left levels f).writeField value length).Restores
        ((Format.codec registry levels f).writeField value length)) ∧
    (∀ left (packet : Packet),
      (packet.writeInto registry left).Restores (packet.write registry)) ∧
    ∀ data timestamp (stream : PacketStream),
      match PacketStream.receive registry data timestamp stream with
      | .ok n after => PacketStream.pushBytes registry stream data timestamp = .ok (after, n) ∧
          ∃ packets, Packet.readAll registry data = .ok packets ∧ n = packets.length ∧
            after.pending =
              stream.pending ++ packets.map fun p => ⟨p, timestamp, stream.index⟩
      | .error e after => PacketStream.pushBytes registry stream data timestamp = .error e ∧
          after = stream := by
  refine ⟨fun width => (Integer.readUnsigned_stays width).transacts
      (Integer.readUnsigned_spans width),
    fun width => ((Integer.readUnsigned_stays width).bind_pure _).transacts
      (Integer.readSigned_spans width),
    (Stays.restoring _).transacts Ber.readLength_spans,
    Ber.readTag_stays.transacts Ber.readTag_spans,
    fun width => (Floating.read_stays width).transacts (Floating.read_spans width),
    (((Stays.take 1).bind_pure _).bind_pure _).transacts ?_,
    fun n => (Stays.take n).transacts (Spans.take n),
    Ber.readTag_stays.transacts Ber.readTag_spans,
    UniversalKey.read_stays.transacts UniversalKey.read_spans,
    (Stays.restoring _).transacts PrecisionTime.read_spans,
    Packet.read_transacts registry, fun left levels f value length => ?_,
    fun left packet => packet.writeInto_restores registry left, fun data timestamp stream => ?_⟩
  · refine Spans.byte.bind fun b item h => .pure ⟨b, ?_, rfl⟩
    rw [List.append_nil, h]
  · rw [← Format.codecInto_codec registry left levels f]
    exact (Format.codecInto_sound registry left levels f).writeField value length
  · rw [PacketStream.receive_eq, PacketStream.pushBytes]
    cases Packet.readAll registry data with
    | error e => exact ⟨rfl, rfl⟩
    | ok packets =>
        refine ⟨?_, packets, rfl, rfl, rfl⟩
        rw [← PacketStream.foldl_push]
        rfl

end MotionMetadata
