import MotionMetadata.Proofs.Framing
import MotionMetadata.Proofs.Spellings

/-!
# Packets one after another

A stream of packets may have anything between them that does not start a label. The reader
looks for the next start and goes on from there, and two things have to be true for that to
lose nothing. The four bytes it looks for must not overlap themselves, or filler that ends in
some of them could move the place where they are found. And a packet has to take exactly its
own bytes, so that a start of a label inside its value is passed over by length and never
looked at.

For any other input there is no promise which packets are found, but there is one that the
search ends, and it ends for a reason: no label starts ahead, or a packet could not be read.
The fuel of the definition is none of the reasons, since every packet takes seventeen bytes
or more.
-/

namespace MotionMetadata

open UniversalKey (labelStart)

/-- The bytes in which no label starts. -/
def Silent (g : Bytes) : Prop := ¬ labelStart <:+: g

/-- The start of a label does not overlap itself: behind bytes in which no label starts, the
first one is where it was put. -/
theorem offsetOf?_silent {g t : Bytes} (hg : Silent g) :
    Bytes.offsetOf? labelStart (g ++ (labelStart ++ t)) = some g.length := by
  induction g with
  | nil => rfl
  | cons b g ih =>
      have hnot : ¬ labelStart <+: b :: (g ++ (labelStart ++ t)) := by
        intro hprefix
        -- A start that begins in the filler and ends behind it would overlap the next one.
        match g, hg with
        | [], _ => simp [labelStart] at hprefix
        | [_], _ => simp [labelStart] at hprefix
        | [_, _], _ => simp [labelStart] at hprefix
        | x :: y :: z :: more, hg =>
            refine hg (List.IsPrefix.isInfix ?_)
            have hshort : [b, x, y, z] <+: b :: x :: y :: z :: more := ⟨more, rfl⟩
            have hlong : [b, x, y, z] <+: b :: (x :: y :: z :: more ++ (labelStart ++ t)) :=
              ⟨more ++ (labelStart ++ t), rfl⟩
            exact (List.prefix_of_prefix_length_le hprefix hlong
              (by simp [labelStart])).trans hshort
      have hrest : Silent g := fun hin => hg (hin.trans (List.suffix_cons b g).isInfix)
      rw [List.cons_append, Bytes.offsetOf?, if_neg (by rwa [List.isPrefixOf_iff_prefix]),
        ih hrest]
      rfl

theorem offsetOf?_of_silent {g : Bytes} (hg : Silent g) :
    Bytes.offsetOf? labelStart g = none :=
  (Bytes.offsetOf?_isFirst labelStart g).unique fun k hprefix =>
    hg <| hprefix.isInfix.trans (List.drop_suffix k g).isInfix

namespace Reader

variable {α β : Type} {x : Reader α} {f : α → Reader β} {m k : Nat}

/-- If the reader succeeds, it moves forward by `m` bytes or more, over bytes that are there. -/
def Consumes (r : Reader α) (m : Nat) : Prop :=
  ∀ c a d, r c = .ok a d → ∃ n, m ≤ n ∧ n ≤ c.rest.length ∧ d = c.advance n

theorem Local.consumes (hx : x.Local) : x.Consumes 0 := by
  intro c a d h
  have hsame := hx 0 c c rfl rfl
  rw [h] at hsame
  obtain ⟨_, n, hn, hd, _⟩ := hsame
  exact ⟨n, Nat.zero_le n, hn, hd⟩

theorem Consumes.pure (a : α) : (pure a : Reader α).Consumes 0 :=
  Local.consumes fun _ => .pure rfl

theorem Consumes.throw (e : Error) : (throw e : Reader α).Consumes m :=
  fun _ _ _ h => nomatch h

theorem Consumes.bind (hx : x.Consumes m) (hf : ∀ a, (f a).Consumes k) :
    (x >>= f).Consumes (m + k) := by
  intro c b d h
  obtain ⟨a, c', ha, hb⟩ := bind_eq_ok.1 h
  obtain ⟨n, hn, hle, rfl⟩ := hx c a c' ha
  obtain ⟨n', hn', hle', rfl⟩ := hf a _ b d hb
  rw [Cursor.rest_advance, List.length_drop] at hle'
  exact ⟨n + n', by omega, by omega, Cursor.advance_advance c n n'⟩

/-- A sequence that looks at where it is before it goes on. -/
theorem Consumes.behind (hx : x.Local) (hf : ∀ a, (f a).Consumes k) : (x >>= f).Consumes k :=
  Nat.zero_add k ▸ hx.consumes.bind hf

theorem Consumes.get_bind {f : Cursor → Reader β} (hf : ∀ c, (f c).Consumes k) :
    (get >>= f).Consumes k := by
  intro c b d h
  rw [bind_of_ok (get_apply c)] at h
  exact hf c c b d h

theorem Consumes.position_bind {f : Nat → Reader β} (hf : ∀ p, (f p).Consumes k) :
    (position >>= f).Consumes k := by
  intro c b d h
  rw [bind_of_ok (position_apply c)] at h
  exact hf _ c b d h

/-- A sequence that goes on only under a condition. -/
theorem Consumes.require {p : Prop} [Decidable p] {y : Reader α} {o : Nat} {fault : Fault}
    (hy : y.Consumes m) :
    (if p then y else raiseAt o fault >>= fun (_ : Unit) => y).Consumes m := by
  split
  · exact hy
  · exact fun _ _ _ h => nomatch h

theorem Consumes.mapError {g : Error → Error} (hx : x.Consumes m) :
    (mapError g x).Consumes m :=
  fun c a d h => hx c a d (mapError_eq_ok.1 h)

end Reader

theorem UniversalKey.read_consumes : UniversalKey.read.Consumes 16 := by
  intro c key d h
  obtain ⟨t, hc, rfl⟩ := UniversalKey.read_eq_ok.1 h
  exact ⟨_, key.length_eq.ge, by rw [hc]; simp, rfl⟩

theorem Ber.readLength_consumes : Ber.readLength.Consumes 1 := by
  intro c length d h
  obtain ⟨spelling, t, hspelling, hc, rfl⟩ := Ber.readLength_eq_ok.1 h
  exact ⟨_, List.length_pos_iff.2 hspelling.ne_nil, by rw [hc]; simp, rfl⟩

namespace Packet

variable {registry : Registry}

/-! ## One packet -/

theorem labelStart_prefix_key {key : UniversalKey} (h : key.isValid) :
    labelStart <+: key.bytes := by
  rw [UniversalKey.isValid, UniversalKey.hasLabelStart, Bool.and_eq_true, Bool.and_eq_true,
    beq_iff_eq] at h
  rw [← h.1.1]
  exact List.take_prefix 4 key.bytes

/-- What was encoded starts with its key. -/
theorem key_prefix_encoded {p : Packet} {e : Bytes} (hencode : p.encode registry = .ok e) :
    p.key.bytes <+: e := by
  obtain ⟨_, hwrite⟩ := Encoder.bytes_eq_ok.1 hencode
  obtain ⟨content, _, _, _, rfl⟩ := write_eq_ok rfl hwrite
  rw [assembled, opened, List.append_assoc]
  exact List.prefix_append _ _

/-- What was encoded under a valid key and decodes on its own is read the same wherever it
stands, and nothing behind it is touched. -/
theorem reads_encoded {p q : Packet} {e : Bytes} (hkey : p.key.isValid)
    (hencode : p.encode registry = .ok e) (hdecode : decode registry e = .ok q)
    (hsize : e.length < 2 ^ 64) : Reader.Reads (read registry) e q := by
  intro c t hc
  obtain ⟨_, hwrite⟩ := Encoder.bytes_eq_ok.1 hencode
  obtain ⟨content, _, _, hfits, he⟩ := write_eq_ok
    (show (entry registry p.key).format = formatOf registry p.key from rfl) hwrite
  have hpayload := length_payloadOf (formatOf registry p.key)
    (opened (formatOf registry p.key) p.key content)
  have hsmall : content.length + trailerLength (formatOf registry p.key) < 2 ^ 64 := by
    rw [he, length_assembled p.key content hpayload] at hsize
    omega
  have hhere := read_assembled hkey rfl hfits hpayload hsmall (he ▸ hc)
  have halone := read_assembled (c := Cursor.ofBytes e) (t := []) hkey rfl hfits hpayload hsmall
    (by rw [← he, List.append_nil, Cursor.rest_ofBytes])
  obtain ⟨d, hread⟩ := Reader.onBytes_eq_ok.1 hdecode
  cases hvalue : (codec registry p.key).onField content with
  | error _ =>
      rw [hvalue] at halone
      obtain ⟨_, herror, _⟩ := halone
      rw [hread] at herror
      cases herror
  | ok value =>
      rw [hvalue] at halone hhere
      dsimp only at halone hhere
      rw [hread] at halone
      injection halone with hq _
      rw [hhere, ← hq, ← he]

/-- Before a packet is read, what stands in front of the next start of a label is skipped. -/
theorem read_eq_ok {c d : Cursor} {p : Packet} :
    read registry c = .ok p d ↔
      ∃ n, Bytes.offsetOf? labelStart c.rest = some n ∧ n ≤ c.rest.length ∧
        readHere registry (c.advance n) = .ok p d := by
  rw [read, Reader.restoring_eq_ok, Reader.bind_of_ok (Reader.get_apply c)]
  cases Bytes.offsetOf? labelStart c.rest with
  | none => simp
  | some n =>
      rw [Reader.bind_eq_ok]
      constructor
      · rintro ⟨_, c', hskip, hhere⟩
        obtain ⟨bytes, c'', htake, hpure⟩ := Reader.bind_eq_ok.1 hskip
        obtain ⟨hn, _, rfl⟩ := Reader.take_eq_ok.1 htake
        injection hpure with _ hc'
        exact ⟨n, rfl, hn, hc' ▸ hhere⟩
      · rintro ⟨m, hm, hn, hhere⟩
        injection hm with hm
        subst hm
        exact ⟨(), _, Reader.skip_of_le hn, hhere⟩

/-- Filler in which no label starts does not keep a packet from being read. -/
theorem reads_behind {e g : Bytes} {q : Packet} (h : Reader.Reads (read registry) e q)
    (hstart : labelStart <+: e) (hg : Silent g) : Reader.Reads (read registry) (g ++ e) q := by
  intro c t hc
  obtain ⟨more, rfl⟩ := hstart
  simp only [List.append_assoc] at hc
  have hrest : (c.advance g.length).rest = (labelStart ++ more) ++ t := by
    rw [Cursor.rest_advance_of_append hc, List.append_assoc]
  have hread := h _ t hrest
  rw [Cursor.advance_advance, ← List.length_append] at hread
  obtain ⟨n, hoffset, _, hhere⟩ := read_eq_ok.1 hread
  -- The packet stands on the start of a label, so there is nothing left to skip.
  have hzero : Bytes.offsetOf? labelStart (c.advance g.length).rest = some 0 := by
    rw [hrest, List.append_assoc]
    exact Bytes.offsetOf?_prefix (List.prefix_append labelStart _)
  rw [hoffset] at hzero
  injection hzero with hzero
  subst hzero
  refine read_eq_ok.2 ⟨g.length, ?_, by rw [hc]; simp, hhere⟩
  rw [hc]
  exact offsetOf?_silent hg

theorem readHere_consumes : (readHere registry).Consumes 17 := by
  rw [readHere]
  refine .get_bind fun start => UniversalKey.read_consumes.bind (k := 1) fun key => .require ?_
  refine .position_bind fun lengthStart => Ber.readLength_consumes.bind (k := 0) fun length => ?_
  refine .behind (fun _ => .remaining) fun left => .require (.position_bind fun stop => ?_)
  dsimp only
  split
  · exact .throw _
  · next closing checksum _ =>
      have hfield : Reader.Local
          ((codec registry key).readField (length.toNat - closing)) :=
        fun _ => Codec.readField_alike (codec_local registry key _ _)
      refine (Reader.Consumes.mapError hfield.consumes).bind (k := 0) fun value => ?_
      exact .behind (fun _ => .skip closing) fun _ => .pure _

/-- A packet takes a key and a length at least, and no more than there is. -/
theorem read_consumes : (read registry).Consumes 17 := by
  intro c p d h
  obtain ⟨m, _, hm, hhere⟩ := read_eq_ok.1 h
  obtain ⟨n, hn, hle, rfl⟩ := readHere_consumes _ p d hhere
  rw [Cursor.rest_advance, List.length_drop] at hle
  exact ⟨m + n, by omega, by omega, Cursor.advance_advance c m n⟩

/-! ## All of them -/

/-- How the reader of a stream goes on from a cursor, and what it ends on: it stops where no
label starts ahead, it fails with the packet that fails, and otherwise it goes on behind a
packet of seventeen bytes or more. -/
inductive Scans (registry : Registry) : Cursor → Except Error (List Packet) → Prop where
  | done {c : Cursor} (h : Bytes.offsetOf? labelStart c.rest = none) : Scans registry c (.ok [])
  | failed {c d : Cursor} {e : Error} (hahead : Bytes.offsetOf? labelStart c.rest ≠ none)
      (h : read registry c = .error e d) : Scans registry c (.error e)
  | packet {c : Cursor} {p : Packet} {n : Nat} {result : Except Error (List Packet)}
      (hahead : Bytes.offsetOf? labelStart c.rest ≠ none)
      (h : read registry c = .ok p (c.advance n)) (hmin : 17 ≤ n) (hmax : n ≤ c.rest.length)
      (hrest : Scans registry (c.advance n) result) :
      Scans registry c (result.map (p :: ·))

theorem readMany_step {fuel : Nat} {c : Cursor}
    (h : Bytes.offsetOf? labelStart c.rest ≠ none) :
    readMany registry (fuel + 1) c =
      (do
        let packet ← read registry
        let rest ← readMany registry fuel
        return packet :: rest : Reader (List Packet)) c := by
  rw [readMany, Reader.bind_of_ok (Reader.get_apply c), if_neg (by simpa using h)]

theorem readMany_end {fuel : Nat} {c : Cursor}
    (h : Bytes.offsetOf? labelStart c.rest = none) : readMany registry fuel c = .ok [] c := by
  cases fuel with
  | zero => rfl
  | succ fuel =>
      rw [readMany, Reader.bind_of_ok (Reader.get_apply c), if_pos (by rw [h]; rfl)]
      rfl

/-- The fuel is enough for the search to end by itself. -/
theorem readMany_scans {fuel : Nat} {c : Cursor} (hfuel : c.rest.length ≤ fuel) :
    Scans registry c
      (match readMany registry fuel c with
      | .ok packets _ => .ok packets
      | .error e _ => .error e) := by
  induction fuel generalizing c with
  | zero =>
      have hempty : c.rest = [] := List.eq_nil_of_length_eq_zero (by omega)
      exact .done (by rw [hempty]; rfl)
  | succ fuel ih =>
      by_cases hahead : Bytes.offsetOf? labelStart c.rest = none
      · rw [readMany_end hahead]
        exact .done hahead
      · rw [readMany_step hahead]
        cases hread : read registry c with
        | error e d =>
            rw [Reader.bind_of_error hread]
            exact .failed hahead hread
        | ok p d =>
            obtain ⟨n, hmin, hmax, rfl⟩ := read_consumes c p d hread
            have hmore := ih (c := c.advance n)
              (by rw [Cursor.rest_advance, List.length_drop]; omega)
            rw [Reader.bind_of_ok hread]
            have hscan := Scans.packet hahead hread hmin hmax hmore
            cases hrest : readMany registry fuel (c.advance n) with
            | error e d =>
                rw [hrest] at hscan
                rw [Reader.bind_of_error hrest]
                exact hscan
            | ok packets d =>
                rw [hrest] at hscan
                rw [Reader.bind_of_ok hrest]
                exact hscan

theorem Scans.length {c : Cursor} {result : Except Error (List Packet)}
    (h : Scans registry c result) {packets : List Packet} (hok : result = .ok packets) :
    17 * packets.length ≤ c.rest.length := by
  induction h generalizing packets with
  | done =>
      injection hok with hok
      rw [← hok]
      exact Nat.zero_le _
  | failed => cases hok
  | @packet c p n result _ _ hmin hmax _ ih =>
      match result, hok with
      | .ok rest, hok =>
          injection hok with hok
          have hrest := ih rfl
          rw [Cursor.rest_advance, List.length_drop] at hrest
          rw [← hok, List.length_cons]
          omega

/-- A packet on the wire, what it decodes to, and what stands between it and the next. -/
structure Sent where
  packet : Packet
  bytes : Bytes
  decoded : Packet
  filler : Bytes

/-- The packet has a valid key and decodes on its own, and no label starts in the filler. -/
structure Sent.Sound (registry : Registry) (s : Sent) : Prop where
  valid : s.packet.key.isValid
  encoded : s.packet.encode registry = .ok s.bytes
  decodes : decode registry s.bytes = .ok s.decoded
  silent : Silent s.filler

theorem readMany_sent {sent : List Sent} (hsent : ∀ s ∈ sent, s.Sound registry)
    (hsize : ∀ s ∈ sent, s.bytes.length < 2 ^ 64) {g : Bytes} (hg : Silent g) {fuel : Nat}
    {c : Cursor} (hc : c.rest = g ++ sent.flatMap fun s => s.bytes ++ s.filler)
    (hfuel : sent.length ≤ fuel) :
    ∃ d, readMany registry fuel c = .ok (sent.map (·.decoded)) d := by
  induction sent generalizing g fuel c with
  | nil =>
      rw [List.flatMap_nil, List.append_nil] at hc
      exact ⟨c, readMany_end (by rw [hc]; exact offsetOf?_of_silent hg)⟩
  | cons s sent ih =>
      have hs := hsent s (List.mem_cons_self ..)
      rw [List.length_cons] at hfuel
      obtain ⟨fuel, rfl⟩ : ∃ n, fuel = n + 1 := ⟨fuel - 1, by omega⟩
      have hstart := (labelStart_prefix_key hs.valid).trans (key_prefix_encoded hs.encoded)
      have hreads := reads_behind (reads_encoded hs.valid hs.encoded hs.decodes
        (hsize s (List.mem_cons_self ..))) hstart hg
      have hsplit : c.rest = (g ++ s.bytes) ++
          (s.filler ++ sent.flatMap fun s => s.bytes ++ s.filler) := by
        rw [hc, List.flatMap_cons]
        simp only [List.append_assoc]
      have hread := hreads c _ hsplit
      have hahead : Bytes.offsetOf? labelStart c.rest ≠ none := by
        obtain ⟨n, hn, _⟩ := read_eq_ok.1 hread
        rw [hn]
        exact Option.some_ne_none n
      obtain ⟨d, hrest⟩ := ih (fun s hs => hsent s (List.mem_cons_of_mem _ hs))
        (fun s hs => hsize s (List.mem_cons_of_mem _ hs)) hs.silent
        (c := c.advance (g ++ s.bytes).length)
        (Cursor.rest_advance_of_append hsplit) (show _ ≤ fuel by omega)
      rw [readMany_step hahead]
      exact ⟨d, (Reader.bind_of_ok hread).trans (Reader.bind_of_ok hrest)⟩

theorem Sent.Sound.length {s : Sent} (h : s.Sound registry) : 16 ≤ s.bytes.length := by
  have hle := (key_prefix_encoded h.encoded).length_le
  rwa [s.packet.key.length_eq] at hle

theorem length_sent {sent : List Sent} (hsent : ∀ s ∈ sent, s.Sound registry) :
    sent.length ≤ (sent.flatMap fun s => s.bytes ++ s.filler).length := by
  induction sent with
  | nil => exact Nat.le_refl _
  | cons s sent ih =>
      have hs := (hsent s (List.mem_cons_self ..)).length
      have hrest := ih fun s hs => hsent s (List.mem_cons_of_mem _ hs)
      rw [List.flatMap_cons, List.length_append, List.length_append, List.length_cons]
      omega

/-- Packets with valid keys that decode on their own are all found in a stream, in order and as
they decode, whatever their values hold and whatever filler without the start of a label is
between them. In any stream at all the search ends by itself, and every packet it finds takes
seventeen bytes or more. -/
theorem stream_framed {filler : Bytes} {sent : List Sent} (hfiller : Silent filler)
    (hsent : ∀ s ∈ sent, s.Sound registry)
    (hsize : (sent.flatMap fun s => s.bytes ++ s.filler).length < 2 ^ 64) :
    readAll registry (filler ++ sent.flatMap fun s => s.bytes ++ s.filler) =
        .ok (sent.map (·.decoded)) ∧
      ∀ data, Scans registry (Cursor.ofBytes data) (readAll registry data) ∧
        ∀ packets, readAll registry data = .ok packets → 17 * packets.length ≤ data.length := by
  refine ⟨?_, fun data => ?_⟩
  · have hsmall : ∀ s ∈ sent, s.bytes.length < 2 ^ 64 := by
      intro s hs
      obtain ⟨front, back, rfl⟩ := List.append_of_mem hs
      rw [List.flatMap_append, List.flatMap_cons] at hsize
      simp only [List.length_append] at hsize
      omega
    have hfuel := Nat.le_trans (length_sent hsent) (List.suffix_append filler _).length_le
    obtain ⟨d, hread⟩ := readMany_sent hsent hsmall hfiller (c := Cursor.ofBytes _) rfl hfuel
    exact Reader.onBytes_eq_ok.2 ⟨d, hread⟩
  · have hscans : Scans registry (Cursor.ofBytes data) (readAll registry data) := by
      have h : Scans registry (Cursor.ofBytes data)
          (match readMany registry data.length (Cursor.ofBytes data) with
          | .ok packets _ => .ok packets
          | .error e _ => .error e) := readMany_scans (Nat.le_refl _)
      rw [readAll, Reader.onBytes]
      cases hrun : readMany registry data.length (Cursor.ofBytes data) <;> rw [hrun] at h <;>
        exact h
    exact ⟨hscans, fun packets hok => hscans.length hok⟩

/-- A packet under a key that no table knows, which holds the start of a label. -/
def embedding : Packet :=
  ⟨UniversalKey.ofWords 0x060E2B3401010101 0x0F00000000000000, .blob labelStart, .absent⟩

/-- Two packets, the second with a label starting in its value. Behind the first stands the
beginning of a start, and behind the second the end of one. -/
def twoSent : List Sent :=
  [⟨versionOnly, versionOnlyBytes,
      ⟨PacketKey.datalink, .localSet [⟨65, .uint 19, some 1⟩], .valid⟩, [0x06, 0x0E, 0x2B]⟩,
    ⟨embedding, embedding.key.bytes ++ [0x04, 0x06, 0x0E, 0x2B, 0x34], embedding,
      [0x2B, 0x34]⟩]

/-- Both packets are found, and nothing else. -/
theorem twoSent_found :
    Silent [0x06] ∧ (∀ s ∈ twoSent, s.Sound Registry.published) ∧
      readAll Registry.published
          ([0x06] ++ twoSent.flatMap fun s => s.bytes ++ s.filler) =
        .ok [⟨PacketKey.datalink, .localSet [⟨65, .uint 19, some 1⟩], .valid⟩, embedding] := by
  have hfiller : Silent [0x06] := by
    rw [Silent, labelStart]
    decide
  have hsent : ∀ s ∈ twoSent, s.Sound Registry.published := by
    simp only [twoSent, List.forall_mem_cons]
    refine ⟨⟨by decide, rfl, rfl, ?_⟩, ⟨by decide, rfl, rfl, ?_⟩, by simp⟩ <;>
      rw [Silent, labelStart] <;> decide
  exact ⟨hfiller, hsent, (stream_framed hfiller hsent (by decide)).1⟩

end Packet

end MotionMetadata
