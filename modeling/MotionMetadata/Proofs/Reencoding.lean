import MotionMetadata.Proofs.ArrayPacks
import MotionMetadata.Proofs.Framing
import MotionMetadata.Proofs.Nesting

/-!
# Packets that can be encoded again

A packet that was decoded can be encoded, as far as every part of it can. What the parts ask
for is said part by part, `Placed.Sound`, and it is little: most formats write whatever they
read. Sets ask for an order, some packs ask not to be empty, and numbers that went through the
arithmetic of doubles ask to find back to an integer of their width.

Without these conditions the statement fails, and by design: two packs of a set may both
describe an entry as far as the reader is concerned, but there is no order in which each of
them stands right behind it.
-/

namespace MotionMetadata

/-- What it takes for a value that was read in a format to be written in it, the width it is
written in being `width` if that is remembered. -/
def PlainFormat.Sound (f : PlainFormat) (v : Value) (width : Option Nat) : Prop :=
  match f with
  | float c => width = none → ∀ x, v.asFloat? = some x → c.fixedLength = none →
      Floating.Fits x (c.suggestedOr 8)
  | imap low high c => ∀ n, (Codec.imap low high c).hintedLength v width = .ok n →
      n ≤ 8 ∧ Imap.Rescales low high n v
  | linear signed low high c => ∀ x, v.asFloat? = some x →
      Linear.Rescales signed low high (c.fixedOr 8) x
  | grid element => ∀ g, Grid.ofValue v = .ok g → g.Rewritable element
  | rowArray a => ∀ g, Grid.ofValue v = .ok g → a.Rewritable g
  | correlation _ => ∀ c, Correlation.ofValue v = .ok c → c.Rewritable
  | position p => p.Rewritable v
  | rangeSection => RangeSection.Rewritable v
  | _ => True

theorem PlainFormat.passes (f : PlainFormat) : f.codec.Passes f.Sound := by
  cases f with
  | blob c => exact Codec.blob_passes c
  | uint c => exact Codec.uint_passes c
  | sint c => exact Codec.sint_passes c
  | berOid => exact Codec.berOid_passes
  | enumeration name c names => exact Codec.enumeration_passes name c names
  | bool => exact Codec.bool_passes
  | float c => exact Codec.float_passes c
  | imap low high c => exact Codec.imap_passes low high c
  | linear signed low high c => exact Codec.linear_passes signed low high c
  | text encoding characters c => exact Codec.text_passes encoding characters c
  | grid element => exact Codec.grid_passes element
  | rowArray a => exact Codec.rowArray_passes a
  | correlation preceding => exact Codec.correlation_passes preceding
  | position p => exact Codec.position_passes p
  | identity => exact Codec.identity_passes
  | metricPeriod => exact Codec.metricPeriod_passes
  | windowCorners => exact Codec.windowCorners_passes
  | metricImplementer => exact Codec.metricImplementer_passes
  | rangeEnumerations => exact Codec.rangeEnumerations_passes
  | rangeSection => exact Codec.rangeSection_passes
  | userData => exact Codec.userData_passes
  | detectorIndex => exact Codec.detectorIndex_passes

/-! ## The parts of a packet -/

/-- A value in its place: the format it was read in, and the width that is remembered of it. -/
structure Placed where
  format : Format
  value : Value
  width : Option Nat

/-- One value is inside another, or is it. -/
inductive Inside (registry : Registry) : Placed → Placed → Prop where
  | here (part : Placed) : Inside registry part part
  | item {element : Format} {items : List Value} {width : Option Nat} {item : Value}
      {part : Placed} (hitem : item ∈ items) (h : Inside registry ⟨element, item, none⟩ part) :
      Inside registry ⟨.series element, .series items, width⟩ part
  | localEntry {standard : Standard} {trailer : Option Checksum.Trailer} {set : FieldSet Tag}
      {width : Option Nat} {e : Entry Tag Value} {part : Placed} (he : e ∈ set)
      (h : Inside registry
        ⟨(SetKey.entry (registry.table standard) e.key).format, e.value, e.width⟩ part) :
      Inside registry ⟨.localSet standard trailer, .localSet set, width⟩ part
  | universalEntry {standard : Standard} {set : FieldSet UniversalKey} {width : Option Nat}
      {e : Entry UniversalKey Value} {part : Placed} (he : e ∈ set)
      (h : Inside registry
        ⟨(SetKey.entry (registry.table standard) e.key).format, e.value, e.width⟩ part) :
      Inside registry ⟨.universalSet standard, .universalSet set, width⟩ part
  | content {pack : IdPack} {v content : Value} {width : Option Nat} {part : Placed}
      (hcontent : v.field? "set" = some content)
      (h : Inside registry ⟨.localSet pack.standard none, content, none⟩ part) :
      Inside registry ⟨.idPack pack, v, width⟩ part

/-- Nothing is inside a value without parts but the value itself. -/
theorem Inside.eq_of_plain {registry : Registry} {f : PlainFormat} {v : Value}
    {width : Option Nat} {part : Placed} (h : Inside registry ⟨.plain f, v, width⟩ part) :
    part = ⟨.plain f, v, width⟩ := by
  cases h
  rfl

namespace Placed

/-- What a part asks for, those inside it left aside. Bytes that were kept ask for nothing. -/
def Sound (registry : Registry) (part : Placed) : Prop :=
  match part.format with
  | .plain f => part.value.isDecoded → f.Sound part.value part.width
  | .localSet standard _ => ∀ set, part.value.asLocalSet? = some set →
      FieldSet.Orderly (registry.table standard) set
  | .universalSet standard => ∀ set, part.value.asUniversalSet? = some set →
      FieldSet.Orderly (registry.table standard) set
  | _ => True

/-- What a part and those inside it ask for. -/
def AllSound (registry : Registry) (part : Placed) : Prop :=
  ∀ inner, Inside registry part inner → inner.Sound registry

end Placed

namespace Format

variable {registry : Registry} {inner : Option (Format → Codec)}

/-- Soundness at a format, as the codecs of a level ask for it. -/
abbrev SoundAt (registry : Registry) (f : Format) (v : Value) (width : Option Nat) : Prop :=
  Placed.AllSound registry ⟨f, v, width⟩

theorem layer_passes (hinner : ∀ codecs, inner = some codecs → Carries codecs (SoundAt registry))
    (f : Format) : (layer registry inner f).Passes (SoundAt registry f) := by
  have hfield : ∀ codecs, inner = some codecs → ∀ f n, ((codecs f).readField n).Yields fun v =>
      SoundAt registry f v none → (codecs f).Forwards v none := fun codecs hcodecs f n =>
    (((hinner codecs hcodecs).passes f).readField n).imp fun _ h => h none (.inl rfl)
  cases f with
  | plain p => exact p.passes.ofDecoded.imp fun v width h => h _ (.here _)
  | series element =>
      refine (Codec.series_passes _ (fun v => SoundAt registry element v none) ?_).imp
        fun v width h => ?_
      · intro codec hcodec
        obtain ⟨codecs, hcodecs, rfl⟩ := Option.map_eq_some_iff.1 hcodec
        exact hfield codecs hcodecs element
      · rintro items hitems item hitem part hpart
        cases v <;> cases hitems
        exact h part (.item hitem hpart)
  | localSet standard trailer =>
      refine (Codec.localSet_passes _ _ hinner).imp fun v width h set hset => ?_
      cases v <;> cases hset
      exact ⟨fun e he part hpart => h part (.localEntry he hpart), h _ (.here _) _ rfl⟩
  | universalSet standard =>
      refine (Codec.universalSet_passes _ _ hinner).imp fun v width h set hset => ?_
      cases v <;> cases hset
      exact ⟨fun e he part hpart => h part (.universalEntry he hpart), h _ (.here _) _ rfl⟩
  | idPack pack =>
      refine (Codec.idPack_passes _
        (fun v => SoundAt registry (localSet pack.standard none) v none) _ ?_).imp
        fun v width h content hcontent part hpart => h part (.content hcontent hpart)
      intro codec hcodec
      obtain ⟨codecs, hcodecs, rfl⟩ := Option.map_eq_some_iff.1 hcodec
      exact hfield codecs hcodecs _

/-- A pack describes entries that it follows, and nothing else describes any. -/
theorem layer_describes (f : Format) (tags : List Tag) (n : Nat) :
    ((layer registry inner (f.after tags)).readField n).Yields fun v =>
      ∀ tag ∈ (f.described v).getD [], tag ∈ tags := by
  cases f with
  | plain p =>
      cases p with
      | correlation preceding =>
          refine Codec.readField_yields nofun (fun _ => nofun) fun _ _ => ?_
          refine (Correlation.read_yields tags).bind fun c hc => .pure ?_
          show ∀ tag ∈ ((Correlation.membersOf c.toValue).toOption).getD [], tag ∈ tags
          rw [Correlation.membersOf_toValue]
          exact hc.2
      | _ => exact (Reader.Yields.any _).imp fun _ _ => nofun
  | _ => exact (Reader.Yields.any _).imp fun _ _ => nofun

theorem soundAt_after (f : Format) (tags : List Tag) (v : Value) (width : Option Nat)
    (h : SoundAt registry f v width) : SoundAt registry (f.after tags) v width := by
  cases f with
  | plain p =>
      cases p with
      | correlation preceding =>
          intro part hpart
          obtain rfl := hpart.eq_of_plain
          have hself := h _ (.here _)
          exact hself
      | _ => exact h
  | _ => exact h

theorem layer_carries (hinner : ∀ codecs, inner = some codecs → Carries codecs (SoundAt registry)) :
    Carries (layer registry inner) (SoundAt registry) where
  passes := layer_passes hinner
  describes := layer_describes
  sound := soundAt_after
  length f tags v width := by
    cases f with
    | plain p => cases p <;> rfl
    | _ => rfl
  content f tags v n := by
    cases f with
    | plain p => cases p <;> rfl
    | _ => rfl

/-- The codecs of every level pass what is sound in all its parts. -/
theorem codec_carries (registry : Registry) (levels : Nat) :
    Carries (codec registry levels) (SoundAt registry) :=
  codec_of_layer (fun _ => layer_carries) levels

end Format

/-! ## Packets -/

namespace Checksum

/-- A checksum fits the bytes that it takes. -/
theorem Algorithm.evaluate_lt (algorithm : Algorithm) (data : Bytes) :
    (algorithm.evaluate data).toNat < 256 ^ algorithm.width := by
  cases algorithm with
  | runningSum => exact (Checksum.runningSum data 0 false).toNat_lt
  | crc16 => exact (Checksum.crc16 data 0xFFFF).toNat_lt
  | crc32 => exact (Checksum.crc32 data 0xFFFFFFFF).toNat_lt

theorem Trailer.write_writes (trailer : Trailer) (body : Bytes) :
    (trailer.write body).Writes trailer.length :=
  (Encoder.Writes.emit trailer.header).bind
    (Integer.writeUnsigned_writes (Packet.algorithm_width _) (Algorithm.evaluate_lt _ _))

end Checksum

namespace Packet

variable {registry : Registry}

theorem readHere_yields (registry : Registry) :
    (readHere registry).Yields fun p =>
      Placed.AllSound registry ⟨formatOf registry p.key, p.value, none⟩ →
        (codec registry p.key).Forwards p.value none := by
  rw [readHere]
  refine .after fun start => .after fun key => .require fun _ => ?_
  refine .after fun lengthStart => .after fun length => .after fun left => .require fun _ => ?_
  refine .after fun stop => ?_
  dsimp only
  split
  · exact .throw _
  · next closing checksum _ =>
      have hfield := ((Format.codec_carries registry maxDepth).passes
        (formatOf registry key)).readField (length.toNat - closing)
      refine (Reader.Yields.mapError hfield).bind fun value hvalue => .after fun _ => .pure ?_
      exact hvalue none (.inl rfl)

/-- A packet is written if its value is, for its checksum has room. -/
theorem write_writes {p : Packet} (h : (codec registry p.key).Forwards p.value none) :
    ∃ n, (p.write registry).Writes n := by
  obtain ⟨n, hlength, hwrites⟩ := h
  have hkey : p.key.write.Writes 16 := by
    have h := Encoder.Writes.emit p.key.bytes
    rw [p.key.length_eq] at h
    exact h
  have hbody := hkey.bind ((Ber.writeLength_writes
    (n + trailerLength (formatOf registry p.key))).bind (Codec.writeField_writes hwrites))
  refine ⟨_, .mapError (.ofExcept hlength (hbody.captured
    (n := trailerLength (formatOf registry p.key)) fun body => ?_))⟩
  rw [trailerLength, formatOf]
  cases (entry registry p.key).format.trailer with
  | none => exact .pure
  | some trailer => exact trailer.write_writes body

/-- A packet that was decoded can be encoded again, if every part of it asks for no more than
it has. -/
theorem encode_decoded {b : Bytes} {p : Packet} (hdecode : decode registry b = .ok p)
    (hsound : ∀ part, Inside registry ⟨formatOf registry p.key, p.value, none⟩ part →
      part.Sound registry) : ∃ e, encode registry p = .ok e := by
  have hread : (read registry).Yields fun p =>
      Placed.AllSound registry ⟨formatOf registry p.key, p.value, none⟩ →
        (codec registry p.key).Forwards p.value none := by
    refine .restoring (.after fun c => ?_)
    split
    · exact .raiseAt _ _
    · exact .after fun _ => readHere_yields registry
  obtain ⟨n, hwrites⟩ := write_writes (hread.onBytes hdecode hsound)
  obtain ⟨e, he, _⟩ := hwrites.bytes
  exact ⟨e, he⟩

/-- The published registry, but for the first factor of a transformation: here it is a series of
numbers, singles unless they were asked for otherwise. -/
def seriesRegistry : Registry where
  table
    | .transformation =>
        { Table.transformation with
          known := Table.transformation.known.map fun entry =>
            if entry.tag = 1 then { entry with format := .series (.plain (.float singles)) }
            else entry }
    | standard => standard.table
  packets := Table.packets
where
  singles : LengthConstraint := { LengthConstraint.between 4 8 with preferred := some 4 }

/-- A series of one number, and a pack that says so little of it as to leave out even its
deviation. -/
def describedEntries : FieldSet Tag :=
  [⟨1, .series [.float 0.5], some 9⟩, ⟨9, (Correlation.plain [1] [] [] 0 0).toValue, some 2⟩]

def described : Packet where
  key := PacketKey.transformation
  value := .localSet describedEntries

def describedBytes : Bytes :=
  PacketKey.transformation.bytes ++
    [0x0F, 0x01, 0x09, 0x08, 0x3F, 0xE0, 0, 0, 0, 0, 0, 0, 0x09, 0x02, 0x01, 0x00]

theorem describedEntries_orderly :
    FieldSet.Orderly (seriesRegistry.table .transformation) describedEntries := by
  have hheld : FieldSet.held (seriesRegistry.table .transformation) describedEntries = [1] := rfl
  refine ⟨by simp [hheld], ⟨fun tag htag => ?_, ?_⟩⟩
  · rw [hheld, List.mem_singleton] at htag
    subst htag
    exact Nat.le_refl 1
  · rw [hheld]
    exact List.forall_mem_cons.2 ⟨fun _ => rfl, List.forall_mem_singleton.2 (by decide)⟩

/-- The number was read from eight bytes and finds room in the four of its format. -/
theorem describedEntries_sound : ∀ e ∈ describedEntries, ∀ part, Inside seriesRegistry
    ⟨((seriesRegistry.table .transformation).byTag e.key).format, e.value, e.width⟩ part →
      part.Sound seriesRegistry := by
  have hnumber : Floating.Fits 0.5 4 := .inr ⟨rfl, fun _ => rfl⟩
  refine List.forall_mem_cons.2 ⟨fun part hpart => ?_,
    List.forall_mem_singleton.2 fun part hpart => ?_⟩
  · cases hpart with
    | here => exact trivial
    | item hitem hnested =>
        rw [hnested.eq_of_plain, List.mem_singleton.1 hitem]
        intro _ _ x hx _
        injection hx with hx
        exact hx ▸ hnumber
  · rw [hpart.eq_of_plain]
    intro _ c hc
    injection hc with hc
    subst hc
    exact ⟨List.cons_ne_nil _ _, fun _ hpos => absurd hpos (Nat.lt_irrefl 0)⟩

/-- The pack finds the series again, and the packet is encoded. -/
theorem described_encoded :
    decode seriesRegistry describedBytes = .ok described ∧
      (∀ part, Inside seriesRegistry
        ⟨formatOf seriesRegistry described.key, described.value, none⟩ part →
          part.Sound seriesRegistry) ∧
      ∃ e, encode seriesRegistry described = .ok e := by
  have hdecode : decode seriesRegistry describedBytes = .ok described := rfl
  have hsound : ∀ part, Inside seriesRegistry
      ⟨formatOf seriesRegistry described.key, described.value, none⟩ part →
        part.Sound seriesRegistry := by
    have hformat : formatOf seriesRegistry described.key = .localSet .transformation none := rfl
    rw [hformat]
    intro part hpart
    cases hpart with
    | here =>
        intro set hset
        injection hset with hset
        exact hset ▸ describedEntries_orderly
    | localEntry he hentry => exact describedEntries_sound _ he part hentry
  exact ⟨hdecode, hsound, encode_decoded hdecode hsound⟩

/-- A factor that is left empty, a pack that describes it, and a second one that describes the
factor and the first pack. -/
def describedTwice : Packet where
  key := PacketKey.transformation
  value := .localSet
    [⟨1, .empty, some 0⟩, ⟨9, (Correlation.plain [1] [] [] 0 0).toValue, some 2⟩,
      ⟨9, (Correlation.plain [1, 9] [] [] 0 0).toValue, some 2⟩]

def describedTwiceBytes : Bytes :=
  PacketKey.transformation.bytes ++
    [0x0A, 0x01, 0x00, 0x09, 0x02, 0x01, 0x00, 0x09, 0x02, 0x02, 0x00]

/-- Not every packet that is decoded can be encoded: here no order has both packs right behind
the factor. -/
theorem describedTwice_not_encoded :
    ¬ ∀ (registry : Registry) (b : Bytes) (p : Packet), decode registry b = .ok p →
      ∃ e, encode registry p = .ok e := by
  intro h
  have hdecode : decode Registry.published describedTwiceBytes = .ok describedTwice := rfl
  obtain ⟨e, he⟩ := h Registry.published describedTwiceBytes describedTwice hdecode
  have hencode : ∃ error, encode Registry.published describedTwice = .error error := ⟨_, rfl⟩
  obtain ⟨error, herror⟩ := hencode
  rw [herror] at he
  cases he

end Packet

end MotionMetadata
