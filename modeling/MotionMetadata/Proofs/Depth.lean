import MotionMetadata.Proofs.Refusals

/-!
# How deep reading goes

A field with parts is read by reading its parts one level further in. The number of levels is
the only thing that bounds this: the reads a field begins are a tree that its bytes may make as
deep as they like, and where a branch of it would need one level more than there are, reading
is refused. So a read is refused exactly if some chain of reads uses up the levels and ends on
a field that has parts again. What comes out otherwise lies within the levels, and is not
refused when it is measured and written with as many.
-/

namespace MotionMetadata

open Reader

/-! ## Reads -/

/-- A field to be read: its format, where its bytes start and how many they are. -/
structure FieldAt where
  format : Format
  start : Cursor
  length : Nat

/-- Formats whose fields are read by reading fields one level further in. -/
def Format.HasParts : Format → Prop
  | .plain _ => False
  | _ => True

/-- Reading the first field, with the codecs `inner` one level further in, begins to read the
second. -/
inductive Begins (registry : Registry) (inner : Format → Codec) : FieldAt → FieldAt → Prop where
  | item {element : Format} {start c d : Cursor} {length n : Nat}
      (hreach : Reaches (fun _ : Unit => Series.readItem (inner element)) (fun _ _ => ())
        () (start.field length) () c)
      (hitem : Series.ItemAt c n d) :
      Begins registry inner ⟨.series element, start, length⟩ ⟨element, d, n⟩
  | localEntry {standard : Standard} {trailer : Option Checksum.Trailer} {start c d : Cursor}
      {length n : Nat} {earlier : List Tag} {key : Tag}
      (hreach : Reaches (FieldSet.readEntry (κ := Tag) (registry.table standard) inner)
        (FieldSet.behind (registry.table standard)) [] (start.field length) earlier c)
      (hentry : FieldSet.EntryAt c key n d) :
      Begins registry inner ⟨.localSet standard trailer, start, length⟩
        ⟨(SetKey.entry (registry.table standard) key).format.after earlier.reverse, d, n⟩
  | universalEntry {standard : Standard} {start c d : Cursor} {length n : Nat}
      {earlier : List Tag} {key : UniversalKey}
      (hreach : Reaches (FieldSet.readEntry (κ := UniversalKey) (registry.table standard) inner)
        (FieldSet.behind (registry.table standard)) [] (start.field length) earlier c)
      (hentry : FieldSet.EntryAt c key n d) :
      Begins registry inner ⟨.universalSet standard, start, length⟩
        ⟨(SetKey.entry (registry.table standard) key).format.after earlier.reverse, d, n⟩
  | content {pack : IdPack} {start d : Cursor} {length : Nat} {id : UInt64}
      (hid : Ber.readTag (start.field length) = .ok id d) :
      Begins registry inner ⟨.idPack pack, start, length⟩
        ⟨.localSet pack.standard none, d, d.rest.length⟩

/-- From the first field, read with `levels` levels, so many reads one inside another lead to
the second. -/
inductive Descends (registry : Registry) : (levels : Nat) → FieldAt → Nat → FieldAt → Prop where
  | here (levels : Nat) (p : FieldAt) : Descends registry levels p 0 p
  | inward {levels k : Nat} {inner : Format → Codec} {p q r : FieldAt}
      (hinner : Format.inward registry levels = some inner) (hbegins : Begins registry inner p q)
      (hrest : Descends registry (levels - 1) q k r) : Descends registry levels p (k + 1) r

variable {registry : Registry} {levels k : Nat} {p q : FieldAt}

/-- No chain of reads is longer than the levels there are. -/
theorem Descends.le (h : Descends registry levels p k q) : k ≤ levels := by
  induction h with
  | here levels p => exact Nat.zero_le levels
  | @inward levels k inner p q r hinner hbegins hrest ih =>
      cases levels with
      | zero => cases hinner
      | succ levels => exact Nat.succ_le_succ ih

/-- The bytes of a part are there. -/
theorem Begins.fits {inner : Format → Codec} (h : Begins registry inner p q) :
    q.length ≤ q.start.rest.length := by
  cases h with
  | item _ hitem => exact hitem.le
  | localEntry _ hentry => exact hentry.le
  | universalEntry _ hentry => exact hentry.le
  | content _ => exact Nat.le_refl _

/-! ## What is refused -/

namespace Format

variable {inner : Format → Codec}

/-- Where no level is left, parts are refused. -/
theorem layer_none_tooDeep (f : Format) {c : Cursor} {n : Nat} (hfits : n ≤ c.rest.length) :
    ((layer registry none f).readField n).TooDeep c ↔ f.HasParts ∧ 0 < n := by
  have hnested : ∀ codec : Codec, codec.constraint = .free →
      (∀ d, (codec.read n).TooDeep d) → ((codec.readField n).TooDeep c ↔ True ∧ 0 < n) := by
    intro codec hfree hdeep
    rw [Codec.readField_tooDeep hfits hfree, true_and]
    exact and_iff_left (hdeep _)
  cases f with
  | plain f =>
      exact iff_of_false (Codec.readField_shallow (f.read_shallow n)).not_tooDeep fun h => h.1
  | series element => exact hnested _ rfl fun d => ⟨_, d, rfl, rfl⟩
  | localSet standard trailer => exact hnested _ rfl fun d => ⟨_, d, rfl, rfl⟩
  | universalSet standard => exact hnested _ rfl fun d => ⟨_, d, rfl, rfl⟩
  | idPack pack => exact hnested _ rfl fun d => ⟨_, d, rfl, rfl⟩

/-- A series is refused if the field of one of its items is. -/
theorem series_tooDeep {description : String} {element : Codec} {n : Nat} {c : Cursor}
    (hfits : n ≤ c.rest.length) :
    ((Codec.series description (some element)).readField n).TooDeep c ↔
      ∃ d, Reaches (fun _ : Unit => Series.readItem element) (fun _ _ => ())
          () (c.field n) () d ∧
        ∃ m e, Series.ItemAt d m e ∧ (element.readField m).TooDeep e := by
  have hlength : (c.field n).rest.length = n := List.length_take_of_le hfits
  have hpart : ∀ (_ : Unit) d, (Series.readItem element).TooDeep d → 0 < d.rest.length := by
    intro _ d h
    obtain ⟨m, e, hitem, _⟩ := Series.readItem_tooDeep.1 h
    exact hitem.pos
  rw [Codec.readField_tooDeep_iff hfits rfl fun ⟨_, _, he, _⟩ => nomatch he]
  show (inField n (Series.readItems element n) >>= fun items => pure (Value.series items) :
    Reader Value).TooDeep (c.field n) ↔ _
  rw [tooDeep_first fun _ => .pure _, tooDeep_inField hlength.ge, Cursor.field_field,
    Series.readItems_readsRow.tooDeep_iff (s := ()) hpart hlength.le]
  simp only [Series.readItem_tooDeep]
  exact ⟨fun ⟨_, d, h⟩ => ⟨d, h⟩, fun ⟨d, h⟩ => ⟨(), d, h⟩⟩

/-- A set is refused if the field of one of its entries is. -/
theorem set_tooDeep {κ : Type} [SetKey κ] [FieldSet.LocalKey κ] [FieldSet.SteadyKey κ]
    {table : Table} {wrap : FieldSet κ → Value} {codec : Codec} {n : Nat} {c : Cursor}
    (hfree : codec.constraint = .free)
    (hread : ∀ n, codec.read n = FieldSet.read table (some inner) n >>= fun set => pure (wrap set))
    (hfits : n ≤ c.rest.length) :
    (codec.readField n).TooDeep c ↔
      ∃ earlier d, Reaches (FieldSet.readEntry (κ := κ) table inner) (FieldSet.behind table) []
          (c.field n) earlier d ∧ ∃ key m e, FieldSet.EntryAt (κ := κ) d key m e ∧
          ((inner ((SetKey.entry table key).format.after earlier.reverse)).readField m).TooDeep
            e := by
  have hlength : (c.field n).rest.length = n := List.length_take_of_le hfits
  have hpart : ∀ earlier d,
      (FieldSet.readEntry (κ := κ) table inner earlier).TooDeep d → 0 < d.rest.length := by
    intro earlier d h
    obtain ⟨key, m, e, hentry, _⟩ := FieldSet.readEntry_tooDeep.1 h
    exact hentry.pos
  rw [Codec.readField_tooDeep_iff hfits hfree
    (by rw [hread 0]; exact fun ⟨_, _, he, _⟩ => nomatch he), hread, tooDeep_first fun _ => .pure _]
  show (inField n (FieldSet.readEntries table inner n [])).TooDeep (c.field n) ↔ _
  rw [tooDeep_inField hlength.ge, Cursor.field_field,
    FieldSet.readEntries_readsRow.tooDeep_iff hpart hlength.le]
  simp only [FieldSet.readEntry_tooDeep]

/-- A pack is refused if its set is. -/
theorem idPack_tooDeep {description : String} {set shown : Codec} {n : Nat} {c : Cursor}
    (hfits : n ≤ c.rest.length) :
    ((Codec.idPack description (some set) shown).readField n).TooDeep c ↔
      ∃ id d, Ber.readTag (c.field n) = .ok id d ∧ (set.readField d.rest.length).TooDeep d := by
  have hread : ∀ d, (IdPack.read set).TooDeep d ↔
      ∃ id e, Ber.readTag d = .ok id e ∧ (set.readField e.rest.length).TooDeep e := by
    intro d
    rw [IdPack.read, tooDeep_then Ber.readTag_shallow]
    refine exists₂_congr fun id e => and_congr_right fun _ => ?_
    rw [tooDeep_then .remaining]
    constructor
    · rintro ⟨left, _, hleft, h⟩
      injection hleft with hleft he
      subst hleft he
      exact (tooDeep_first fun _ => .pure _).1 h
    · exact fun h => ⟨_, e, rfl, (tooDeep_first fun _ => .pure _).2 h⟩
  refine (Codec.readField_tooDeep_iff hfits rfl fun hempty => ?_).trans (hread _)
  obtain ⟨id, d, hid, hdeep⟩ := (hread _).1 hempty
  obtain ⟨_, width, _, _, rfl⟩ := Ber.readTag_eq_ok.1 hid
  have hnone : ((c.field 0).advance width).rest.length = 0 := by simp
  exact not_tooDeep_pure (hnone ▸ hdeep)

/-- Where a level is left, what has parts is refused if one of the parts is. -/
theorem layer_some_tooDeep (hfits : p.length ≤ p.start.rest.length) :
    ((layer registry (some inner) p.format).readField p.length).TooDeep p.start ↔
      ∃ q, Begins registry inner p q ∧ ((inner q.format).readField q.length).TooDeep q.start := by
  obtain ⟨f, c, n⟩ := p
  cases f with
  | plain f =>
      refine iff_of_false (Codec.readField_shallow (f.read_shallow n)).not_tooDeep ?_
      rintro ⟨q, hbegins, _⟩
      cases hbegins
  | series element =>
      refine (series_tooDeep hfits).trans ⟨?_, ?_⟩
      · rintro ⟨d, hreach, m, e, hitem, hdeep⟩
        exact ⟨_, .item hreach hitem, hdeep⟩
      · rintro ⟨_, @⟨_, _, d, e, _, m, hreach, hitem⟩, hdeep⟩
        exact ⟨d, hreach, m, e, hitem, hdeep⟩
  | localSet standard trailer =>
      refine (set_tooDeep rfl (fun _ => rfl) hfits).trans ⟨?_, ?_⟩
      · rintro ⟨earlier, d, hreach, key, m, e, hentry, hdeep⟩
        exact ⟨_, .localEntry hreach hentry, hdeep⟩
      · rintro ⟨_, hbegins, hdeep⟩
        cases hbegins with
        | localEntry hreach hentry => exact ⟨_, _, hreach, _, _, _, hentry, hdeep⟩
  | universalSet standard =>
      refine (set_tooDeep rfl (fun _ => rfl) hfits).trans ⟨?_, ?_⟩
      · rintro ⟨earlier, d, hreach, key, m, e, hentry, hdeep⟩
        exact ⟨_, .universalEntry hreach hentry, hdeep⟩
      · rintro ⟨_, hbegins, hdeep⟩
        cases hbegins with
        | universalEntry hreach hentry => exact ⟨_, _, hreach, _, _, _, hentry, hdeep⟩
  | idPack pack =>
      refine (idPack_tooDeep hfits).trans ⟨?_, ?_⟩
      · rintro ⟨id, d, hid, hdeep⟩
        exact ⟨_, .content hid, hdeep⟩
      · rintro ⟨_, hbegins, hdeep⟩
        cases hbegins with
        | content hid => exact ⟨_, _, hid, hdeep⟩

/-- A read is refused if some chain uses up the levels and ends on a field with parts. -/
theorem codec_tooDeep (hfits : p.length ≤ p.start.rest.length) :
    ((codec registry levels p.format).readField p.length).TooDeep p.start ↔
      ∃ q, Descends registry levels p levels q ∧ q.format.HasParts ∧ 0 < q.length := by
  induction levels generalizing p with
  | zero =>
      rw [codec, layer_none_tooDeep p.format hfits]
      constructor
      · exact fun h => ⟨p, .here 0 p, h⟩
      · rintro ⟨q, hchain, h⟩
        cases hchain
        exact h
  | succ levels ih =>
      rw [codec, layer_some_tooDeep hfits]
      constructor
      · rintro ⟨q, hbegins, hdeep⟩
        obtain ⟨r, hchain, hr⟩ := (ih hbegins.fits).1 hdeep
        exact ⟨r, .inward rfl hbegins hchain, hr⟩
      · rintro ⟨r, hchain, hr⟩
        cases hchain with
        | @inward _ _ inner _ q _ hinner hbegins hrest =>
            injection hinner with hinner
            subst hinner
            exact ⟨q, hbegins, (ih hbegins.fits).2 ⟨r, hrest, hr⟩⟩

end Format

/-! ## What comes out -/

namespace FieldSet

variable {κ : Type} [SetKey κ] {table : Table} {Sound : Format → Value → Option Nat → Prop}

theorem readEntry_yields_accepted {inner : Format → Codec} (hcarries : Carries inner Sound)
    (h : ∀ f n, ((inner f).readField n).Yields ((inner f).Accepts False)) (earlier : List Tag) :
    (readEntry (κ := κ) table inner earlier).Yields (EntryAccepted False table inner) := by
  rw [readEntry]
  refine .after fun key => .after fun start => .after fun length => .after fun left => ?_
  dsimp only
  refine .require fun _ => ?_
  exact (Yields.mapError (h _ length.toNat)).bind fun v hv =>
    .pure ((entryAccepted_iff hcarries earlier.reverse).1 hv)

theorem read_yields_accepted [LocalKey κ] {inner : Option (Format → Codec)}
    (hcarries : ∀ codecs, inner = some codecs → Carries codecs Sound)
    (h : ∀ codecs, inner = some codecs → ∀ f n,
      ((codecs f).readField n).Yields ((codecs f).Accepts False)) (n : Nat) :
    (read (κ := κ) table inner n).Yields fun set =>
      ∃ codecs, inner = some codecs ∧ ∀ e ∈ set, EntryAccepted False table codecs e := by
  refine .descend fun codecs hcodecs => ?_
  subst hcodecs
  refine (Yields.inField (readEntries_readsRow.yields (fun earlier => ?_) n) n).imp
    fun set hset => ⟨codecs, rfl, hset⟩
  exact readEntry_yields_accepted (hcarries codecs rfl) (h codecs rfl) earlier

end FieldSet

namespace Format

variable {inner : Option (Format → Codec)}

/-- A set that was read is written by the codecs that have read its entries. -/
theorem set_yields {κ : Type} [SetKey κ] [FieldSet.LocalKey κ] [FieldSet.SteadyKey κ]
    {table : Table} {wrap : FieldSet κ → Value} {held : Value → Option (FieldSet κ)}
    {codec : Codec} {name : String}
    (hcarries : ∀ codecs, inner = some codecs → Carries codecs (SoundAt registry))
    (h : ∀ codecs, inner = some codecs → ∀ f n,
      ((codecs f).readField n).Yields ((codecs f).Accepts False))
    (hread : ∀ n, codec.read n = FieldSet.read table inner n >>= fun set => pure (wrap set))
    (hwrite : ∀ value length, codec.write value length =
      (Encoder.ofExcept (value.expect name (held value)) >>= FieldSet.write table inner))
    (hnatural : ∀ value, codec.naturalLength value =
      (value.expect name (held value) >>= FieldSet.encodedLength table inner))
    (hheld : ∀ set, held (wrap set) = some set) (n : Nat) :
    (codec.read n).Yields (codec.Accepts False) := by
  rw [hread]
  refine (FieldSet.read_yields_accepted hcarries h n).bind fun set hset => .pure ?_
  obtain ⟨codecs, rfl, hentries⟩ := hset
  refine (Codec.set_steady (held (wrap set)) (hwrite _) (hnatural _) nofun
    fun set' hset' codecs' hcodecs' => ?_).accepts
  rw [hheld] at hset'
  cases hset'
  cases hcodecs'
  exact hentries

/-- What was read is not refused when it is measured and written. -/
theorem layer_yields
    (hcarries : ∀ codecs, inner = some codecs → Carries codecs (SoundAt registry))
    (h : ∀ codecs, inner = some codecs → ∀ f n,
      ((codecs f).readField n).Yields ((codecs f).Accepts False)) (f : Format) (n : Nat) :
    ((layer registry inner f).readField n).Yields ((layer registry inner f).Accepts False) := by
  refine Codec.readField_yields (Codec.accepts_of_kept rfl)
    (fun _ => Codec.accepts_of_kept rfl) fun _ _ => ?_
  cases f with
  | plain p => exact (Yields.any _).imp fun v _ => (p.steady v).accepts
  | series element =>
      refine .descend fun codec hcodec => ?_
      obtain ⟨codecs, rfl, rfl⟩ := Option.map_eq_some_iff.1 hcodec
      refine (Yields.inField (Series.readItems_yields (h codecs rfl element) n) n).bind
        fun items hitems => .pure (Codec.Steady.accepts ?_)
      refine Codec.series_steady nofun fun items' hitems' codec' hcodec' item hitem => ?_
      injection hitems' with hitems'
      injection hcodec' with hcodec'
      exact hcodec' ▸ hitems item (hitems' ▸ hitem)
  | localSet standard trailer =>
      exact set_yields hcarries h (fun _ => rfl) (fun _ _ => rfl) (fun _ => rfl) (fun _ => rfl) n
  | universalSet standard =>
      exact set_yields hcarries h (fun _ => rfl) (fun _ _ => rfl) (fun _ => rfl) (fun _ => rfl) n
  | idPack pack =>
      refine .descend fun codec hcodec => ?_
      obtain ⟨codecs, rfl, rfl⟩ := Option.map_eq_some_iff.1 hcodec
      refine .after fun id => .after fun left => (h codecs rfl _ left).bind fun content hcontent =>
        .pure (Codec.Steady.accepts ?_)
      refine Codec.idPack_steady _ nofun fun content' hcontent' codec' hcodec' => ?_
      injection hcontent' with hcontent'
      injection hcodec' with hcodec'
      exact hcontent' ▸ hcodec' ▸ hcontent

/-- The same at any level. -/
theorem codec_yields (registry : Registry) (levels : Nat) (f : Format) (n : Nat) :
    ((codec registry levels f).readField n).Yields ((codec registry levels f).Accepts False) := by
  have h : Carries (codec registry levels) (SoundAt registry) ∧ ∀ f n,
      ((codec registry levels f).readField n).Yields ((codec registry levels f).Accepts False) := by
    refine codec_of_layer (P := fun codecs => Carries codecs (SoundAt registry) ∧ ∀ f n,
      ((codecs f).readField n).Yields ((codecs f).Accepts False)) (fun inner hinner => ?_) levels
    have hcarries := fun codecs hcodecs => (hinner codecs hcodecs).1
    exact ⟨layer_carries hcarries,
      layer_yields hcarries fun codecs hcodecs => (hinner codecs hcodecs).2⟩
  exact h.2 f n

/-- Bytes that are there are read at every depth up to the limit, as a field of any format:
what comes out is a value or the error for nesting too deep, and either way the cursor is behind
the field. No chain of reads, one inside another, goes further than the limit, and the error
comes out exactly if a chain gets there and ends on a field that has parts again. A value that
was read is neither measured nor written with that error at the depth it was read at. -/
theorem read_bounded (registry : Registry) (f : Format) {depth n : Nat} {c : Cursor}
    (hdepth : depth ≤ maxDepth) (hfits : n ≤ c.rest.length) :
    let levels := maxDepth - depth
    let codec := f.codec registry levels
    ((∃ v, codec.readField n c = .ok v (c.advance n)) ∨
      ∃ e, codec.readField n c = .error e (c.advance n) ∧ e.kind = .depth) ∧
    (∀ k q, Descends registry levels ⟨f, c, n⟩ k q → depth + k ≤ maxDepth) ∧
    ((codec.readField n).TooDeep c ↔
      ∃ q, Descends registry levels ⟨f, c, n⟩ levels q ∧ q.format.HasParts ∧ 0 < q.length) ∧
    ∀ v d, codec.readField n c = .ok v d →
      (∀ e, codec.fieldLength v = .error e → e.kind ≠ .depth) ∧
      (∀ hint e, codec.hintedLength v hint = .error e → e.kind ≠ .depth) ∧
      ∀ length position e, codec.writeField v length position = .error e → e.kind ≠ .depth := by
  intro levels codec
  refine ⟨?_, fun k q hchain => ?_, codec_tooDeep (p := ⟨f, c, n⟩) hfits, fun v d hread => ?_⟩
  · rcases Nat.eq_zero_or_pos n with rfl | hpos
    · exact .inl ⟨.empty, rfl⟩
    · rw [Codec.readField_of_le hpos hfits]
      cases hcontent : codec.content n (c.field n) with
      | ok v => exact .inl ⟨v, rfl⟩
      | error e => exact .inr ⟨e, rfl, Codec.content_error hcontent⟩
  · have hle := hchain.le
    omega
  · have haccepts := codec_yields registry levels f n c v d hread
    exact ⟨haccepts.fieldLength, fun hint => haccepts.length hint,
      fun length position e => (haccepts.writeField length).shallow e⟩

/-- The bytes of a set whose one entry is a set. -/
def setInSet : Bytes := [0x30, 0x03, 0x01, 0x01, 0x01]

/-- One level is enough for the outer set only, so a chain of one read ends on the inner one. -/
theorem setInSet_refused :
    (31 ≤ maxDepth ∧ 5 ≤ (Cursor.ofBytes setInSet).rest.length) ∧
    (((localSet .datalink none).codec .published 1).readField 5).TooDeep (.ofBytes setInSet) ∧
    ∃ q, Descends .published 1 ⟨localSet .datalink none, .ofBytes setInSet, 5⟩ 1 q ∧
      q.format.HasParts ∧ 0 < q.length := by
  have hdeep : (((localSet .datalink none).codec .published 1).readField 5).TooDeep
      (.ofBytes setInSet) := ⟨_, _, rfl, rfl⟩
  exact ⟨⟨by decide, by decide⟩, hdeep,
    (read_bounded .published (localSet .datalink none) (show 31 ≤ maxDepth by decide)
      (by decide)).2.2.1.1 hdeep⟩

end Format

end MotionMetadata
