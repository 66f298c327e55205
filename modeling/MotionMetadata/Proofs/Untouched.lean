import MotionMetadata.Proofs.Framing
import MotionMetadata.Proofs.Restoring
import MotionMetadata.Proofs.WriteOrder

/-!
# Untouched packets come back

The lift from fields of one kind to whole packets. A set is taken apart into keys, lengths
and contents, and put together again from them, so its bytes have to be a `Row`: keys and
lengths that have a byte to spare are read like the shortest ones and would be written like
them. How the contents are spelled matters only where they are taken apart as well, and so
`Format.Canonical` follows the levels that the codecs count down.

Sets, series and packs each have their induction over a row. What carries all of them is
that a part comes back in the width it had, because the set remembers it, or because it is
of a kind that tells its own length.
-/

namespace MotionMetadata

/-- Parts one after another: each a key as `IsSpelling` has it, the shortest spelling of a
length, and a content of that length. -/
inductive Row {κ : Type} (IsSpelling : κ → Bytes → Prop) (P : κ → Bytes → Prop) :
    Bytes → Prop where
  | nil : Row IsSpelling P []
  | cons {key : κ} {spelling length content rest : Bytes} (hkey : IsSpelling key spelling)
      (hlength : Ber.IsLength content.length length) (hcontent : P key content)
      (hrest : Row IsSpelling P rest) :
      Row IsSpelling P (spelling ++ (length ++ (content ++ rest)))

theorem Row.imp {κ : Type} {IsSpelling : κ → Bytes → Prop} {P Q : κ → Bytes → Prop}
    {data : Bytes} (hPQ : ∀ key content, P key content → Q key content)
    (h : Row IsSpelling P data) : Row IsSpelling Q data := by
  induction h with
  | nil => exact .nil
  | cons hkey hlength hcontent _ ih => exact .cons hkey hlength (hPQ _ _ hcontent) ih

theorem Ber.IsLength.toNat {n : Nat} {data : Bytes} (h : Ber.IsLength n data) :
    (UInt64.ofNat n).toNat = n := by
  rw [UInt64.toNat_ofNat']
  exact Nat.mod_eq_of_lt h.lt

theorem Ber.IsLength.reads {n : Nat} {data : Bytes} (h : Ber.IsLength n data) :
    Reader.Reads Ber.readLength data (UInt64.ofNat n) := by
  rw [h.eq_lengthBytes]
  exact Ber.reads_lengthBytes _

theorem Ber.IsLength.ne_nil {n : Nat} {data : Bytes} (h : Ber.IsLength n data) : data ≠ [] := by
  cases h <;> simp

theorem Ber.IsLength.widthOfLength {n : Nat} {data : Bytes} (h : Ber.IsLength n data) :
    Ber.widthOfLength n = data.length := by
  rw [h.eq_lengthBytes, Ber.length_lengthBytes, Ber.widthOfLength]

theorem Ber.IsTag.reads {v : UInt64} {data : Bytes} (h : Ber.IsTag v data) :
    Reader.Reads Ber.readTag data v := by
  obtain ⟨⟨value, hscan, rfl⟩, _⟩ := h
  intro c t hc
  refine Ber.readTag_eq_ok.2 ⟨value, data.length, ?_, rfl, rfl⟩
  rw [hc]
  exact Ber.scanTag_append hscan t

namespace FieldSet

variable {κ : Type} [SetKey κ]

/-- Keys with a spelling in which they are read and written. -/
class SpelledKey (κ : Type) [SetKey κ] extends LocalKey κ where
  IsSpelling : κ → Bytes → Prop
  reads {key : κ} {data : Bytes} : IsSpelling key data → Reader.Reads SetKey.read data key
  writes {key : κ} {data : Bytes} : IsSpelling key data →
    ∀ position, SetKey.write key position = .ok ((), data)
  width_eq {key : κ} {data : Bytes} : IsSpelling key data → SetKey.width key = data.length

/-- Of the spellings of a tag the one without a byte to spare. -/
instance : SpelledKey Tag where
  IsSpelling := Ber.IsTag
  reads h := h.reads
  writes h position := Ber.writeTag_eq_ok.2 ⟨h.eq_tagBytes.2, h.eq_tagBytes.1⟩
  width_eq h := by
    rw [h.eq_tagBytes.1, Ber.length_tagBytes]
    rfl

/-- A universal key has one spelling. -/
instance : SpelledKey UniversalKey where
  IsSpelling key data := data = key.bytes
  reads h := h ▸ Packet.reads_key _
  writes h _ := h ▸ rfl
  width_eq {key _} h := h ▸ key.length_eq.symm

/-- Entries that describe no others stay where they are. -/
theorem writeOrder_of_plain {table : Table} {set : FieldSet κ}
    (h : ∀ e ∈ set, describedBy table e = []) : writeOrder table set = .ok set := by
  have hheld : set.flatMap (describedBy table) = [] := List.flatMap_eq_nil_iff.2 h
  rw [writeOrder, hheld]
  dsimp only
  have hfree : set.filter (fun e => !([] : List Tag).contains (SetKey.tag table e.key)) = set :=
    List.filter_eq_self.2 fun _ _ => rfl
  rw [hfree]
  refine except_bind_eq_ok.2 ⟨set.map fun e => [e], except_mapM_eq_ok.2 ?_, ?_⟩
  · rw [List.forall₂_map_right_iff, List.forall₂_same]
    intro e he
    rw [h e he]
    rfl
  · show Except.ok (set.map fun e => [e]).flatten = _
    rw [← List.flatMap_def, List.flatMap_singleton']

variable {table : Table} {inner : Format → Codec}

theorem readEntries_end {fuel : Nat} {earlier : List Tag} {c : Cursor} (hc : c.rest = []) :
    readEntries (κ := κ) table inner fuel earlier c = .ok [] c := by
  cases fuel with
  | zero => rfl
  | succ fuel =>
      rw [readEntries, Reader.bind_of_ok (Reader.atEnd_apply c), hc]
      rfl

theorem readEntries_step {fuel : Nat} {earlier : List Tag} {c : Cursor} (hc : c.rest ≠ []) :
    readEntries table inner (fuel + 1) earlier c =
      (do
        let entry ← readEntry (κ := κ) table inner earlier
        let rest ← readEntries table inner fuel (SetKey.tag table entry.key :: earlier)
        return entry :: rest : Reader (FieldSet κ)) c := by
  have hmore : c.rest.isEmpty = false := List.isEmpty_eq_false_iff.2 hc
  rw [readEntries, Reader.bind_of_ok (Reader.atEnd_apply c), hmore]
  rfl

theorem readEntries_of_nil {fuel : Nat} {earlier : List Tag} {c d : Cursor} {set : FieldSet κ}
    (hc : c.rest = []) (h : readEntries table inner fuel earlier c = .ok set d) : set = [] := by
  rw [readEntries_end hc] at h
  injection h with h _
  exact h.symm

theorem readEntries_of_ne_nil {fuel : Nat} {earlier : List Tag} {c d : Cursor}
    {set : FieldSet κ} (hc : c.rest ≠ [])
    (h : readEntries table inner (fuel + 1) earlier c = .ok set d) :
    ∃ e rest between, readEntry table inner earlier c = .ok e between ∧
      readEntries table inner fuel (SetKey.tag table e.key :: earlier) between = .ok rest d ∧
        set = e :: rest := by
  rw [readEntries_step hc] at h
  obtain ⟨e, between, hentry, hentries⟩ := Reader.bind_eq_ok.1 h
  obtain ⟨rest, after, hrest, hpure⟩ := Reader.bind_eq_ok.1 hentries
  injection hpure with hset hd
  exact ⟨e, rest, between, hentry, hd ▸ hrest, hset.symm⟩

variable [SpelledKey κ]

/-- What a row is good for: a content under a key is of a format that stands on its own, and
comes back as it was. -/
structure Returns (table : Table) (inner : Format → Codec) (key : κ) (content : Bytes) :
    Prop where
  after : ∀ tags, (SetKey.entry table key).format.after tags = (SetKey.entry table key).format
  describes : ∀ v, (SetKey.entry table key).format.described v = none
  restores : ∀ v, (inner (SetKey.entry table key).format).onField content = .ok v →
    (inner (SetKey.entry table key).format).Restores v content

theorem readEntry_row (hlocal : ∀ f n, Reader.Local ((inner f).read n)) {earlier : List Tag}
    {key : κ} {spelling length content t : Bytes} {c d : Cursor} {e : Entry κ Value}
    (hkey : SpelledKey.IsSpelling key spelling) (hlength : Ber.IsLength content.length length)
    (hreturns : Returns table inner key content)
    (hc : c.rest = spelling ++ (length ++ (content ++ t)))
    (h : readEntry table inner earlier c = .ok e d) :
    ∃ v, e = ⟨key, v, some content.length⟩ ∧ d.rest = t ∧
      (inner (SetKey.entry table key).format).Restores v content := by
  have hreadKey := Reader.mapError_eq_ok (f := (·.within table.name)).2
    (SpelledKey.reads hkey c _ hc)
  have hrestKey : (c.advance spelling.length).rest = length ++ (content ++ t) := by
    rw [Cursor.rest_advance, hc, List.drop_left]
  have hreadLength := Reader.mapError_eq_ok (f := (·.within table.name)).2
    (hlength.reads _ _ hrestKey)
  have hrestLength : ((c.advance spelling.length).advance length.length).rest = content ++ t := by
    rw [Cursor.rest_advance, hrestKey, List.drop_left]
  have hleft : content.length ≤
      ((c.advance spelling.length).advance length.length).rest.length := by
    rw [hrestLength, List.length_append]
    omega
  rw [readEntry, Reader.bind_of_ok hreadKey, Reader.bind_of_ok (Reader.position_apply _),
    Reader.bind_of_ok hreadLength, Reader.bind_of_ok (Reader.remaining_apply _)] at h
  dsimp only at h
  rw [hlength.toNat, if_pos hleft, hreturns.after] at h
  obtain ⟨v, d', hfield, hpure⟩ := Reader.bind_eq_ok.1 h
  injection hpure with he hd
  obtain ⟨hvalue, hrest⟩ := Codec.onField_of_readField (hlocal (SetKey.entry table key).format)
    hrestLength (Reader.mapError_eq_ok.1 hfield)
  exact ⟨v, he.symm, hd ▸ hrest, hreturns.restores v hvalue⟩

/-- One entry written as it was read. -/
theorem writeEntry_row {earlier : List Tag} {key : κ} {spelling length content : Bytes}
    {v : Value} (hkey : SpelledKey.IsSpelling key spelling)
    (hlength : Ber.IsLength content.length length) (hreturns : Returns table inner key content)
    (hv : (inner (SetKey.entry table key).format).Restores v content) (position : Nat) :
    writeEntry table inner earlier ⟨key, v, some content.length⟩ position =
      .ok ((), spelling ++ (length ++ content)) := by
  rw [writeEntry]
  refine Encoder.mapError_eq_ok.2 ?_
  rw [hreturns.after]
  refine Encoder.ofExcept_bind_eq_ok.2 ⟨content.length, hv.hinted, ?_⟩
  have hber : Ber.writeLength content.length (position + spelling.length) =
      .ok ((), length) := by
    rw [Ber.writeLength, ← hlength.eq_lengthBytes]
    rfl
  exact Encoder.bind_of_ok (SpelledKey.writes hkey position)
    (Encoder.bind_of_ok hber (hv.written _))

/-- The entries of a set whose bytes are a row take those bytes and no others. -/
theorem readEntries_row (hlocal : ∀ f n, Reader.Local ((inner f).read n)) {data : Bytes}
    (hrow : Row (SpelledKey.IsSpelling (κ := κ)) (Returns table inner) data) {fuel : Nat}
    {earlier : List Tag} {c d : Cursor} {set : FieldSet κ} (hc : c.rest = data)
    (hfuel : data.length ≤ fuel) (h : readEntries table inner fuel earlier c = .ok set d) :
    (∀ e ∈ set, describedBy table e = []) ∧ entriesLength table inner set = .ok data.length ∧
      ∀ earlier position,
        writeEntries table inner earlier set position = .ok ((), data) := by
  induction hrow generalizing fuel earlier c d set with
  | nil =>
      rw [readEntries_of_nil hc h]
      exact ⟨by simp, rfl, fun _ _ => rfl⟩
  | @cons key spelling length content rest hkey hlength hreturns _ ih =>
      rw [List.length_append, List.length_append, List.length_append] at hfuel
      have hpos : 0 < length.length := List.length_pos_iff.2 hlength.ne_nil
      obtain ⟨fuel, rfl⟩ : ∃ n, fuel = n + 1 := ⟨fuel - 1, by omega⟩
      have hne : c.rest ≠ [] := by
        rw [hc]
        simp [hlength.ne_nil]
      obtain ⟨e, more, d', hentry, hmore, rfl⟩ := readEntries_of_ne_nil hne h
      obtain ⟨v, rfl, hrest, hv⟩ := readEntry_row hlocal hkey hlength hreturns hc hentry
      obtain ⟨hplain, hlengths, hwrites⟩ := ih hrest (by omega) hmore
      refine ⟨?_, ?_, fun earlier position => ?_⟩
      · intro e he
        rcases List.mem_cons.1 he with rfl | he
        · rw [describedBy, hreturns.describes]
          rfl
        · exact hplain e he
      · rw [entriesLength]
        refine except_bind_eq_ok.2 ⟨content.length, hv.hinted, ?_⟩
        refine except_bind_eq_ok.2 ⟨rest.length, hlengths, ?_⟩
        rw [SpelledKey.width_eq hkey, hlength.widthOfLength]
        simp only [List.length_append, ← Nat.add_assoc]
        rfl
      · have hone : writeEntry table inner earlier ⟨key, v, some content.length⟩ position =
            .ok ((), spelling ++ (length ++ content)) :=
          writeEntry_row hkey hlength hreturns hv position
        have hbytes : spelling ++ (length ++ (content ++ rest)) =
            (spelling ++ (length ++ content)) ++ rest := by
          simp only [List.append_assoc]
        rw [hbytes]
        exact Encoder.bind_of_ok hone (hwrites (SetKey.tag table key :: earlier) _)

/-- A set whose bytes are a row. -/
theorem read_row (hlocal : ∀ f n, Reader.Local ((inner f).read n)) {data : Bytes}
    (hrow : Row (SpelledKey.IsSpelling (κ := κ)) (Returns table inner) data) {d : Cursor}
    {set : FieldSet κ}
    (h : read table (some inner) data.length (Cursor.ofBytes data) = .ok set d) :
    encodedLength table (some inner) set = .ok data.length ∧
      ∀ position, write table (some inner) set position = .ok ((), data) := by
  have hread : Reader.inField data.length (readEntries table inner data.length [])
      (Cursor.ofBytes data) = .ok set d := h
  obtain ⟨_, _, d', hentries⟩ := Reader.inField_eq_ok.1 hread
  have hrest : ((Cursor.ofBytes data).field data.length).rest = data := by
    rw [Cursor.rest_field, Cursor.rest_ofBytes, List.take_length]
  obtain ⟨hplain, hlengths, hwrites⟩ := readEntries_row hlocal hrow hrest (Nat.le_refl _) hentries
  have horder := writeOrder_of_plain hplain
  refine ⟨?_, fun position => write_eq_ok.2 ⟨set, horder, hwrites [] position⟩⟩
  rw [encodedLength]
  show (do let _ ← writeOrder table set; entriesLength table inner set) = _
  rw [horder]
  exact hlengths

end FieldSet

namespace Series

variable {element : Codec}

/-- A content that comes back as an element of a series, which remembers no width. -/
structure ReturnsAlone (element : Codec) (content : Bytes) : Prop where
  restores : ∀ v, element.onField content = .ok v →
    element.Restores v content ∧ element.fieldLength v = .ok content.length

/-- An element of a series has no key. -/
def NoKey (_ : Unit) (spelling : Bytes) : Prop := spelling = []

theorem readItem_row (hlocal : ∀ n, Reader.Local (element.read n)) {length content t : Bytes}
    {c d : Cursor} {v : Value} (hlength : Ber.IsLength content.length length)
    (hc : c.rest = length ++ (content ++ t)) (h : readItem element c = .ok v d) :
    d.rest = t ∧ element.onField content = .ok v := by
  have hrestLength : (c.advance length.length).rest = content ++ t := by
    rw [Cursor.rest_advance, hc, List.drop_left]
  have hleft : content.length ≤ (c.advance length.length).rest.length := by
    rw [hrestLength, List.length_append]
    omega
  rw [readItem, Reader.bind_of_ok (Reader.position_apply _),
    Reader.bind_of_ok (hlength.reads _ _ hc), Reader.bind_of_ok (Reader.remaining_apply _)] at h
  rw [hlength.toNat, if_pos hleft] at h
  have hfield : element.readField content.length (c.advance length.length) = .ok v d := h
  exact (Codec.onField_of_readField hlocal hrestLength hfield).symm

theorem readItems_end {fuel : Nat} {c : Cursor} (hc : c.rest = []) :
    readItems element fuel c = .ok [] c := by
  cases fuel with
  | zero => rfl
  | succ fuel =>
      rw [readItems, Reader.bind_of_ok (Reader.atEnd_apply c), hc]
      rfl

theorem readItems_step {fuel : Nat} {c : Cursor} (hc : c.rest ≠ []) :
    readItems element (fuel + 1) c =
      (do
        let item ← readItem element
        let rest ← readItems element fuel
        return item :: rest : Reader (List Value)) c := by
  have hmore : c.rest.isEmpty = false := List.isEmpty_eq_false_iff.2 hc
  rw [readItems, Reader.bind_of_ok (Reader.atEnd_apply c), hmore]
  rfl

theorem readItems_of_nil {fuel : Nat} {c d : Cursor} {items : List Value} (hc : c.rest = [])
    (h : readItems element fuel c = .ok items d) : items = [] := by
  rw [readItems_end hc] at h
  injection h with h _
  exact h.symm

theorem readItems_of_ne_nil {fuel : Nat} {c d : Cursor} {items : List Value} (hc : c.rest ≠ [])
    (h : readItems element (fuel + 1) c = .ok items d) :
    ∃ item rest between, readItem element c = .ok item between ∧
      readItems element fuel between = .ok rest d ∧ items = item :: rest := by
  rw [readItems_step hc] at h
  obtain ⟨item, between, hitem, hitems⟩ := Reader.bind_eq_ok.1 h
  obtain ⟨rest, after, hrest, hpure⟩ := Reader.bind_eq_ok.1 hitems
  injection hpure with hset hd
  exact ⟨item, rest, between, hitem, hd ▸ hrest, hset.symm⟩

/-- The elements of a series whose bytes are a row take those bytes and no others. -/
theorem readItems_row (hlocal : ∀ n, Reader.Local (element.read n)) {data : Bytes}
    (hrow : Row NoKey (fun _ content => ReturnsAlone element content) data) {fuel : Nat}
    {c d : Cursor} {items : List Value} (hc : c.rest = data) (hfuel : data.length ≤ fuel)
    (h : readItems element fuel c = .ok items d) :
    itemsLength element items = .ok data.length ∧
      ∀ position, Encoder.each (writeItem element) items position = .ok ((), data) := by
  induction hrow generalizing fuel c d items with
  | nil =>
      rw [readItems_of_nil hc h]
      exact ⟨rfl, fun _ => rfl⟩
  | @cons key spelling length content rest hkey hlength hreturns _ ih =>
      rw [NoKey] at hkey
      subst hkey
      rw [List.nil_append] at hc hfuel ⊢
      rw [List.length_append, List.length_append] at hfuel
      have hpos : 0 < length.length := List.length_pos_iff.2 hlength.ne_nil
      obtain ⟨fuel, rfl⟩ : ∃ n, fuel = n + 1 := ⟨fuel - 1, by omega⟩
      have hne : c.rest ≠ [] := by
        rw [hc]
        simp [hlength.ne_nil]
      obtain ⟨v, more, d', hitem, hmore, rfl⟩ := readItems_of_ne_nil hne h
      obtain ⟨hrest, honField⟩ := readItem_row hlocal hlength hc hitem
      obtain ⟨hv, hvlength⟩ := hreturns.restores v honField
      obtain ⟨hlengths, hwrites⟩ := ih hrest (by omega) hmore
      refine ⟨?_, fun position => ?_⟩
      · rw [itemsLength]
        refine except_bind_eq_ok.2 ⟨content.length, hvlength, ?_⟩
        refine except_bind_eq_ok.2 ⟨rest.length, hlengths, ?_⟩
        rw [hlength.widthOfLength]
        simp only [List.length_append, ← Nat.add_assoc]
        rfl
      · have hber : Ber.writeLength content.length position = .ok ((), length) := by
          rw [Ber.writeLength, ← hlength.eq_lengthBytes]
          rfl
        have hone : writeItem element v position = .ok ((), length ++ content) :=
          Encoder.ofExcept_bind_eq_ok.2
            ⟨content.length, hvlength, Encoder.bind_of_ok hber (hv.written _)⟩
        rw [← List.append_assoc]
        exact Encoder.bind_of_ok hone (hwrites _)

end Series

namespace IdPack

variable {set : Codec}

theorem read_isDecoded {c d : Cursor} {v : Value} (h : read set c = .ok v d) : v.isDecoded := by
  obtain ⟨id, d, _, hrest⟩ := Reader.bind_eq_ok.1 h
  obtain ⟨left, d', _, hrest⟩ := Reader.bind_eq_ok.1 hrest
  obtain ⟨content, d'', _, hpure⟩ := Reader.bind_eq_ok.1 hrest
  injection hpure with hv _
  rw [← hv]
  rfl

/-- A pack is its number in the shortest spelling and its set. -/
theorem read_parts (hlocal : ∀ n, Reader.Local (set.read n)) {id : UInt64}
    {spelling content : Bytes} {c d : Cursor} {v : Value} (hid : Ber.IsTag id spelling)
    (hcontent : ∀ v, set.onField content = .ok v →
      set.Restores v content ∧ set.fieldLength v = .ok content.length)
    (hc : c.rest = spelling ++ content) (h : read set c = .ok v d) :
    encodedLength set v = .ok (spelling ++ content).length ∧
      ∀ position, write set v position = .ok ((), spelling ++ content) := by
  have hrest : (c.advance spelling.length).rest = content ++ [] := by
    rw [Cursor.rest_advance, hc, List.drop_left, List.append_nil]
  rw [read, Reader.bind_of_ok (hid.reads c _ hc),
    Reader.bind_of_ok (Reader.remaining_apply _), hrest, List.append_nil] at h
  obtain ⟨field, d', hfield, hpure⟩ := Reader.bind_eq_ok.1 h
  injection hpure with hv _
  subst hv
  obtain ⟨hrestores, hlength⟩ :=
    hcontent field (Codec.onField_of_readField hlocal hrest hfield).1
  obtain ⟨hbytes, hsmall⟩ := hid.eq_tagBytes
  refine ⟨?_, fun position => ?_⟩
  · have hset : encodedLength set (.record [("id", .uint id), ("set", field)]) =
        (do return Ber.tagWidth id + (← set.fieldLength field)) := rfl
    rw [hset, hlength, List.length_append, hbytes, Ber.length_tagBytes]
    rfl
  · refine Encoder.ofExcept_bind_eq_ok.2 ⟨id, rfl, ?_⟩
    refine Encoder.bind_of_ok (Ber.writeTag_eq_ok.2 ⟨hsmall, hbytes⟩) ?_
    refine Encoder.ofExcept_bind_eq_ok.2 ⟨field, rfl, ?_⟩
    exact Encoder.ofExcept_bind_eq_ok.2 ⟨content.length, hlength, hrestores.written _⟩

end IdPack

namespace Codec

variable {codec element set : Codec} {description : String} {v : Value} {data : Bytes}

/-- What a codec of any length has read comes back if its natural length is that of the bytes,
and they are what it writes. -/
theorem restores_of_free (hv : v.isDecoded) (hfree : codec.constraint = .free)
    (hlength : codec.naturalLength v = .ok data.length)
    (hwrite : ∀ position, codec.write v data.length position = .ok ((), data)) :
    codec.Restores v data ∧ codec.fieldLength v = .ok data.length := by
  have hfield : codec.fieldLength v = .ok data.length := by
    rw [fieldLength_of_isDecoded hv, hfree]
    exact hlength
  exact ⟨⟨hintedLength_of_fieldLength hfield, written_of_write hv hwrite⟩, hfield⟩

/-- A series comes back if its bytes are a row. -/
theorem series_restores (hlocal : ∀ n, Reader.Local (element.read n))
    (h : (series description (some element)).onField data = .ok v)
    (hrow : v.isDecoded →
      Row Series.NoKey (fun _ content => Series.ReturnsAlone element content) data) :
    (series description (some element)).Restores v data ∧
      (series description (some element)).fieldLength v = .ok data.length := by
  refine (restores_of_read (Q := True) h fun after _ hread => ?_).imp_right (· trivial)
  obtain ⟨items, d, hfield, hpure⟩ := Reader.bind_eq_ok.1
    (show (Reader.inField data.length (Series.readItems element data.length) >>= fun items =>
      pure (Value.series items)) _ = _ from hread)
  injection hpure with hv _
  subst hv
  obtain ⟨_, _, d', hitems⟩ := Reader.inField_eq_ok.1 hfield
  have hrest : ((Cursor.ofBytes data).field data.length).rest = data := by
    rw [Cursor.rest_field, Cursor.rest_ofBytes, List.take_length]
  obtain ⟨hlength, hwrite⟩ :=
    Series.readItems_row hlocal (hrow rfl) hrest (Nat.le_refl _) hitems
  refine (restores_of_free rfl rfl hlength fun position => ?_).imp_right fun hlength _ => hlength
  exact (Encoder.bind_of_silent (Encoder.pure_apply _)).trans
    (Encoder.ofExcept_bind_eq_ok.2 ⟨items, rfl, hwrite position⟩)

/-- A set comes back if its bytes are a row, whichever keys it has and however it is wrapped
as a value. -/
theorem set_restores {κ : Type} [SetKey κ] [FieldSet.SpelledKey κ] {table : Table}
    {inner : Format → Codec} (wrap : FieldSet κ → Value)
    (hwrap : ∀ set, (wrap set).isDecoded) (hfree : codec.constraint = .free)
    (hread : ∀ n, codec.read n = (do return wrap (← FieldSet.read table (some inner) n)))
    (hlength : ∀ set, codec.naturalLength (wrap set) =
      FieldSet.encodedLength table (some inner) set)
    (hwrite : ∀ set n position bytes,
      FieldSet.write table (some inner) set position = .ok ((), bytes) →
        codec.write (wrap set) n position = .ok ((), bytes))
    (hlocal : ∀ f n, Reader.Local ((inner f).read n)) (h : codec.onField data = .ok v)
    (hrow : v.isDecoded →
      Row (FieldSet.SpelledKey.IsSpelling (κ := κ)) (FieldSet.Returns table inner) data) :
    codec.Restores v data ∧ codec.fieldLength v = .ok data.length := by
  refine (restores_of_read (Q := True) h fun after _ hv => ?_).imp_right (· trivial)
  rw [hread] at hv
  obtain ⟨set, d, hset, hpure⟩ := Reader.bind_eq_ok.1 hv
  injection hpure with hv _
  subst hv
  obtain ⟨hsetLength, hsetWrite⟩ := FieldSet.read_row hlocal (hrow (hwrap set)) hset
  refine (restores_of_free (hwrap set) hfree ?_ fun position => ?_).imp_right
    fun hlength _ => hlength
  · rw [hlength]
    exact hsetLength
  · exact hwrite _ _ _ _ (hsetWrite position)

/-- A pack comes back if it is a number in the shortest spelling and a set that comes back. -/
theorem idPack_restores {shown : Codec} (hlocal : ∀ n, Reader.Local (set.read n))
    (h : (idPack description (some set) shown).onField data = .ok v)
    (hparts : v.isDecoded → ∃ id spelling content, data = spelling ++ content ∧
      Ber.IsTag id spelling ∧ ∀ v, set.onField content = .ok v →
        set.Restores v content ∧ set.fieldLength v = .ok content.length) :
    (idPack description (some set) shown).Restores v data ∧
      (idPack description (some set) shown).fieldLength v = .ok data.length := by
  refine (restores_of_read (Q := True) h fun after _ hread => ?_).imp_right (· trivial)
  have hpack : IdPack.read set (Cursor.ofBytes data) = .ok v after := hread
  have hv := IdPack.read_isDecoded hpack
  obtain ⟨id, spelling, content, rfl, hid, hcontent⟩ := hparts hv
  obtain ⟨hlength, hwrite⟩ :=
    IdPack.read_parts hlocal hid hcontent (Cursor.rest_ofBytes _) hpack
  refine (restores_of_free hv rfl hlength fun position => ?_).imp_right fun hlength _ => hlength
  exact (Encoder.bind_of_silent (Encoder.pure_apply _)).trans (hwrite position)

end Codec

/-! ## Formats -/

/-- Formats whose fields come back: bytes, integers, their names and text. -/
def PlainFormat.Kept : PlainFormat → Prop
  | blob _ => True
  | uint _ => True
  | sint _ => True
  | enumeration .. => True
  | text .. => True
  | _ => False

namespace Format

/-- Formats with other formats inside, series apart. -/
def Nests : Format → Prop
  | localSet .. => True
  | universalSet _ => True
  | idPack _ => True
  | _ => False

/-- Formats whose fields come back if what is inside them does. -/
def Kept : Format → Prop
  | plain p => p.Kept
  | series element => element.Nests
  | _ => True

/-- Formats whose values tell the length they were read from. An integer does so only if
there is just one. -/
def TellsLength : Format → Prop
  | plain (.uint c) => c.fixedLength.isSome
  | plain (.sint c) => c.fixedLength.isSome
  | plain (.enumeration _ c _) => c.fixedLength.isSome
  | _ => True

/-- The bytes of a field of the format are spelled in the shortest way wherever they are taken
apart, and all that is inside is of a format that is kept. -/
def Canonical (registry : Registry) : (levels : Nat) → Format → Bytes → Prop
  | 0, f, _ => f.Kept
  | levels + 1, f, data =>
    f.Kept ∧
      ((∃ v, (f.codec registry (levels + 1)).onField data = .ok v ∧ v.isDecoded) →
        match f with
        | plain _ => True
        | series element =>
          Row Series.NoKey (fun _ content => Canonical registry levels element content) data
        | localSet standard _ =>
          Row Ber.IsTag (fun tag content =>
            Canonical registry levels ((registry.table standard).byTag tag).format content) data
        | universalSet standard =>
          Row (fun (key : UniversalKey) spelling => spelling = key.bytes) (fun key content =>
            Canonical registry levels ((registry.table standard).byKey key).format content) data
        | idPack pack =>
          ∃ id spelling content, data = spelling ++ content ∧ Ber.IsTag id spelling ∧
            Canonical registry levels (localSet pack.standard none) content)

end Format

theorem PlainFormat.restores {p : PlainFormat} {data : Bytes} {v : Value} (hkept : p.Kept)
    (h : p.codec.onField data = .ok v) :
    p.codec.Restores v data ∧
      ((Format.plain p).TellsLength → p.codec.fieldLength v = .ok data.length) := by
  cases p with
  | blob c => exact (Codec.blob_restores h).imp_right fun hlength _ => hlength
  | uint c => exact Codec.uint_restores h
  | sint c => exact Codec.sint_restores h
  | enumeration name c names =>
      obtain ⟨⟨hhinted, hwritten⟩, hlength⟩ := Codec.uint_restores (c := c) h
      refine ⟨⟨hhinted, fun position => Codec.writeField_eq_ok.2 ⟨?_, rfl⟩⟩, hlength⟩
      exact (Codec.writeField_eq_ok.1 (hwritten position)).1
  | text encoding characters c =>
      exact (Codec.text_restores h).imp_right fun hlength _ => hlength
  | _ => exact hkept.elim

namespace Format

variable {registry : Registry} {f : Format}

theorem Kept.after (h : f.Kept) (tags : List Tag) : f.after tags = f := by
  cases f with
  | plain p =>
      cases p with
      | correlation preceding => exact h.elim
      | _ => rfl
  | _ => rfl

theorem Kept.described (h : f.Kept) (v : Value) : f.described v = none := by
  cases f with
  | plain p =>
      cases p with
      | correlation preceding => exact h.elim
      | _ => rfl
  | _ => rfl

theorem Canonical.kept {levels : Nat} {data : Bytes} (h : f.Canonical registry levels data) :
    f.Kept := by
  cases levels with
  | zero => exact h
  | succ levels => exact h.1

theorem Nests.tellsLength (h : f.Nests) : f.TellsLength := by
  cases f with
  | plain p => exact h.elim
  | _ => trivial

/-- Every field that is spelled in the shortest way comes back. -/
theorem restores {levels : Nat} {data : Bytes} {v : Value}
    (hcanonical : f.Canonical registry levels data)
    (h : (f.codec registry levels).onField data = .ok v) :
    (f.codec registry levels).Restores v data ∧
      (f.TellsLength → (f.codec registry levels).fieldLength v = .ok data.length) := by
  induction levels generalizing f data v with
  | zero =>
      cases f with
      | plain p => exact PlainFormat.restores hcanonical h
      | _ => exact Codec.restores_of_read h fun after _ hread => nomatch hread
  | succ levels ih =>
      have hlocal : ∀ f n, Reader.Local ((codec registry levels f).read n) :=
        fun f n _ => f.codec_alike registry levels n
      -- What comes back one level further in, with its key to remember the width.
      have hreturns : ∀ {κ : Type} [SetKey κ] [FieldSet.SpelledKey κ] (table : Table) (key : κ)
          (content : Bytes),
          (SetKey.entry table key).format.Canonical registry levels content →
            FieldSet.Returns table (codec registry levels) key content :=
        fun table key content hcontent =>
          ⟨hcontent.kept.after, hcontent.kept.described, fun v hv => (ih hcontent hv).1⟩
      cases f with
      | plain p => exact PlainFormat.restores hcanonical.1 h
      | series element =>
          refine (Codec.series_restores (hlocal element) h fun hv => ?_).imp_right
            fun hlength _ => hlength
          refine (hcanonical.2 ⟨_, h, hv⟩).imp fun _ content hcontent => ⟨fun v hv => ?_⟩
          exact (ih hcontent hv).imp_right fun hlength =>
            hlength (Nests.tellsLength hcanonical.1)
      | localSet standard trailer =>
          refine (Codec.set_restores .localSet (fun _ => rfl) rfl (fun _ => rfl) (fun _ => rfl)
            (fun set _ _ _ hwrite => Encoder.ofExcept_bind_eq_ok.2 ⟨set, rfl, hwrite⟩)
            hlocal h fun hv => ?_).imp_right fun hlength _ => hlength
          exact (hcanonical.2 ⟨_, h, hv⟩).imp (hreturns (registry.table standard))
      | universalSet standard =>
          refine (Codec.set_restores .universalSet (fun _ => rfl) rfl (fun _ => rfl)
            (fun _ => rfl)
            (fun set _ _ _ hwrite => Encoder.ofExcept_bind_eq_ok.2 ⟨set, rfl, hwrite⟩)
            hlocal h fun hv => ?_).imp_right fun hlength _ => hlength
          exact (hcanonical.2 ⟨_, h, hv⟩).imp (hreturns (registry.table standard))
      | idPack pack =>
          refine (Codec.idPack_restores (hlocal _) h fun hv => ?_).imp_right
            fun hlength _ => hlength
          obtain ⟨id, spelling, content, hdata, hid, hcontent⟩ := hcanonical.2 ⟨_, h, hv⟩
          exact ⟨id, spelling, content, hdata, hid, fun v hv =>
            (ih hcontent hv).imp_right fun hlength => hlength trivial⟩

end Format

/-! ## Packets -/

namespace Packet

variable {registry : Registry} {format : Format}

/-- A byte string that is one packet and nothing else: a valid key, the shortest spelling of a
length, a value that is spelled in the shortest way and as much as a trailer takes. A packet
remembers no width, so the value has to be of a format that tells its length. -/
inductive Spelled (registry : Registry) : Bytes → Prop where
  | mk {key : UniversalKey} {length content tail : Bytes} (hkey : key.isValid)
      (hlength : Ber.IsLength (content.length + tail.length) length)
      (htail : tail.length = trailerLength (formatOf registry key))
      (hcontent : (formatOf registry key).Canonical registry maxDepth content)
      (hwidth : (formatOf registry key).TellsLength) :
      Spelled registry (key.bytes ++ (length ++ (content ++ tail)))

/-- Looking for a trailer never fails: what has its shape holds a checksum. -/
theorem checkTrailer_ok (format : Format) (packet : Bytes) (length : Nat) :
    ∃ n status, checkTrailer format packet length = .ok (n, status) := by
  rw [checkTrailer]
  cases format.trailer with
  | none => exact ⟨0, .absent, rfl⟩
  | some trailer =>
      obtain ⟨hpos, hle⟩ := algorithm_width trailer.algorithm
      dsimp only
      by_cases hpresent : (trailer.length ≤ length && trailer.isPresent packet) = true
      · rw [if_pos hpresent]
        rw [Bool.and_eq_true, Checksum.Trailer.isPresent, Bool.and_eq_true, decide_eq_true_iff,
          decide_eq_true_iff, List.isPrefixOf_iff_prefix] at hpresent
        obtain ⟨_, hroom, payload, hpayload⟩ := hpresent
        have hlength := congrArg List.length hpayload
        rw [List.length_append, List.length_drop, Checksum.Trailer.length] at hlength
        rw [Checksum.Trailer.length] at hroom
        rw [← hpayload, (reads_trailer hpos hle (by omega)).onBytes]
        exact ⟨_, _, rfl⟩
      · rw [if_neg hpresent]
        exact ⟨0, .absent, rfl⟩

/-- A checksum that was found good is the one that is written. -/
theorem checkTrailer_valid {trailer : Checksum.Trailer} {covered tail : Bytes} {length n : Nat}
    (htrailer : format.trailer = some trailer) (htail : tail.length = trailer.length)
    (h : checkTrailer format (covered ++ tail) length = .ok (n, .valid)) :
    n = trailer.length ∧ tail = closing format (payloadOf format covered) ∧
      Fits format covered := by
  obtain ⟨hpos, hle⟩ := algorithm_width trailer.algorithm
  rw [checkTrailer, htrailer] at h
  dsimp only at h
  have hstart : (covered ++ tail).length - trailer.length = covered.length := by
    rw [List.length_append]
    omega
  by_cases hpresent : (trailer.length ≤ length && trailer.isPresent (covered ++ tail)) = true
  · rw [if_pos hpresent, hstart, List.drop_left] at h
    rw [Bool.and_eq_true, Checksum.Trailer.isPresent, hstart, List.drop_left,
      Bool.and_eq_true, List.isPrefixOf_iff_prefix] at hpresent
    obtain ⟨payload, rfl⟩ := hpresent.2.2
    have hpayload : payload.length = trailer.algorithm.width := by
      rw [List.length_append, Checksum.Trailer.length] at htail
      omega
    rw [(reads_trailer hpos hle hpayload).onBytes, ← List.append_assoc, ← List.length_append,
      List.take_left] at h
    injection h with h
    injection h with hn hstatus
    by_cases hsame : UInt64.ofNat (BigEndian.value payload) =
        trailer.evaluate (covered ++ trailer.header)
    · have hsmall : (checksumOf trailer covered).toNat < 256 ^ payload.length := by
        rw [checksumOf, ← hsame, Integer.toNat_value_of_le (by omega)]
        exact BigEndian.value_lt payload
      have hbytes := (Integer.ofNat_value_eq_iff payload (checksumOf trailer covered)
        (by omega) hsmall).1 hsame
      refine ⟨hn.symm, ?_, fun trailer' hsome => ?_⟩
      · rw [closing, payloadOf, htrailer]
        dsimp only
        rw [← hpayload, ← hbytes]
      · rw [htrailer] at hsome
        injection hsome with hsome
        subst hsome
        exact ⟨⟨hpos, hle⟩, hpayload ▸ hsmall⟩
    · rw [if_neg hsame] at hstatus
      cases hstatus
  · rw [if_neg hpresent] at h
    injection h with h
    injection h with _ hstatus
    cases hstatus

/-- What the reader took for the trailer is what the writer closes the packet with, unless
there was a trailer to be found and it was not good. -/
theorem checkTrailer_closed {covered tail : Bytes} {length n : Nat} {status : ChecksumStatus}
    (htail : tail.length = trailerLength format)
    (h : checkTrailer format (covered ++ tail) length = .ok (n, status))
    (hvalid : format.trailer.isSome → status = .valid) :
    n = trailerLength format ∧ tail = closing format (payloadOf format covered) ∧
      Fits format covered := by
  cases htrailer : format.trailer with
  | none =>
      rw [trailerLength, htrailer] at htail
      rw [checkTrailer, htrailer] at h
      injection h with h
      injection h with hn _
      rw [trailerLength, closing, Fits, htrailer]
      refine ⟨hn.symm, List.eq_nil_of_length_eq_zero htail, fun trailer hsome => ?_⟩
      cases hsome
  | some trailer =>
      rw [trailerLength, htrailer] at htail
      rw [hvalid (by rw [htrailer]; rfl)] at h
      obtain ⟨hn, hrest⟩ := checkTrailer_valid htrailer htail h
      rw [trailerLength, htrailer]
      exact ⟨hn, hrest⟩

/-- A packet is written from the bytes of its value and their checksum. -/
theorem write_of_restores {p : Packet} {content : Bytes} {position : Nat}
    (hformat : formatOf registry p.key = format)
    (hrestores : (codec registry p.key).Restores p.value content)
    (hlength : (codec registry p.key).fieldLength p.value = .ok content.length)
    (hfits : Fits format (opened format p.key content)) :
    p.write registry position = .ok ((), assembled format p.key content
      (payloadOf format (opened format p.key content))) := by
  subst hformat
  refine Encoder.mapError_eq_ok.2 (Encoder.ofExcept_bind_eq_ok.2 ⟨content.length, hlength, ?_⟩)
  have hbody : (do
      p.key.write
      Ber.writeLength (content.length + trailerLength (formatOf registry p.key))
      (codec registry p.key).writeField p.value content.length : Encoder Unit) position =
        .ok ((), opened (formatOf registry p.key) p.key content) :=
    Encoder.bind_of_ok rfl (Encoder.bind_of_ok rfl (hrestores.written _))
  refine Encoder.bind_of_ok (Encoder.captured_eq_ok.2 ⟨rfl, (), hbody⟩) ?_
  rw [closing, payloadOf]
  cases htrailer : (formatOf registry p.key).trailer with
  | none =>
      rw [show (entry registry p.key).format.trailer = none from htrailer]
      rfl
  | some trailer =>
      obtain ⟨hwidth, hsmall⟩ := hfits trailer htrailer
      rw [show (entry registry p.key).format.trailer = some trailer from htrailer]
      exact Encoder.bind_of_ok rfl (Integer.writeUnsigned_eq_ok.2 ⟨hwidth, hsmall, rfl⟩)

/-- A packet that is decoded and not touched is encoded as the same bytes. -/
theorem decode_then_encode {b : Bytes} {p : Packet} (hb : Spelled registry b)
    (hdecode : decode registry b = .ok p)
    (hvalid : (formatOf registry p.key).trailer.isSome → p.checksum = .valid) :
    encode registry p = .ok b := by
  obtain ⟨d, hread⟩ := Reader.onBytes_eq_ok.1 hdecode
  cases hb with
  | @mk key length content tail hkey hlength htail hcontent hwidth =>
      rw [read_of_isValid hkey (Cursor.rest_ofBytes _)] at hread
      have hhere := Reader.restoring_eq_ok.1 hread
      obtain ⟨n, status, hcheck⟩ := checkTrailer_ok (formatOf registry key)
        (key.bytes ++ (length ++ (content ++ tail))) (content ++ tail).length
      rw [← List.length_append] at hlength
      obtain ⟨hrest, heq⟩ := readHere_eq (t := []) hkey rfl hlength.reads hlength.lt hcheck
        (by rw [Cursor.rest_ofBytes, List.append_nil])
      rw [heq] at hhere
      obtain ⟨v, d', hfield, hskip⟩ := Reader.bind_eq_ok.1 hhere
      obtain ⟨_, d'', _, hpure⟩ := Reader.bind_eq_ok.1 hskip
      injection hpure with hp _
      subst hp
      have hsplit : key.bytes ++ (length ++ (content ++ tail)) =
          (key.bytes ++ (length ++ content)) ++ tail := by
        simp only [List.append_assoc]
      rw [hsplit] at hcheck ⊢
      obtain ⟨rfl, hclosing, hfits⟩ := checkTrailer_closed htail hcheck hvalid
      -- The value was read from its own bytes, so it comes back.
      have hleft : (content ++ tail).length - trailerLength (formatOf registry key) =
          content.length := by
        rw [List.length_append, htail]
        omega
      rw [hleft] at hfield
      rw [List.append_nil] at hrest
      obtain ⟨hvalue, _⟩ := Codec.onField_of_readField (codec_local registry key) hrest
        (Reader.mapError_eq_ok.1 hfield)
      obtain ⟨hrestores, htells⟩ := Format.restores hcontent hvalue
      have hopened : opened (formatOf registry key) key content =
          key.bytes ++ (length ++ content) := by
        rw [opened, hlength.eq_lengthBytes, List.length_append, htail]
      rw [← hopened] at hclosing hfits ⊢
      refine Encoder.bytes_eq_ok.2 ⟨(), ?_⟩
      rw [write_of_restores (p := ⟨key, v, status⟩) rfl hrestores (htells hwidth) hfits,
        assembled, ← hclosing]

/-- A security set of a classification and an empty field that no table knows. -/
def classifiedContent : Bytes := [0x01, 0x01, 0x01, 0x7E, 0x00]

def classified : Packet where
  key := PacketKey.datalink
  value := .localSet
    [⟨3, .string "AB", some 2⟩,
      ⟨48, .localSet [⟨1, .uint 1, some 1⟩, ⟨126, .empty, some 0⟩], some 5⟩,
      ⟨65, .uint 19, some 1⟩]
  checksum := .valid

def classifiedBytes : Bytes :=
  PacketKey.datalink.bytes ++ ([0x12] ++
    (([0x03, 0x02, 0x41, 0x42, 0x30, 0x05] ++ classifiedContent ++ [0x41, 0x01, 0x13]) ++
      [0x01, 0x02, 0x76, 0xC8]))

/-- A mission, a security set and a version come back from a packet whose checksum is good. -/
theorem classified_untouched :
    Spelled Registry.published classifiedBytes ∧
      decode Registry.published classifiedBytes = .ok classified ∧
      encode Registry.published classified = .ok classifiedBytes := by
  have hsecurity : (Format.localSet .security none).Canonical Registry.published 31
      classifiedContent := by
    refine ⟨trivial, fun _ => ?_⟩
    have hlevel : ((Registry.published.table .security).byTag 1).format.Canonical
        Registry.published 30 [0x01] := ⟨trivial, fun _ => trivial⟩
    have hunknown : ((Registry.published.table .security).byTag 126).format.Canonical
        Registry.published 30 [] := ⟨trivial, fun _ => trivial⟩
    show Row Ber.IsTag _ ([0x01] ++ ([0x01] ++ ([0x01] ++ ([0x7E] ++ ([0x00] ++ ([] ++ []))))))
    exact .cons ⟨⟨1, rfl, rfl⟩, by decide⟩ (.short (by decide)) hlevel
      (.cons ⟨⟨126, rfl, rfl⟩, by decide⟩ (.short (by decide)) hunknown .nil)
  have hcontent : (formatOf Registry.published PacketKey.datalink).Canonical
      Registry.published (31 + 1)
      ([0x03, 0x02, 0x41, 0x42, 0x30, 0x05] ++ classifiedContent ++ [0x41, 0x01, 0x13]) := by
    refine ⟨trivial, fun _ => ?_⟩
    have hmission : ((Registry.published.table .datalink).byTag 3).format.Canonical
        Registry.published 31 [0x41, 0x42] := ⟨trivial, fun _ => trivial⟩
    have hversion : ((Registry.published.table .datalink).byTag 65).format.Canonical
        Registry.published 31 [0x13] := ⟨trivial, fun _ => trivial⟩
    show Row Ber.IsTag _ ([0x03] ++ ([0x02] ++ ([0x41, 0x42] ++ ([0x30] ++ ([0x05] ++
      (classifiedContent ++ ([0x41] ++ ([0x01] ++ ([0x13] ++ [])))))))))
    exact .cons ⟨⟨3, rfl, rfl⟩, by decide⟩ (.short (by decide)) hmission
      (.cons ⟨⟨48, rfl, rfl⟩, by decide⟩ (.short (by decide)) hsecurity
        (.cons ⟨⟨65, rfl, rfl⟩, by decide⟩ (.short (by decide)) hversion .nil))
  have hb : Spelled Registry.published classifiedBytes :=
    .mk rfl (.short (by decide)) rfl hcontent trivial
  have hdecode : decode Registry.published classifiedBytes = .ok classified := by
    with_unfolding_all rfl
  exact ⟨hb, hdecode, decode_then_encode hb hdecode fun _ => rfl⟩

end Packet

end MotionMetadata
