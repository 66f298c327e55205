import MotionMetadata.Proofs.Lengths
import MotionMetadata.Proofs.Spellings

/-!
# Small packs come back

A pack of a few numbers has no width to be remembered, so it comes back only if its bytes have
no second spelling. `Reader.Spells` says of a reader which bytes belong to what it answers. From
there it is arithmetic: bits that were taken apart are put together again, and where the reader
looks at every bit nothing is lost.

Three packs have more than one spelling. A corner may be read with empty groups in front of it
and is written without them. A separator at the end of an implementer leaves a subgroup without
characters, which the writer takes for none. And the usage byte of an identifier has two bits
that no field of the record holds.
-/

namespace MotionMetadata

/-! ## Readers that leave nothing out -/

namespace Reader

variable {α β : Type} {P : α → Bytes → Prop} {Q : β → Bytes → Prop}

/-- The bytes that the reader takes and what it answers belong together as `P` says. -/
def Spells (r : Reader α) (P : α → Bytes → Prop) : Prop :=
  ∀ c a d, r c = .ok a d → ∃ w t, P a w ∧ c.rest = w ++ t ∧ d = c.advance w.length

namespace Spells

theorem pure {a : α} (h : P a []) : (Pure.pure a : Reader α).Spells P := by
  intro c a' d hread
  injection hread with ha hd
  subst ha hd
  exact ⟨[], c.rest, h, rfl, rfl⟩

theorem raiseAt (offset : Nat) (fault : Fault) :
    (MotionMetadata.raiseAt offset fault : Reader α).Spells P :=
  fun _ _ _ hread => nomatch hread

theorem bind {x : Reader α} {f : α → Reader β} (hx : x.Spells P)
    (hf : ∀ a w, P a w → (f a).Spells fun b w' => Q b (w ++ w')) : (x >>= f).Spells Q := by
  intro c b d hread
  obtain ⟨a, c', ha, hb⟩ := bind_eq_ok.1 hread
  obtain ⟨w, t, hw, hc, rfl⟩ := hx c a c' ha
  obtain ⟨w', t', hw', hc', rfl⟩ := hf a w hw _ b d hb
  rw [Cursor.rest_advance_of_append hc] at hc'
  refine ⟨w ++ w', t', hw', ?_, ?_⟩
  · rw [hc, hc', List.append_assoc]
  · rw [Cursor.advance_advance, List.length_append]

theorem position_bind {f : Nat → Reader α} (hf : ∀ p, (f p).Spells P) :
    (position >>= f).Spells P := by
  intro c a d hread
  rw [bind_of_ok (position_apply c)] at hread
  exact hf _ c a d hread

theorem map {f : α → β} {x : Reader α} (hx : x.Spells fun a w => Q (f a) w) :
    (f <$> x).Spells Q := by
  intro c b d hread
  obtain ⟨a, ha, rfl⟩ := map_eq_ok.1 hread
  exact hx c a d ha

theorem imp {r : Reader α} {P' : α → Bytes → Prop} (h : r.Spells P)
    (himp : ∀ a w, P a w → P' a w) : r.Spells P' := by
  intro c a d hread
  obtain ⟨w, t, hw, hc, hd⟩ := h c a d hread
  exact ⟨w, t, himp a w hw, hc, hd⟩

theorem take (n : Nat) : (take n).Spells fun bytes w => w = bytes ∧ bytes.length = n := by
  intro c bytes d hread
  obtain ⟨hle, rfl, rfl⟩ := take_eq_ok.1 hread
  have hlength := List.length_take_of_le hle
  refine ⟨c.rest.take n, c.rest.drop n, ⟨rfl, hlength⟩, (List.take_append_drop ..).symm, ?_⟩
  rw [hlength]

theorem byte : byte.Spells fun b w => w = [b] := by
  refine (take 1).bind fun bytes w hw => .pure ?_
  obtain ⟨rfl, hlength⟩ := hw
  match w, hlength with
  | [b], _ => rfl

theorem unsigned (width : Nat) : (Integer.readUnsigned width).Spells fun v w =>
    ∀ position, Integer.writeUnsigned v width position = .ok ((), w) := by
  intro c v d hread
  obtain ⟨⟨hpos, hwidth⟩, hle, rfl, rfl⟩ := Integer.readUnsigned_eq_ok.1 hread
  have hlength := List.length_take_of_le hle
  refine ⟨c.rest.take width, c.rest.drop width, fun position => ?_,
    (List.take_append_drop ..).symm, hlength.symm ▸ rfl⟩
  generalize c.rest.take width = data at hlength ⊢
  subst hlength
  exact Integer.writeUnsigned_value hpos hwidth position

theorem tag : Ber.readTag.Spells Ber.TagSpelling :=
  fun _ _ _ hread => Ber.readTag_iff_spelling.1 hread

end Spells

end Reader

namespace Codec

variable {codec : Codec} {v : Value} {data w : Bytes}

/-- A field that was read from `data` is written as `w`, wherever it is written. -/
structure Rewrites (codec : Codec) (v : Value) (data w : Bytes) : Prop where
  hinted : codec.hintedLength v (some data.length) = .ok w.length
  written : ∀ position, codec.writeField v w.length position = .ok ((), w)

theorem Rewrites.restores_iff (h : codec.Rewrites v data w) : codec.Restores v data ↔ w = data := by
  constructor
  · intro hrestores
    have hlength := h.hinted.symm.trans hrestores.hinted
    injection hlength with hlength
    have hwritten := h.written 0
    rw [hlength, hrestores.written 0] at hwritten
    exact (Prod.mk.inj (Except.ok.inj hwritten)).2.symm
  · rintro rfl
    exact ⟨h.hinted, h.written⟩

/-- Without a width to keep, a value is written in the length that is worked out for it. -/
theorem rewrites_of_write (hv : v.isDecoded) (hfits : codec.fits v data.length = false)
    (hlength : codec.fieldLength v = .ok w.length)
    (hwrite : ∀ position, codec.write v w.length position = .ok ((), w)) :
    codec.Rewrites v data w := by
  refine ⟨?_, written_of_write hv hwrite⟩
  rw [hintedLength, keepsWidth, hfits, Bool.and_false]
  exact hlength

/-- A decoded value and the bytes of its field belong together as the reader says. -/
theorem onField_spells {P : Value → Bytes → Prop} (h : codec.onField data = .ok v)
    (hread : (codec.read data.length).Spells P) :
    (data = [] ∧ v = .empty) ∨ v = .blob data ∨
      (codec.constraint.allows data.length ∧ P v data) := by
  rcases onField_cases h with h | h | ⟨_, hallows, after, hok, hused⟩
  · exact .inl h
  · exact .inr (.inl h)
  · obtain ⟨w, t, hw, hdata, rfl⟩ := hread _ _ _ hok
    rw [Cursor.rest_ofBytes] at hdata
    rw [Cursor.consumed_advance, Cursor.consumed_ofBytes, Nat.zero_add] at hused
    have ht : t = [] := by
      rw [hdata, List.length_append] at hused
      exact List.eq_nil_of_length_eq_zero (by omega)
    rw [hdata, ht, List.append_nil]
    exact .inr (.inr ⟨by rwa [hdata, ht, List.append_nil] at hallows, hw⟩)

/-- A pack of one length comes back if the writer undoes the reader. -/
theorem restores_of_spells (hfixed : codec.constraint.fixedLength.isSome)
    (hread : ∀ n, (codec.read n).Spells fun v w => v.isDecoded ∧
      (codec.constraint.allows w.length →
        ∀ position, codec.write v w.length position = .ok ((), w)))
    (h : codec.onField data = .ok v) : codec.Restores v data := by
  rcases onField_spells h (hread data.length) with ⟨rfl, rfl⟩ | rfl | ⟨hallows, hv, hwrite⟩
  · exact restores_empty
  · exact restores_blob data
  · obtain ⟨n, hn⟩ := Option.isSome_iff_exists.1 hfixed
    exact ⟨hintedLength_of_fieldLength (fieldLength_of_fixed hv hn hallows),
      written_of_write hv (hwrite hallows)⟩

/-! ## Numbers in a fixed number of bytes -/

theorem userData_restores (h : userData.onField data = .ok v) : userData.Restores v data := by
  refine restores_of_spells rfl (fun _ => .bind .byte fun b w hw => .pure ?_) h
  subst hw
  refine ⟨rfl, fun _ position => ?_⟩
  obtain ⟨hsmall, hsum⟩ := userData_parts b
  refine Encoder.ofExcept_bind_eq_ok.2 ⟨_, rfl, Encoder.ofExcept_bind_eq_ok.2 ⟨_, rfl, ?_⟩⟩
  rw [if_neg hsmall]
  exact Integer.writeUnsigned_byte hsum position

theorem detectorIndex_restores (h : detectorIndex.onField data = .ok v) :
    detectorIndex.Restores v data := by
  refine restores_of_spells rfl (fun _ => .bind .byte fun row w hw =>
    .bind .byte fun column w' hw' => .pure ?_) h
  subst hw hw'
  refine ⟨rfl, fun _ position => Encoder.ofExcept_bind_eq_ok.2 ⟨_, rfl, ?_⟩⟩
  refine Encoder.bind_eq_ok.2
    ⟨(), [row], [column], Integer.writeUnsigned_byte rfl position, ?_, rfl⟩
  exact Encoder.ofExcept_bind_eq_ok.2 ⟨_, rfl, Integer.writeUnsigned_byte rfl _⟩

theorem metricPeriod_restores (h : metricPeriod.onField data = .ok v) :
    metricPeriod.Restores v data := by
  refine restores_of_spells rfl (fun _ => .bind (.unsigned _) fun timestamp w hw =>
    .bind (.unsigned _) fun offset w' hw' => .pure ?_) h
  refine ⟨rfl, fun _ position => Encoder.ofExcept_bind_eq_ok.2 ⟨_, rfl, ?_⟩⟩
  refine Encoder.bind_eq_ok.2 ⟨(), w, w', hw position, ?_, by rw [List.append_nil]⟩
  exact Encoder.ofExcept_bind_eq_ok.2 ⟨_, rfl, hw' _⟩

end Codec

/-- A spelling of one byte is that byte. -/
theorem Ber.TagSpelling.of_single {v : Tag} {w : Bytes} (h : TagSpelling v w) (hw : w.length = 1) :
    ∃ b, w = [b] ∧ b.toNat < 0x80 ∧ v.toNat = b.toNat := by
  cases h with
  | groups front last hcount hfront hlast =>
      have hfirst : front = [] := by
        rw [List.length_append, List.length_singleton] at hw
        exact List.eq_nil_of_length_eq_zero (by omega)
      subst hfirst
      refine ⟨last, rfl, hlast, ?_⟩
      rw [List.nil_append, UInt64.toNat_ofNat']
      show (0 * 128 + last.toNat % 128) % 2 ^ 64 = last.toNat
      omega

/-- A number below 128 is written in one byte. -/
theorem Ber.writeTag_byte {v : UInt64} {b : UInt8} (h : v.toNat = b.toNat) (hb : b.toNat < 0x80)
    (position : Nat) : writeTag v position = .ok ((), [b]) := by
  have hlt : v.toNat < 2 ^ 56 := by omega
  have hwidth : tagWidth v = 1 :=
    Nat.le_antisymm (tagWidth_le_iff.2 ⟨Nat.le_refl 1, by omega⟩) (Nat.le_max_left ..)
  obtain ⟨b', hb', _, hv⟩ := (tagBytes_spells hlt).of_single ((length_tagBytes v).trans hwidth)
  refine writeTag_eq_ok.2 ⟨hlt, ?_⟩
  rw [hb', UInt8.toNat_inj.1 (hv.symm.trans h)]

namespace Codec

variable {v : Value} {data : Bytes}

theorem rangeEnumerations_restores (h : rangeEnumerations.onField data = .ok v) :
    rangeEnumerations.Restores v data := by
  refine restores_of_spells rfl (fun _ => .bind .tag fun bits w hw => .pure ?_) h
  refine ⟨rfl, fun hallows position => ?_⟩
  rw [List.append_nil] at hallows ⊢
  obtain ⟨b, rfl, hb, hbits⟩ := hw.of_single (eq_of_beq hallows)
  obtain ⟨hsmall, hsum⟩ := rangeEnumerations_parts b.toNat
  rw [Nat.mod_eq_of_lt hb] at hsum
  rw [hbits]
  refine Encoder.ofExcept_bind_eq_ok.2 ⟨_, rfl, Encoder.ofExcept_bind_eq_ok.2 ⟨_, rfl,
    Encoder.ofExcept_bind_eq_ok.2 ⟨_, rfl, ?_⟩⟩⟩
  rw [if_neg hsmall]
  exact Ber.writeTag_byte hsum hb position

end Codec

/-! ## Fields in a row -/

namespace Value

variable {α : Type} {f : α → Value} {items : List (String × α)}

/-- A record of some contents, each under its name. -/
def ofItems (f : α → Value) (items : List (String × α)) : List (String × Value) :=
  items.map fun i => (i.1, f i.2)

theorem named_ofItems (f : α → Value) (items : List (String × α)) :
    Named (·.1) (fun i v => v = f i.2) items (ofItems f items) := by
  induction items with
  | nil => exact .nil
  | cons i rest ih => exact .cons (i := i) rfl ih

end Value

/-! ## Corners -/

namespace WindowCorners

variable {corners : List (String × Tag)} {value : Value}

/-- The shortest bytes of some corners. -/
def shortest (corners : List (String × Tag)) : Bytes := corners.flatMap fun i => Ber.tagBytes i.2

/-- Corners are written one after the other, each in its shortest form. -/
theorem write_shortest
    (h : ∀ i ∈ corners, value.uintField i.1 = .ok i.2 ∧ i.2.toNat < 2 ^ 56) (total : Nat) :
    (corners.map (·.1)).foldlM
        (fun total name => return total + Ber.tagWidth (← value.uintField name)) total =
        .ok (total + (shortest corners).length) ∧
      ∀ position, Encoder.each (fun name => do
        Ber.writeTag (← Encoder.ofExcept (value.uintField name))) (corners.map (·.1)) position =
          .ok ((), shortest corners) := by
  induction corners generalizing total with
  | nil => exact ⟨rfl, fun _ => rfl⟩
  | cons i rest ih =>
      obtain ⟨⟨hv, hlt⟩, hrest⟩ := List.forall_mem_cons.1 h
      obtain ⟨hlength, hwrite⟩ := ih hrest (total + Ber.tagWidth i.2)
      refine ⟨?_, fun position => ?_⟩
      · rw [List.map_cons, List.foldlM_cons, hv, shortest, List.flatMap_cons, List.length_append,
          Ber.length_tagBytes, ← Nat.add_assoc]
        exact hlength
      · exact Encoder.bind_eq_ok.2 ⟨(), _, _, Encoder.ofExcept_bind_eq_ok.2
          ⟨i.2, hv, Ber.writeTag_eq_ok.2 ⟨hlt, rfl⟩⟩, hwrite _, rfl⟩

/-- What is read are numbers of 16 bits under their names. -/
theorem readCorners_items (names : List String) :
    (readCorners names).Yields fun fields => ∃ corners : List (String × Tag),
      corners.map (·.1) = names ∧ fields = Value.ofItems .uint corners ∧
      ∀ i ∈ corners, i.2.toNat ≤ 0xFFFF := by
  induction names with
  | nil => exact .pure ⟨[], rfl, rfl, nofun⟩
  | cons name rest ih =>
      rw [readCorners]
      have hone : (readCorner name).Yields fun f => ∃ n, f = (name, .uint n) ∧
          n.toNat ≤ 0xFFFF := by
        rw [readCorner]
        refine .after fun _ => .after fun n => ?_
        dsimp only
        exact .refuse fun hle => .pure ⟨n, rfl, UInt64.le_iff_toNat_le.1 (UInt64.not_lt.1 hle)⟩
      refine hone.bind fun f hf => ih.bind fun fields hfields => .pure ?_
      obtain ⟨n, rfl, hn⟩ := hf
      obtain ⟨corners, rfl, rfl, hsmall⟩ := hfields
      exact ⟨(name, n) :: corners, rfl, rfl, List.forall_mem_cons.2 ⟨hn, hsmall⟩⟩

end WindowCorners

/-- Corners are written in their shortest form, whichever they were read in. -/
theorem Codec.windowCorners_rewrites {v : Value} {data : Bytes}
    (h : windowCorners.onField data = .ok v) (hv : v.isDecoded) :
    ∃ corners : List (String × Tag), corners.map (·.1) = WindowCorners.fields ∧
      v = .record (Value.ofItems .uint corners) ∧
      windowCorners.Rewrites v data (WindowCorners.shortest corners) := by
  rcases onField_cases h with ⟨_, rfl⟩ | rfl | ⟨_, _, after, hread, _⟩
  · cases hv
  · cases hv
  · obtain ⟨fields, d, hfields, hpure⟩ := Reader.bind_eq_ok.1 hread
    injection hpure with hpure
    subst hpure
    obtain ⟨corners, hnames, rfl, hsmall⟩ := WindowCorners.readCorners_items _ _ _ _ hfields
    have hcorner : ∀ i ∈ corners, (Value.record (Value.ofItems .uint corners)).uintField i.1 =
        .ok i.2 ∧ i.2.toNat < 2 ^ 56 := by
      intro i hi
      have hnodup : (corners.map (·.1)).Nodup := hnames ▸ by decide
      obtain ⟨_, hfield, rfl⟩ := (Value.named_ofItems .uint corners).field? hnodup i hi
      have := hsmall i hi
      exact ⟨Value.uintField_of_field? hfield, by omega⟩
    obtain ⟨hlength, hwrite⟩ := WindowCorners.write_shortest hcorner 0
    rw [hnames, Nat.zero_add] at hlength
    rw [hnames] at hwrite
    exact ⟨corners, hnames, rfl, rewrites_of_write rfl rfl hlength hwrite⟩

/-! ## Implementers -/

namespace MetricImplementer

/-- What is split off is everything up to the first separator, and nothing is lost but that. -/
theorem split_spec (chars : List Char) :
    separator ∉ (split chars).1 ∧ chars = (split chars).1 ++
      (match (split chars).2 with
      | none => []
      | some after => separator :: after) := by
  induction chars with
  | nil => exact ⟨nofun, rfl⟩
  | cons c rest ih =>
      rw [split]
      split
      · next hc => exact ⟨nofun, by rw [hc]; rfl⟩
      · next hc =>
          refine ⟨?_, ?_⟩
          · rw [List.mem_cons, not_or]
            exact ⟨Ne.symm hc, ih.1⟩
          · exact congrArg (c :: ·) ih.2

/-- The same of the bytes of a text. -/
theorem encodeChars_split (chars : List Char) :
    0x1E ∉ Text.Utf8.encodeChars (split chars).1 ∧
      Text.Utf8.encodeChars chars = Text.Utf8.encodeChars (split chars).1 ++
        (match (split chars).2 with
        | none => []
        | some after => 0x1E :: Text.Utf8.encodeChars after) := by
  obtain ⟨hfirst, hwhole⟩ := split_spec chars
  refine ⟨fun hmem => hfirst ((Text.Utf8.mem_encodeChars_iff (by decide)).1 hmem), ?_⟩
  conv_lhs => rw [hwhole, Text.Utf8.encodeChars_append]
  cases (split chars).2 <;> rfl

/-- An organization and what stands behind the separator, if there is one. -/
def ofParts (organization : List Char) (subgroup : Option (List Char)) : Value :=
  .record [("organization", .string (String.ofList organization)),
    ("subgroup", match subgroup with
      | some chars => .string (String.ofList chars)
      | none => .empty)]

/-- The bytes of an implementer: a subgroup without characters is left out. -/
def partsBytes (organization : List Char) : (subgroup : Option (List Char)) → Bytes
  | some (c :: chars) => Text.Utf8.encodeChars (organization ++ separator :: c :: chars)
  | _ => Text.Utf8.encodeChars organization

theorem subgroupOf_parts (organization : List Char) (subgroup : Option (List Char)) :
    subgroupOf (ofParts organization subgroup) = .ok (match subgroup with
      | some (c :: chars) => some (String.ofList (c :: chars))
      | _ => none) := by
  match subgroup with
  | none => rfl
  | some [] => rfl
  | some (c :: chars) =>
      have hsome : (String.ofList (c :: chars)).isEmpty = false := by simp
      show Except.ok (if (String.ofList (c :: chars)).isEmpty then none else _) = _
      rw [hsome]
      rfl

theorem write_parts (organization : List Char) (subgroup : Option (List Char)) :
    naturalLength (ofParts organization subgroup) =
        .ok (partsBytes organization subgroup).length ∧
      ∀ position, write (ofParts organization subgroup) position =
        .ok ((), partsBytes organization subgroup) := by
  have hsubgroup := subgroupOf_parts organization subgroup
  have horganization : (ofParts organization subgroup).stringField "organization" =
      .ok (String.ofList organization) := rfl
  have hencode : ∀ chars, Text.Utf8.encode (String.ofList chars) = Text.Utf8.encodeChars chars :=
    fun chars => by rw [Text.Utf8.encode, String.toList_ofList]
  have hwrite : ∀ position, write (ofParts organization subgroup) position =
      .ok ((), partsBytes organization subgroup) := by
    intro position
    refine Encoder.ofExcept_bind_eq_ok.2 ⟨_, horganization, ?_⟩
    rw [hencode]
    rcases subgroup with _ | _ | ⟨c, chars⟩
    · exact Encoder.bind_eq_ok.2 ⟨(), _, [], rfl, Encoder.ofExcept_bind_eq_ok.2
        ⟨_, hsubgroup, rfl⟩, (List.append_nil _).symm⟩
    · exact Encoder.bind_eq_ok.2 ⟨(), _, [], rfl, Encoder.ofExcept_bind_eq_ok.2
        ⟨_, hsubgroup, rfl⟩, (List.append_nil _).symm⟩
    · refine Encoder.bind_eq_ok.2 ⟨(), _, _, rfl, Encoder.ofExcept_bind_eq_ok.2
        ⟨_, hsubgroup, rfl⟩, ?_⟩
      rw [hencode]
      exact Text.Utf8.encodeChars_append _ _
  obtain ⟨n, hlength, hwrites⟩ := write_writes horganization hsubgroup
  rw [hwrites.fills 0 _ _ (hwrite 0)]
  exact ⟨hlength, hwrite⟩

end MetricImplementer

/-- The bytes of a text are split where the text is. -/
theorem Codec.metricImplementer_onField {text : String} (hne : text.toList ≠ []) :
    metricImplementer.onField (Text.Utf8.encode text) = .ok (MetricImplementer.ofParts
      (MetricImplementer.split text.toList).1 (MetricImplementer.split text.toList).2) := by
  refine onField_of_reads (Text.Utf8.encodeChars_ne_nil hne) rfl ?_
  refine .position_bind fun _ => .bind_nil (.take _) ?_
  dsimp only
  rw [Text.Utf8.decode_encode]
  exact .pure _

/-- An implementer is written without the separator if nothing stands behind it. -/
theorem Codec.metricImplementer_rewrites {v : Value} {data : Bytes}
    (h : metricImplementer.onField data = .ok v) (hv : v.isDecoded) :
    ∃ text, Text.Utf8.decode data = .ok text ∧ metricImplementer.Rewrites v data
      (MetricImplementer.partsBytes (MetricImplementer.split text.toList).1
        (MetricImplementer.split text.toList).2) := by
  have hread : (metricImplementer.read data.length).Spells fun v w => ∃ text,
      Text.Utf8.decode w = .ok text ∧ v = MetricImplementer.ofParts
        (MetricImplementer.split text.toList).1 (MetricImplementer.split text.toList).2 := by
    refine .position_bind fun _ => .bind (.take _) fun bytes w hw => ?_
    obtain ⟨rfl, _⟩ := hw
    cases hdecode : Text.Utf8.decode w with
    | error f => exact .raiseAt _ _
    | ok text => exact .pure ⟨text, by rw [List.append_nil, hdecode], rfl⟩
  rcases onField_spells h hread with ⟨_, rfl⟩ | rfl | ⟨_, text, hdecode, rfl⟩
  · cases hv
  · cases hv
  · obtain ⟨hlength, hwrite⟩ := MetricImplementer.write_parts
      (MetricImplementer.split text.toList).1 (MetricImplementer.split text.toList).2
    exact ⟨text, hdecode, rewrites_of_write rfl rfl hlength hwrite⟩

/-- An implementer comes back unless it ends in its first separator, which is then left out. -/
theorem Codec.metricImplementer_restores {fields : List (String × Value)} {data : Bytes}
    (h : metricImplementer.onField data = .ok (.record fields)) :
    (∀ before, 0x1E ∉ before → data = before ++ [0x1E] →
        metricImplementer.Rewrites (.record fields) data before) ∧
      ((∀ before, 0x1E ∉ before → data ≠ before ++ [0x1E]) →
        metricImplementer.Restores (.record fields) data) := by
  obtain ⟨text, hdecode, hrewrites⟩ := metricImplementer_rewrites h rfl
  have hdata := Text.Utf8.encode_decode hdecode
  obtain ⟨hfirst, hwhole⟩ := MetricImplementer.encodeChars_split text.toList
  rw [← Text.Utf8.encode, hdata] at hwhole
  generalize (MetricImplementer.split text.toList).1 = organization at *
  generalize (MetricImplementer.split text.toList).2 = subgroup at *
  rcases subgroup with _ | _ | ⟨c, chars⟩
  · rw [List.append_nil] at hwhole
    refine ⟨fun before _ hbefore => absurd ?_ hfirst,
      fun _ => hrewrites.restores_iff.2 hwhole.symm⟩
    rw [← hwhole, hbefore]
    exact List.mem_append_right _ (List.mem_singleton_self _)
  · refine ⟨fun before _ hbefore => ?_, fun hne => absurd hwhole (hne _ hfirst)⟩
    exact (List.append_inj' (hwhole.symm.trans hbefore) rfl).1 ▸ hrewrites
  · refine ⟨fun before hnone hbefore => absurd ?_ hnone, fun _ => hrewrites.restores_iff.2 ?_⟩
    · -- The last byte is not the separator found first, so that one is in front of it.
      have hmore := Text.Utf8.encodeChars_ne_nil (List.cons_ne_nil c chars)
      dsimp only at hwhole
      rw [← List.dropLast_concat_getLast hmore, ← List.cons_append, ← List.append_assoc] at hwhole
      rw [← (List.append_inj' (hwhole.symm.trans hbefore) rfl).1]
      simp
    · rw [hwhole]
      exact Text.Utf8.encodeChars_append _ _

/-! ## Identifiers -/

namespace Identity

/-- An identifier as a field of a record. -/
def idValue : Option Bytes → Value
  | none => .empty
  | some bytes => .blob bytes

/-- Identifiers under their names. -/
abbrev Ids := List (String × Option Bytes)

/-- The bytes of those identifiers that are there. -/
def Ids.bytes (found : Ids) : Bytes := (found.filterMap (·.2)).flatten

/-- Each identifier is there if it is said to be, and they are all of one length. -/
structure Ids.Fill (found : Ids) (items : List (String × Bool)) : Prop where
  items : found.map (fun f => (f.1, f.2.isSome)) = items
  lengths : ∀ f ∈ found, ∀ bytes ∈ f.2, bytes.length = uuidLength

theorem Ids.Fill.cons {name : String} {id : Option Bytes} {found : Ids}
    {items : List (String × Bool)} (hlength : ∀ bytes ∈ id, bytes.length = uuidLength)
    (h : found.Fill items) : Ids.Fill ((name, id) :: found) ((name, id.isSome) :: items) :=
  ⟨congrArg (_ :: ·) h.items, List.forall_mem_cons.2 ⟨hlength, h.lengths⟩⟩

theorem Ids.Fill.names {found : Ids} {items : List (String × Bool)} (h : found.Fill items) :
    found.map (·.1) = items.map (·.1) := by
  rw [← h.items, List.map_map]
  rfl

theorem Ids.Fill.length_bytes {found : Ids} {items : List (String × Bool)} (h : found.Fill items) :
    found.bytes.length = (found.filterMap (·.2)).length * uuidLength := by
  have hlengths : ∀ bytes ∈ found.filterMap (·.2), bytes.length = uuidLength := by
    intro bytes hbytes
    obtain ⟨f, hf, hsome⟩ := List.mem_filterMap.1 hbytes
    exact h.lengths f hf bytes hsome
  rw [bytes]
  generalize found.filterMap (·.2) = items at hlengths ⊢
  induction items with
  | nil => rfl
  | cons bytes rest ih =>
      obtain ⟨hbytes, hrest⟩ := List.forall_mem_cons.1 hlengths
      rw [List.flatten_cons, List.length_append, hbytes, ih hrest, List.length_cons,
        Nat.succ_mul, Nat.add_comm]

/-- The identifiers that are read are the bytes that are taken. -/
theorem readIds_spells (items : List (String × Bool)) :
    (readIds items).Spells fun named w => ∃ found : Ids, found.Fill items ∧
      named = Value.ofItems idValue found ∧ w = found.bytes := by
  induction items with
  | nil => exact .pure ⟨[], ⟨rfl, List.forall_mem_nil _⟩, rfl, rfl⟩
  | cons item rest ih =>
      obtain ⟨name, present⟩ := item
      rw [readIds]
      cases present with
      | false =>
          rw [if_neg Bool.false_ne_true]
          refine .bind (P := fun v w => v = .empty ∧ w = []) (.pure ⟨rfl, rfl⟩) fun v w hw => ?_
          refine ih.bind fun others w' hw' => .pure ?_
          obtain ⟨rfl, rfl⟩ := hw
          obtain ⟨found, hfound, rfl, rfl⟩ := hw'
          have hnone : ∀ bytes ∈ (none : Option Bytes), bytes.length = uuidLength :=
            fun _ hbytes => absurd hbytes (Option.not_mem_none _)
          exact ⟨(name, none) :: found, hfound.cons hnone, rfl, List.append_nil _⟩
      | true =>
          rw [if_pos rfl]
          refine .bind (P := fun v w => v = .blob w ∧ w.length = uuidLength)
            (.map ((Reader.Spells.take _).imp fun bytes w hw => ?_)) fun v w hw => ?_
          · obtain ⟨rfl, hlength⟩ := hw
            exact ⟨rfl, hlength⟩
          · refine ih.bind fun others w' hw' => .pure ?_
            obtain ⟨rfl, hlength⟩ := hw
            obtain ⟨found, hfound, rfl, rfl⟩ := hw'
            have hsome : ∀ bytes ∈ some w, bytes.length = uuidLength :=
              fun _ hbytes => Option.some.inj hbytes ▸ hlength
            refine ⟨(name, some w) :: found, hfound.cons hsome, rfl, ?_⟩
            rw [List.append_nil]
            rfl

/-- What an identifier consists of. -/
structure Parts where
  version : UInt8
  sensor : UInt64
  platform : UInt64
  window : Bool
  minor : Bool
  found : Ids
  fill : found.Fill (idFields.zip [sensor != 0, platform != 0, window, minor])
  small : ¬ (3 < sensor ∨ 3 < platform)

namespace Parts

variable (p : Parts)

def value : Value :=
  .record ([("version", .uint p.version.toUInt64), ("sensor_id_type", .uint p.sensor),
    ("platform_id_type", .uint p.platform)] ++ Value.ofItems idValue p.found)

def usage : UInt8 :=
  UInt8.ofNat (p.sensor.toNat * 2 ^ 5 + p.platform.toNat * 2 ^ 3 + p.window.toNat * 2 ^ 2 +
    p.minor.toNat * 2)

def bytes : Bytes := p.version :: p.usage :: p.found.bytes

theorem present : (p.found.map (·.2)).map Option.isSome =
    [p.sensor != 0, p.platform != 0, p.window, p.minor] := by
  have hsecond := congrArg (List.map Prod.snd) p.fill.items
  rw [List.map_map] at hsecond ⊢
  exact hsecond

theorem idsOf_value : idsOf p.value = .ok (p.found.map (·.2)) := by
  have hnames : p.found.map (·.1) = idFields := p.fill.names
  have hnodup : (p.found.map (·.1)).Nodup := hnames ▸ by decide
  have hothers : ∀ place ∈ idFields,
      place ∉ ["version", "sensor_id_type", "platform_id_type"] := by decide
  rw [← hnames] at hothers
  have hbefore : ∀ place ∈ p.found.map (·.1), place ∉ List.map (·.1) [("version",
      Value.uint p.version.toUInt64), ("sensor_id_type", .uint p.sensor),
      ("platform_id_type", .uint p.platform)] := hothers
  have hid : ∀ f ∈ p.found, idOf p.value f.1 = .ok f.2 := by
    intro f hf
    obtain ⟨v, hv, rfl⟩ :=
      (Value.named_ofItems idValue p.found).field?_behind hnodup hbefore f hf
    have hlength := p.fill.lengths f hf
    rw [idOf, value, Value.optionalField_record, hv]
    cases hid : f.2 with
    | none => rfl
    | some bytes => exact if_pos (hlength bytes hid)
  rw [idsOf, ← hnames, except_mapM_eq_ok, List.forall₂_map_left_iff, List.forall₂_map_right_iff,
    List.forall₂_same]
  exact hid

end Parts

theorem each_emit (items : List Bytes) (position : Nat) :
    Encoder.each Encoder.emit items position = .ok ((), items.flatten) := by
  induction items generalizing position with
  | nil => rfl
  | cons bytes rest ih => exact Encoder.bind_eq_ok.2 ⟨(), bytes, _, rfl, ih _, rfl⟩

theorem usageByte_of_ids {sensor platform : UInt64} {ids : List (Option Bytes)}
    {first second window minor : Bool}
    (h : ids.map Option.isSome = [first, second, window, minor]) :
    usageByte sensor platform ids = UInt8.ofNat (sensor.toNat * 2 ^ 5 + platform.toNat * 2 ^ 3 +
      window.toNat * 2 ^ 2 + minor.toNat * 2) := by
  match ids, h with
  | [_, _, third, fourth], h =>
      simp only [List.map_cons, List.cons.injEq] at h
      obtain ⟨-, -, rfl, rfl, -⟩ := h
      rfl

/-- An identifier is written as its version, its usage byte and the identifiers that it has. -/
theorem Parts.write_value (p : Parts) :
    naturalLength p.value = .ok p.bytes.length ∧
      ∀ position, write p.value position = .ok ((), p.bytes) := by
  have hids := p.idsOf_value
  have hpacked : (p.found.map (·.2)).filterMap id = p.found.filterMap (·.2) := List.filterMap_map
  constructor
  · refine except_bind_eq_ok.2 ⟨_, hids, ?_⟩
    rw [hpacked, ← p.fill.length_bytes, bytes, List.length_cons, List.length_cons, Nat.add_comm]
    rfl
  · refine fun position => Encoder.ofExcept_bind_eq_ok.2 ⟨p.sensor, rfl,
      Encoder.ofExcept_bind_eq_ok.2 ⟨p.platform, rfl, ?_⟩⟩
    rw [if_neg p.small]
    refine Encoder.ofExcept_bind_eq_ok.2 ⟨_, hids, Encoder.ofExcept_bind_eq_ok.2
      ⟨(), checkUsage_eq_ok p.present, Encoder.ofExcept_bind_eq_ok.2
        ⟨p.version.toUInt64, rfl, ?_⟩⟩⟩
    rw [usageByte_of_ids p.present, hpacked]
    exact Encoder.bind_eq_ok.2 ⟨(), [p.version], _, Integer.writeUnsigned_byte rfl position,
      Encoder.bind_eq_ok.2 ⟨(), _, _, rfl, each_emit _ _, rfl⟩, rfl⟩

/-- A usage byte without its first and its last bit, which say nothing. -/
def cleared (usage : UInt8) : UInt8 := UInt8.ofNat (usage.toNat % 0x80 - usage.toNat % 2)

theorem cleared_eq_self_iff {usage : UInt8} :
    cleared usage = usage ↔ usage.toNat < 0x80 ∧ usage.toNat % 2 = 0 := by
  have hlt := usage.toNat_lt
  rw [cleared, ← UInt8.toNat_inj, UInt8.toNat_ofNat']
  omega

/-- The bits of a usage byte that are read are the ones that are written. -/
theorem usageByte_bits (usage : UInt8) :
    UInt8.ofNat (usage.toNat / 2 ^ 5 % 4 * 2 ^ 5 + usage.toNat / 2 ^ 3 % 4 * 2 ^ 3 +
      (usage.toNat.testBit 2).toNat * 2 ^ 2 + (usage.toNat.testBit 1).toNat * 2) =
        cleared usage := by
  rw [Nat.toNat_testBit, Nat.toNat_testBit, cleared]
  congr 1
  omega

/-- What is read are the parts of an identifier, and a usage byte that they make up but for its
first and its last bit. -/
theorem read_spells : read.Spells fun v w => ∃ (p : Parts) (usage : UInt8), v = p.value ∧
    w = p.version :: usage :: p.found.bytes ∧ p.usage = cleared usage := by
  refine .bind .byte fun version w hw => .bind .byte fun usage w' hw' => ?_
  subst hw hw'
  refine (readIds_spells _).bind fun named w hw => .pure ?_
  obtain ⟨found, hfound, rfl, rfl⟩ := hw
  have hsmall : ∀ k < 4, (UInt64.ofNat k != 0) = (k != 0) ∧ ¬ 3 < UInt64.ofNat k ∧
      (UInt64.ofNat k).toNat = k := by decide
  obtain ⟨hsensor, hsensorSmall, hsensorValue⟩ :=
    hsmall (usage.toNat / 2 ^ 5 % 4) (Nat.mod_lt _ (by decide))
  obtain ⟨hplatform, hplatformSmall, hplatformValue⟩ :=
    hsmall (usage.toNat / 2 ^ 3 % 4) (Nat.mod_lt _ (by decide))
  rw [← hsensor, ← hplatform] at hfound
  refine ⟨⟨version, _, _, _, _, found, hfound, not_or.2 ⟨hsensorSmall, hplatformSmall⟩⟩, usage,
    rfl, by simp, ?_⟩
  rw [Parts.usage]
  dsimp only
  rw [hsensorValue, hplatformValue, usageByte_bits]

end Identity

/-- An identifier is written as it was read, but for the two bits of its usage byte that say
nothing: they are cleared. -/
theorem Codec.identity_rewrites {data : Bytes} {fields : List (String × Value)}
    (h : identity.onField data = .ok (.record fields)) :
    ∃ version usage rest, data = version :: usage :: rest ∧
      identity.Rewrites (.record fields) data (version :: Identity.cleared usage :: rest) := by
  rcases onField_spells h Identity.read_spells with
    ⟨-, hempty⟩ | hblob | ⟨-, p, usage, hvalue, hdata, husage⟩
  · cases hempty
  · cases hblob
  · obtain ⟨hnatural, hwrite⟩ := p.write_value
    rw [Identity.Parts.bytes, husage] at hnatural hwrite
    have hlength : data.length =
        (p.version :: Identity.cleared usage :: p.found.bytes).length := by
      rw [hdata]
      rfl
    refine ⟨p.version, usage, p.found.bytes, hdata, ?_⟩
    rw [hvalue]
    exact ⟨hlength ▸ hintedLength_of_fieldLength (hlength ▸ hnatural), written_of_write rfl hwrite⟩

/-- So it comes back if its usage byte has no other bits than those that say something. -/
theorem Codec.identity_restores {data : Bytes} {fields : List (String × Value)}
    (h : identity.onField data = .ok (.record fields))
    (husage : ∀ usage ∈ data[1]?, usage.toNat < 0x80 ∧ usage.toNat % 2 = 0) :
    identity.Restores (.record fields) data := by
  obtain ⟨version, usage, rest, rfl, hrewrites⟩ := identity_rewrites h
  have hcleared := Identity.cleared_eq_self_iff.2 (husage usage rfl)
  exact hrewrites.restores_iff.2 (by rw [hcleared])

/-! ## All of them -/

/-- The packs of a few numbers, identifiers or texts. -/
inductive SmallPack where
  | identity
  | metricImplementer
  | windowCorners
  | metricPeriod
  | userData
  | rangeEnumerations
  | detectorIndex
deriving DecidableEq

namespace SmallPack

def codec : SmallPack → Codec
  | identity => .identity
  | metricImplementer => .metricImplementer
  | windowCorners => .windowCorners
  | metricPeriod => .metricPeriod
  | userData => .userData
  | rangeEnumerations => .rangeEnumerations
  | detectorIndex => .detectorIndex

/-- A pack that was read is written as it was. Only corners are put in their shortest form, a
separator that ends an implementer is left out, and the first and the last bit of the usage
byte of an identifier are cleared. -/
theorem read_then_write {p : SmallPack} {data : Bytes} {fields : List (String × Value)}
    (h : p.codec.onField data = .ok (.record fields)) :
    match p with
    | windowCorners => ∃ corners : List (String × Tag),
        corners.map (·.1) = WindowCorners.fields ∧ fields = Value.ofItems .uint corners ∧
        p.codec.Rewrites (.record fields) data (WindowCorners.shortest corners) ∧
        (p.codec.Restores (.record fields) data ↔ data = WindowCorners.shortest corners)
    | metricImplementer =>
        (∀ before, 0x1E ∉ before → data = before ++ [0x1E] →
          p.codec.Rewrites (.record fields) data before) ∧
        ((∀ before, 0x1E ∉ before → data ≠ before ++ [0x1E]) →
          p.codec.Restores (.record fields) data)
    | identity =>
        (∃ version usage rest, data = version :: usage :: rest ∧
          p.codec.Rewrites (.record fields) data (version :: Identity.cleared usage :: rest)) ∧
        ((∀ usage ∈ data[1]?, usage.toNat < 0x80 ∧ usage.toNat % 2 = 0) →
          p.codec.Restores (.record fields) data)
    | _ => p.codec.Restores (.record fields) data := by
  cases p with
  | identity => exact ⟨Codec.identity_rewrites h, Codec.identity_restores h⟩
  | metricImplementer => exact Codec.metricImplementer_restores h
  | windowCorners =>
      obtain ⟨corners, hnames, hfields, hrewrites⟩ := Codec.windowCorners_rewrites h rfl
      injection hfields with hfields
      exact ⟨corners, hnames, hfields, hrewrites, hrewrites.restores_iff.trans eq_comm⟩
  | metricPeriod => exact Codec.metricPeriod_restores h
  | userData => exact Codec.userData_restores h
  | rangeEnumerations => exact Codec.rangeEnumerations_restores h
  | detectorIndex => exact Codec.detectorIndex_restores h

/-- An identifier of nothing but a window comes back. -/
theorem windowOnly_read_then_write : Codec.identity.Restores
    (.record [("version", .uint 1), ("sensor_id_type", .uint 0), ("platform_id_type", .uint 0),
      ("sensor_id", .empty), ("platform_id", .empty),
      ("window_id", .blob (List.replicate 16 0xAB)), ("minor_id", .empty)])
    (0x01 :: 0x04 :: List.replicate 16 0xAB) := by
  refine (read_then_write (p := identity) rfl).2 fun usage husage => ?_
  obtain rfl := Option.some.inj husage
  decide

/-- An implementer that ends in its separator does not come back, and neither do corners of
which one has more bytes than it needs. -/
theorem separatorLast_notRestored :
    (Codec.metricImplementer.onField [0x4F, 0x52, 0x47, 0x1E] =
        .ok (.record [("organization", .string "ORG"), ("subgroup", .string "")]) ∧
      ¬ Codec.metricImplementer.Restores
        (.record [("organization", .string "ORG"), ("subgroup", .string "")])
        [0x4F, 0x52, 0x47, 0x1E]) ∧
    (Codec.windowCorners.onField [0x80, 0x01, 0x02, 0x03, 0x04] =
        .ok (.record [("upper_left_row", .uint 1), ("upper_left_column", .uint 2),
          ("lower_right_row", .uint 3), ("lower_right_column", .uint 4)]) ∧
      ¬ Codec.windowCorners.Restores
        (.record [("upper_left_row", .uint 1), ("upper_left_column", .uint 2),
          ("lower_right_row", .uint 3), ("lower_right_column", .uint 4)])
        [0x80, 0x01, 0x02, 0x03, 0x04]) := by
  refine ⟨⟨?_, fun h => ?_⟩, ?_, fun h => ?_⟩
  · exact Codec.metricImplementer_onField (show "ORG\u001E".toList ≠ [] by decide)
  · have hlength : Codec.metricImplementer.hintedLength
        (.record [("organization", .string "ORG"), ("subgroup", .string "")]) (some 4) =
          .ok 3 := rfl
    cases hlength.symm.trans h.hinted
  · rfl
  · cases h.hinted

end SmallPack

end MotionMetadata
