import MotionMetadata.Proofs.SmallPacks

/-!
# Small packs that are written are read

The other direction: a record is written, and what is read of the bytes is compared to it. The
writers ask for nothing but the fields by name, so a record may be of any shape, with other
fields in between. Most of them refuse what has no room in the pack, and then the reader finds
the fields again. Two refuse too little. A corner that is too large for the reader is written
in as many bytes as it takes, and the whole pack is kept as bytes when it is read. A separator
inside an organization is written like any other character, and the reader splits there.
-/

namespace MotionMetadata

namespace Value

/-- The record of some fields of a value. What the value leaves out is empty in it. -/
def restrict (v : Value) (names : List String) : Value :=
  .record (names.map fun name => (name, (v.field? name).getD .empty))

end Value

/-! ## Numbers in a fixed number of bytes -/

section Numbers

variable {v : Value} {position : Nat} {bytes : Bytes}

theorem MetricPeriod.reads_write (h : write v position = .ok ((), bytes)) :
    read.Reads bytes (v.restrict ["timestamp", "offset"]) := by
  obtain ⟨timestamp, htimestamp, h⟩ := Encoder.ofExcept_bind_eq_ok.1 h
  obtain ⟨_, first, rest, hfirst, hsecond, rfl⟩ := Encoder.bind_eq_ok.1 h
  obtain ⟨offset, hoffset, hrest⟩ := Encoder.ofExcept_bind_eq_ok.1 hsecond
  rw [Value.restrict, List.map_cons, List.map_singleton, Value.uintField_eq_ok htimestamp,
    Value.uintField_eq_ok hoffset]
  exact (Integer.reads_writeUnsigned hfirst).bind
    (.bind_nil (Integer.reads_writeUnsigned hrest) (.pure _))

theorem DetectorIndex.reads_write (h : write v position = .ok ((), bytes)) :
    read.Reads bytes (v.restrict ["row", "column"]) := by
  obtain ⟨row, hrow, h⟩ := Encoder.ofExcept_bind_eq_ok.1 h
  obtain ⟨_, first, rest, hfirst, hsecond, rfl⟩ := Encoder.bind_eq_ok.1 h
  obtain ⟨column, hcolumn, hrest⟩ := Encoder.ofExcept_bind_eq_ok.1 hsecond
  obtain ⟨b, rfl, hb⟩ := Integer.byte_of_writeUnsigned hfirst
  obtain ⟨b', rfl, hb'⟩ := Integer.byte_of_writeUnsigned hrest
  have hrow' : b.toUInt64 = row := UInt64.toNat_inj.1 hb
  have hcolumn' : b'.toUInt64 = column := UInt64.toNat_inj.1 hb'
  rw [Value.restrict, List.map_cons, List.map_singleton, Value.uintField_eq_ok hrow,
    Value.uintField_eq_ok hcolumn, ← hrow', ← hcolumn']
  exact (Reader.Reads.byte b).bind (.bind_nil (.byte b') (.pure _))

theorem UserData.reads_write (h : write v position = .ok ((), bytes)) :
    read.Reads bytes (v.restrict ["data_type", "id"]) := by
  obtain ⟨dataType, hdataType, h⟩ := Encoder.ofExcept_bind_eq_ok.1 h
  obtain ⟨id, hid, h⟩ := Encoder.ofExcept_bind_eq_ok.1 h
  split at h
  · cases h
  · next hsmall =>
      obtain ⟨b, rfl, hb⟩ := Integer.byte_of_writeUnsigned h
      simp only [UInt64.lt_iff_toNat_lt, UInt64.reduceToNat, not_or, Nat.not_lt] at hsmall
      simp only [UInt64.toNat_add, UInt64.toNat_mul, UInt64.reduceToNat] at hb
      have hdataType' : UInt64.ofNat (b.toNat / 64) = dataType := Integer.ofNat_eq (by omega)
      have hid' : UInt64.ofNat (b.toNat % 64) = id := Integer.ofNat_eq (by omega)
      rw [Value.restrict, List.map_cons, List.map_singleton, Value.uintField_eq_ok hdataType,
        Value.uintField_eq_ok hid, ← hdataType', ← hid']
      exact .bind_nil (.byte b) (.pure _)

theorem RangeEnumerations.reads_write (h : write v position = .ok ((), bytes)) :
    read.Reads bytes (v.restrict ["compression_method", "data_type", "source"]) := by
  obtain ⟨compression, hcompression, h⟩ := Encoder.ofExcept_bind_eq_ok.1 h
  obtain ⟨dataType, hdataType, h⟩ := Encoder.ofExcept_bind_eq_ok.1 h
  obtain ⟨source, hsource, h⟩ := Encoder.ofExcept_bind_eq_ok.1 h
  split at h
  · cases h
  · next hsmall =>
      refine .bind_nil (Ber.reads_writeTag h) ?_
      generalize hbits : source * 64 + dataType * 8 + compression = bits
      have hvalue := congrArg UInt64.toNat hbits
      simp only [UInt64.lt_iff_toNat_lt, UInt64.reduceToNat, not_or, Nat.not_lt] at hsmall
      simp only [UInt64.toNat_add, UInt64.toNat_mul, UInt64.reduceToNat] at hvalue
      have hcompression' : UInt64.ofNat (bits.toNat % 8) = compression :=
        Integer.ofNat_eq (by omega)
      have hdataType' : UInt64.ofNat (bits.toNat / 8 % 8) = dataType := Integer.ofNat_eq (by omega)
      have hsource' : UInt64.ofNat (bits.toNat / 64 % 2) = source := Integer.ofNat_eq (by omega)
      rw [Value.restrict, List.map_cons, List.map_cons, List.map_singleton,
        Value.uintField_eq_ok hcompression, Value.uintField_eq_ok hdataType,
        Value.uintField_eq_ok hsource, ← hcompression', ← hdataType', ← hsource']
      exact .pure _

end Numbers

/-! ## Corners -/

namespace WindowCorners

variable {corners : List (String × Tag)} {v : Value} {position : Nat} {bytes : Bytes}

/-- What is written are the shortest bytes of the corners. -/
theorem each_shortest {names : List String} (h : Encoder.each (fun name => do
      Ber.writeTag (← Encoder.ofExcept (v.uintField name))) names position = .ok ((), bytes)) :
    ∃ corners : List (String × Tag), corners.map (·.1) = names ∧
      (∀ i ∈ corners, v.field? i.1 = some (.uint i.2) ∧ i.2.toNat < 2 ^ 56) ∧
      bytes = shortest corners := by
  induction names generalizing position bytes with
  | nil =>
      injection h with h
      injection h with _ h
      exact ⟨[], rfl, nofun, h.symm⟩
  | cons name rest ih =>
      obtain ⟨_, first, others, hfirst, hothers, rfl⟩ := Encoder.bind_eq_ok.1 h
      obtain ⟨corner, hcorner, hwrite⟩ := Encoder.ofExcept_bind_eq_ok.1 hfirst
      obtain ⟨hlt, rfl⟩ := Ber.writeTag_eq_ok.1 hwrite
      obtain ⟨corners, rfl, hfields, rfl⟩ := ih hothers
      exact ⟨(name, corner) :: corners, rfl,
        List.forall_mem_cons.2 ⟨⟨Value.uintField_eq_ok hcorner, hlt⟩, hfields⟩, rfl⟩

theorem length_shortest (h : ∀ i ∈ corners, i.2.toNat ≤ 0xFFFF) :
    corners.length ≤ (shortest corners).length ∧
      (shortest corners).length ≤ 3 * corners.length := by
  induction corners with
  | nil => exact ⟨Nat.le_refl 0, Nat.le_refl 0⟩
  | cons i rest ih =>
      obtain ⟨hi, hrest⟩ := List.forall_mem_cons.1 h
      obtain ⟨hlow, hhigh⟩ := ih hrest
      have hpos : 1 ≤ Ber.tagWidth i.2 := Nat.le_max_left ..
      have hthree : Ber.tagWidth i.2 ≤ 3 := Ber.tagWidth_le_iff.2 ⟨by decide, by omega⟩
      rw [shortest] at hlow hhigh ⊢
      rw [List.flatMap_cons, List.length_append, Ber.length_tagBytes, List.length_cons]
      omega

theorem readCorners_shortest (h : ∀ i ∈ corners, i.2.toNat ≤ 0xFFFF) :
    (readCorners (corners.map (·.1))).Reads (shortest corners) (Value.ofItems .uint corners) := by
  induction corners with
  | nil => exact .pure _
  | cons i rest ih =>
      obtain ⟨hi, hrest⟩ := List.forall_mem_cons.1 h
      refine .bind (a := (i.1, Value.uint i.2)) ?_ (.bind_nil (ih hrest) (.pure _))
      refine .position_bind fun _ => .bind_nil (Ber.reads_tagBytes (by omega)) ?_
      dsimp only
      rw [if_neg (UInt64.not_lt.2 (UInt64.le_iff_toNat_le.2 hi))]
      exact .pure _

/-- The first corner that is too large ends the reading. -/
theorem readCorners_refused (h : ∀ i ∈ corners, i.2.toNat < 2 ^ 56)
    (hlarge : ∃ i ∈ corners, 0xFFFF < i.2.toNat) {c : Cursor} {t : Bytes}
    (hc : c.rest = shortest corners ++ t) :
    ∃ name corner offset d, readCorners (corners.map (·.1)) c =
      .error { fault := .cornerTooLarge name corner, offset := some offset } d := by
  induction corners generalizing c with
  | nil =>
      obtain ⟨i, hi, _⟩ := hlarge
      cases hi
  | cons i rest ih =>
      obtain ⟨hi, hrest⟩ := List.forall_mem_cons.1 h
      rw [shortest, List.flatMap_cons, List.append_assoc] at hc
      have htag := Ber.reads_tagBytes hi c _ hc
      rw [List.map_cons, readCorners]
      by_cases hfirst : 0xFFFF < i.2
      · refine ⟨i.1, i.2, c.position, c.advance (Ber.tagBytes i.2).length,
          Reader.bind_of_error ?_⟩
        rw [readCorner, Reader.bind_of_ok (Reader.position_apply c), Reader.bind_of_ok htag,
          if_pos hfirst]
        rfl
      · have hone : readCorner i.1 c =
            .ok (i.1, .uint i.2) (c.advance (Ber.tagBytes i.2).length) := by
          rw [readCorner, Reader.bind_of_ok (Reader.position_apply c), Reader.bind_of_ok htag,
            if_neg hfirst]
          rfl
        have hlater : ∃ j ∈ rest, 0xFFFF < j.2.toNat := by
          obtain ⟨j, hj, hlt⟩ := hlarge
          rcases List.mem_cons.1 hj with rfl | hj
          · exact absurd (UInt64.lt_iff_toNat_lt (a := 0xFFFF).2 hlt) hfirst
          · exact ⟨j, hj, hlt⟩
        obtain ⟨name, corner, offset, d, herror⟩ :=
          ih hrest hlater (Cursor.rest_advance_of_append hc)
        refine ⟨name, corner, offset, d, ?_⟩
        rw [Reader.bind_of_ok hone]
        exact Reader.bind_of_error herror

end WindowCorners

/-! ## Implementers -/

namespace MetricImplementer

variable {v : Value} {position : Nat} {bytes : Bytes}

theorem split_append {chars : List Char} (h : separator ∉ chars) (after : List Char) :
    split (chars ++ separator :: after) = (chars, some after) := by
  induction chars with
  | nil => rfl
  | cons c rest ih =>
      rw [List.mem_cons, not_or] at h
      rw [List.cons_append, split, if_neg (Ne.symm h.1), ih h.2]

theorem split_of_notMem {chars : List Char} (h : separator ∉ chars) :
    split chars = (chars, none) := by
  induction chars with
  | nil => rfl
  | cons c rest ih =>
      rw [List.mem_cons, not_or] at h
      rw [split, if_neg (Ne.symm h.1), ih h.2]

/-- What is written is the text of the organization and of the subgroup that there is. -/
theorem write_text (h : write v position = .ok ((), bytes)) :
    ∃ (organization text : String) (subgroup : Option String),
      v.field? "organization" = some (.string organization) ∧ subgroupOf v = .ok subgroup ∧
      bytes = Text.Utf8.encode text ∧
      text.toList = organization.toList ++ (match subgroup with
        | none => []
        | some s => separator :: s.toList) := by
  obtain ⟨organization, horganization, h⟩ := Encoder.ofExcept_bind_eq_ok.1 h
  obtain ⟨_, first, rest, hfirst, hsecond, rfl⟩ := Encoder.bind_eq_ok.1 h
  obtain ⟨subgroup, hsubgroup, hrest⟩ := Encoder.ofExcept_bind_eq_ok.1 hsecond
  injection hfirst with hfirst
  injection hfirst with _ hfirst
  refine ⟨organization, String.ofList (organization.toList ++ _), subgroup,
    Value.stringField_eq_ok horganization, hsubgroup, ?_, String.toList_ofList⟩
  rw [Text.Utf8.encode, String.toList_ofList, Text.Utf8.encodeChars_append, ← hfirst]
  cases subgroup <;>
  · injection hrest with hrest
    injection hrest with _ hrest
    rw [← hrest]
    rfl

end MetricImplementer

/-! ## Identifiers -/

namespace Identity

variable {v : Value} {position : Nat} {bytes : Bytes}

theorem idOf_answers {name : String} {id : Option Bytes} (h : idOf v name = .ok id) :
    (v.field? name).getD .empty = idValue id ∧ ∀ bytes ∈ id, bytes.length = uuidLength := by
  obtain ⟨content, hcontent, h⟩ := except_bind_eq_ok.1 h
  match v, hcontent with
  | .record fields, hcontent =>
      injection hcontent with hcontent
      subst hcontent
      cases hfield : (Value.record fields).field? name with
      | none =>
          rw [hfield] at h
          injection h with h
          subst h
          exact ⟨rfl, nofun⟩
      | some content =>
          rw [hfield] at h
          cases content with
          | empty =>
              injection h with h
              subst h
              exact ⟨rfl, nofun⟩
          | blob bytes =>
              by_cases hlength : bytes.length = uuidLength
              · replace h := (if_pos hlength).symm.trans h
                injection h with h
                subst h
                exact ⟨rfl, fun other hother => Option.some.inj hother ▸ hlength⟩
              · cases (if_neg hlength).symm.trans h
          | _ => cases h

theorem reads_ids {found : Ids} {items : List (String × Bool)} (h : found.Fill items) :
    (readIds items).Reads found.bytes (Value.ofItems idValue found) := by
  obtain ⟨rfl, hlengths⟩ := h
  induction found with
  | nil => exact .pure _
  | cons f rest ih =>
      obtain ⟨hf, hrest⟩ := List.forall_mem_cons.1 hlengths
      obtain ⟨name, id⟩ := f
      rw [List.map_cons, readIds]
      cases id with
      | none => exact .bind (w := []) (.pure Value.empty) (.bind_nil (ih hrest) (.pure _))
      | some bytes =>
          have htake := Reader.Reads.take bytes
          rw [hf bytes rfl] at htake
          exact .bind htake.map (.bind_nil (ih hrest) (.pure _))

/-- Types and identifiers that are written go together. -/
theorem of_checkUsage {sensor platform : UInt64} {first second third fourth : Option Bytes}
    (h : checkUsage sensor platform [first, second, third, fourth] = .ok ()) :
    (sensor != 0) = first.isSome ∧ (platform != 0) = second.isSome := by
  rw [checkUsage] at h
  split at h
  · cases h
  · next hsame => simpa [bne] using hsame

/-- A usage byte says what it was made from. -/
theorem usageByte_says : ∀ sensor < 4, ∀ platform < 4, ∀ window minor : Bool, ∀ usage,
    usage = (UInt8.ofNat (sensor * 2 ^ 5 + platform * 2 ^ 3 + window.toNat * 2 ^ 2 +
      minor.toNat * 2)).toNat →
    usage / 2 ^ 5 % 4 = sensor ∧ usage / 2 ^ 3 % 4 = platform ∧ usage.testBit 2 = window ∧
      usage.testBit 1 = minor := by
  simp only [forall_eq]
  decide

/-- An identifier is read from what it is written as. -/
theorem Parts.reads (p : Parts) : read.Reads p.bytes p.value := by
  have hbne : ∀ t : UInt64, (t.toNat != 0) = (t != 0) := by
    intro t
    rw [Bool.eq_iff_iff, bne_iff_ne, bne_iff_ne, ne_eq, ne_eq, ← UInt64.toNat_inj]
    rfl
  have hsmall := p.small
  simp only [UInt64.lt_iff_toNat_lt, UInt64.reduceToNat, not_or, Nat.not_lt] at hsmall
  obtain ⟨hsensor, hplatform, hwindow, hminor⟩ := usageByte_says p.sensor.toNat (by omega)
    p.platform.toNat (by omega) p.window p.minor p.usage.toNat rfl
  refine .bind (w := [p.version]) (.byte _) (.bind (w := [p.usage]) (.byte _) ?_)
  dsimp only
  rw [hsensor, hplatform, hwindow, hminor, hbne, hbne, UInt64.ofNat_toNat, UInt64.ofNat_toNat]
  exact .bind_nil (reads_ids p.fill) (.pure _)

/-- What is written are the version, the usage and the identifiers that the fields hold. -/
theorem parts_of_write (h : write v position = .ok ((), bytes)) :
    ∃ p : Parts, v.restrict (["version", "sensor_id_type", "platform_id_type"] ++ idFields) =
      p.value ∧ bytes = p.bytes := by
  obtain ⟨sensor, hsensor, h⟩ := Encoder.ofExcept_bind_eq_ok.1 h
  obtain ⟨platform, hplatform, h⟩ := Encoder.ofExcept_bind_eq_ok.1 h
  split at h
  · cases h
  next hsmall =>
  obtain ⟨ids, hids, h⟩ := Encoder.ofExcept_bind_eq_ok.1 h
  obtain ⟨_, hcheck, h⟩ := Encoder.ofExcept_bind_eq_ok.1 h
  obtain ⟨version, hversion, h⟩ := Encoder.ofExcept_bind_eq_ok.1 h
  obtain ⟨_, first, others, hfirst, hothers, rfl⟩ := Encoder.bind_eq_ok.1 h
  obtain ⟨_, second, rest, hsecond, hrest, rfl⟩ := Encoder.bind_eq_ok.1 hothers
  rw [each_emit] at hrest
  injection hsecond with hsecond
  injection hrest with hrest
  injection hsecond with _ hsecond
  injection hrest with _ hrest
  subst hsecond hrest
  obtain ⟨b, rfl, hb⟩ := Integer.byte_of_writeUnsigned hfirst
  have hb' : b.toUInt64 = version := UInt64.toNat_inj.1 hb
  match ids, except_mapM_eq_ok.1 hids with
  | [first, second, third, fourth], .cons h1 (.cons h2 (.cons h3 (.cons h4 .nil))) =>
      obtain ⟨hfirst, hfirstLength⟩ := idOf_answers h1
      obtain ⟨hsecond, hsecondLength⟩ := idOf_answers h2
      obtain ⟨hthird, hthirdLength⟩ := idOf_answers h3
      obtain ⟨hfourth, hfourthLength⟩ := idOf_answers h4
      obtain ⟨hsensorSome, hplatformSome⟩ := of_checkUsage hcheck
      have hfill : Ids.Fill (idFields.zip [first, second, third, fourth])
          (idFields.zip [sensor != 0, platform != 0, third.isSome, fourth.isSome]) := by
        rw [hsensorSome, hplatformSome]
        exact .cons hfirstLength (.cons hsecondLength (.cons hthirdLength
          (.cons hfourthLength ⟨rfl, List.forall_mem_nil _⟩)))
      refine ⟨⟨b, sensor, platform, _, _, _, hfill, hsmall⟩, ?_, ?_⟩
      · rw [Value.restrict]
        simp only [idFields, List.cons_append, List.nil_append, List.map_cons, List.map_nil,
          Value.uintField_eq_ok hsensor, Value.uintField_eq_ok hplatform,
          Value.uintField_eq_ok hversion, hfirst, hsecond, hthird, hfourth, Option.getD_some,
          hb'.symm]
        rfl
      · rw [usageByte_of_ids rfl]
        rfl

end Identity

/-! ## Fields of one kind -/

namespace Codec

variable {codec : Codec} {v back : Value} {data bytes : Bytes} {n position : Nat}

/-- A pack of one length is read if its reader undoes its writer. -/
theorem onField_of_written (hv : v.isDecoded) (hfixed : codec.constraint.fixedLength.isSome)
    (hlength : codec.fieldLength v = .ok n)
    (h : codec.writeField v n position = .ok ((), bytes)) (hne : bytes ≠ [])
    (hread : codec.write v n position = .ok ((), bytes) →
      (codec.read bytes.length).Reads bytes back) :
    codec.onField bytes = .ok back := by
  obtain ⟨hwrite, rfl⟩ := write_of_writeField hv h
  obtain ⟨fixed, hfixed⟩ := Option.isSome_iff_exists.1 hfixed
  rw [fieldLength_of_isDecoded hv, hfixed] at hlength
  injection hlength with hlength
  refine onField_of_reads hne ?_ (hread hwrite)
  rw [← hlength]
  exact LengthConstraint.allows_of_fixedLength hfixed

end Codec

/-! ## All of them -/

namespace SmallPack

/-- What there is to read back of a value: the fields of the pack. What is left out is empty. A
subgroup that is the empty text counts as an absent one: nothing is written of either, so both
are `Value.empty` here. -/
def view : SmallPack → Value → Value
  | identity, v =>
      v.restrict (["version", "sensor_id_type", "platform_id_type"] ++ Identity.idFields)
  | metricImplementer, v => .record [("organization", (v.field? "organization").getD .empty),
      ("subgroup", match MetricImplementer.subgroupOf v with
        | .ok (some s) => .string s
        | _ => .empty)]
  | windowCorners, v => v.restrict WindowCorners.fields
  | metricPeriod, v => v.restrict ["timestamp", "offset"]
  | userData, v => v.restrict ["data_type", "id"]
  | rangeEnumerations, v => v.restrict ["compression_method", "data_type", "source"]
  | detectorIndex, v => v.restrict ["row", "column"]

/-- What the reader of a pack asks for and its writer does not: corners of 16 bits, and an
organization without a separator in it. -/
def Readable : SmallPack → Value → Prop
  | windowCorners, v => ∀ name ∈ WindowCorners.fields, ∀ corner,
      v.field? name = some (.uint corner) → corner.toNat ≤ 0xFFFF
  | metricImplementer, v => ∀ organization, v.field? "organization" = some (.string organization) →
      MetricImplementer.separator ∉ organization.toList
  | _, _ => True

variable {v : Value} {n position : Nat} {bytes : Bytes}

/-- Corners of 16 bits are read, and others are kept as the bytes that they were written as. -/
theorem windowCorners_read (hv : v.isDecoded)
    (h : Codec.windowCorners.writeField v n position = .ok ((), bytes)) (hne : bytes ≠ []) :
    (windowCorners.Readable v → Codec.windowCorners.onField bytes = .ok (windowCorners.view v)) ∧
      (¬ windowCorners.Readable v → Codec.windowCorners.onField bytes = .ok (.blob bytes)) := by
  obtain ⟨hwrite, -⟩ := Codec.write_of_writeField hv h
  obtain ⟨corners, hnames, hfields, rfl⟩ := WindowCorners.each_shortest hwrite
  have hreadable : windowCorners.Readable v ↔ ∀ i ∈ corners, i.2.toNat ≤ 0xFFFF := by
    rw [Readable, ← hnames, List.forall_mem_map]
    refine forall₂_congr fun i hi => ?_
    rw [(hfields i hi).1]
    simp
  have hview : windowCorners.view v = .record (Value.ofItems .uint corners) := by
    rw [view, Value.restrict, ← hnames, List.map_map, Value.ofItems]
    refine congrArg Value.record (List.map_congr_left fun i hi => ?_)
    rw [Function.comp_apply, (hfields i hi).1]
    rfl
  rw [hreadable, hview]
  constructor
  · intro hsmall
    have hfour : corners.length = 4 := by
      rw [← List.length_map, hnames]
      rfl
    obtain ⟨hlow, hhigh⟩ := WindowCorners.length_shortest hsmall
    have hallows : Codec.windowCorners.constraint.allows (WindowCorners.shortest corners).length :=
      LengthConstraint.allows_between.2 (by omega)
    have hread := WindowCorners.readCorners_shortest hsmall
    rw [hnames] at hread
    exact Codec.onField_of_reads hne hallows (.bind_nil hread (.pure _))
  · intro hlarge
    simp only [not_forall, exists_prop, Nat.not_le] at hlarge
    refine Codec.onField_of_refused hne fun c hc => ?_
    rw [← List.append_nil (WindowCorners.shortest corners)] at hc
    obtain ⟨name, corner, offset, d, herror⟩ :=
      WindowCorners.readCorners_refused (fun i hi => (hfields i hi).2) hlarge hc
    rw [hnames] at herror
    exact ⟨_, d, Reader.bind_of_error herror, nofun⟩

/-- An implementer is split at the first separator, so its organization may have none. -/
theorem metricImplementer_comes_back_iff (hv : v.isDecoded)
    (h : Codec.metricImplementer.writeField v n position = .ok ((), bytes)) (hne : bytes ≠ []) :
    Codec.metricImplementer.onField bytes = .ok (metricImplementer.view v) ↔
      metricImplementer.Readable v := by
  obtain ⟨hwrite, -⟩ := Codec.write_of_writeField hv h
  obtain ⟨organization, text, subgroup, horganization, hsubgroup, rfl, htext⟩ :=
    MetricImplementer.write_text hwrite
  have hsome : text.toList ≠ [] := by
    intro hnil
    rw [Text.Utf8.encode, hnil] at hne
    exact hne rfl
  have hreadable : metricImplementer.Readable v ↔
      MetricImplementer.separator ∉ organization.toList := by
    rw [Readable, horganization]
    simp
  rw [Codec.metricImplementer_onField hsome, hreadable, view, horganization, hsubgroup]
  constructor
  · intro hback
    injection hback with hback
    injection hback with hback
    have horganization := congrArg Prod.snd (List.cons.inj hback).1
    injection horganization with hsame
    rw [← hsame, String.toList_ofList]
    exact (MetricImplementer.split_spec _).1
  · intro hnone
    cases subgroup with
    | none =>
        rw [List.append_nil] at htext
        rw [htext, MetricImplementer.split_of_notMem hnone, MetricImplementer.ofParts,
          String.ofList_toList]
        rfl
    | some s =>
        rw [htext, MetricImplementer.split_append hnone, MetricImplementer.ofParts]
        dsimp only
        rw [String.ofList_toList, String.ofList_toList]
        rfl

theorem identity_comes_back (hv : v.isDecoded)
    (h : Codec.identity.writeField v n position = .ok ((), bytes)) :
    Codec.identity.onField bytes = .ok (identity.view v) := by
  obtain ⟨hwrite, -⟩ := Codec.write_of_writeField hv h
  obtain ⟨p, hview, rfl⟩ := Identity.parts_of_write hwrite
  rw [view, hview]
  refine Codec.onField_of_reads (List.cons_ne_nil _ _) ?_ p.reads
  have hfour := congrArg List.length p.fill.names
  rw [List.length_map] at hfour
  have hfew : (p.found.filterMap (·.2)).length ≤ 4 := (List.length_filterMap_le _ _).trans hfour.le
  refine LengthConstraint.allows_between.2 ?_
  rw [Identity.Parts.bytes, List.length_cons, List.length_cons, p.fill.length_bytes,
    Identity.uuidLength]
  omega

/-- A pack that is written is read as the fields that it was written from exactly if these are
what its reader asks for. -/
theorem written_small_pack_comes_back_iff {p : SmallPack} {fields : List (String × Value)}
    (hlength : p.codec.fieldLength (.record fields) = .ok n)
    (hwrite : p.codec.writeField (.record fields) n position = .ok ((), bytes))
    (hne : bytes ≠ []) :
    p.codec.onField bytes = .ok (p.view (.record fields)) ↔ p.Readable (.record fields) := by
  cases p with
  | identity => exact iff_of_true (identity_comes_back rfl hwrite) trivial
  | metricImplementer => exact metricImplementer_comes_back_iff rfl hwrite hne
  | windowCorners =>
      obtain ⟨hread, hkept⟩ := windowCorners_read rfl hwrite hne
      refine ⟨fun hback => by_contra fun hlarge => ?_, hread⟩
      cases hback.symm.trans (hkept hlarge)
  | metricPeriod =>
      have hread := Codec.onField_of_written rfl rfl hlength hwrite hne MetricPeriod.reads_write
      exact iff_of_true hread trivial
  | userData =>
      have hread := Codec.onField_of_written rfl rfl hlength hwrite hne UserData.reads_write
      exact iff_of_true hread trivial
  | rangeEnumerations =>
      have hread :=
        Codec.onField_of_written rfl rfl hlength hwrite hne RangeEnumerations.reads_write
      exact iff_of_true hread trivial
  | detectorIndex =>
      have hread := Codec.onField_of_written rfl rfl hlength hwrite hne DetectorIndex.reads_write
      exact iff_of_true hread trivial

/-- A corner of 17 bits. -/
def wideCorners : List (String × Value) :=
  [("upper_left_row", .uint 0x10000), ("upper_left_column", .uint 1),
    ("lower_right_row", .uint 2), ("lower_right_column", .uint 3)]

/-- An organization that holds a separator. -/
def separatedOrganization : List (String × Value) := [("organization", .string "a\u001Eb")]

/-- Both are written, and neither is read as what was written. -/
theorem wideCorner_not_read :
    (windowCorners.codec.writeField (.record wideCorners) 6 0 =
        .ok ((), [0x84, 0x80, 0x00, 0x01, 0x02, 0x03]) ∧
      windowCorners.codec.onField [0x84, 0x80, 0x00, 0x01, 0x02, 0x03] ≠
        .ok (windowCorners.view (.record wideCorners))) ∧
    (metricImplementer.codec.writeField (.record separatedOrganization) 3 0 =
        .ok ((), [0x61, 0x1E, 0x62]) ∧
      metricImplementer.codec.onField [0x61, 0x1E, 0x62] ≠
        .ok (metricImplementer.view (.record separatedOrganization))) := by
  have hwide : windowCorners.codec.writeField (.record wideCorners) 6 0 =
      .ok ((), [0x84, 0x80, 0x00, 0x01, 0x02, 0x03]) := rfl
  have hseparated : metricImplementer.codec.writeField (.record separatedOrganization) 3 0 =
      .ok ((), [0x61, 0x1E, 0x62]) := rfl
  refine ⟨⟨hwide, fun hback => ?_⟩, hseparated, fun hback => ?_⟩
  · have hread := (written_small_pack_comes_back_iff rfl hwide (by decide)).1 hback
    exact absurd (hread "upper_left_row" (by decide) 0x10000 rfl) (by decide)
  · have hread := (written_small_pack_comes_back_iff rfl hseparated (by decide)).1 hback
    exact hread "a\u001Eb" rfl (by decide)

end SmallPack

end MotionMetadata
