import MotionMetadata.Proofs.Untouched

/-!
# Every way to spell a key or a length

What is written is one spelling of many. A reader takes leading zeros in the long form of a
length and empty groups at the start of a tag, and it stops by itself: where a key or a length
ends is decided by its own bytes. So reading one succeeds exactly if the bytes ahead begin
with a spelling, and no bytes begin with two of them. This is said here once for lengths and
once for each kind of key, and then for keys of any kind.
-/

namespace MotionMetadata

/-- Where what a reader knows ends is decided by its own bytes. -/
theorem Reader.Reads.unique {α : Type} {r : Reader α} {a a' : α} {data data' t t' : Bytes}
    (h : r.Reads data a) (h' : r.Reads data' a') (heq : data ++ t = data' ++ t') :
    a' = a ∧ data' = data ∧ t' = t := by
  have hread := h (Cursor.ofBytes (data ++ t)) t rfl
  rw [h' (Cursor.ofBytes (data ++ t)) t' heq] at hread
  injection hread with ha hd
  have hlength : data.length = data'.length := by
    simpa using (congrArg Cursor.consumed hd).symm
  obtain ⟨hdata, ht⟩ := List.append_inj heq hlength
  exact ⟨ha, hdata.symm, ht.symm⟩

/-- Strings that are made of parts with an end of their own are made of them in one way. -/
theorem flatMap_injective {α : Type} {P : α → Prop} {bytes : α → Bytes}
    (hne : ∀ a, P a → bytes a ≠ [])
    (hends : ∀ {a a' t t'}, P a → P a' → bytes a ++ t = bytes a' ++ t' → a' = a ∧ t' = t)
    {parts parts' : List α} (h : ∀ a ∈ parts, P a) (h' : ∀ a ∈ parts', P a)
    (heq : parts.flatMap bytes = parts'.flatMap bytes) : parts' = parts := by
  induction parts generalizing parts' with
  | nil =>
      match parts', heq with
      | [], _ => rfl
      | a' :: rest', heq =>
          rw [List.flatMap_nil, List.flatMap_cons, eq_comm, List.append_eq_nil_iff] at heq
          exact absurd heq.1 (hne a' (h' a' (List.mem_cons_self ..)))
  | cons a rest ih =>
      obtain ⟨ha, hrest⟩ := List.forall_mem_cons.1 h
      match parts', heq with
      | [], heq =>
          rw [List.flatMap_nil, List.flatMap_cons, List.append_eq_nil_iff] at heq
          exact absurd heq.1 (hne a ha)
      | a' :: rest', heq =>
          obtain ⟨ha', hrest'⟩ := List.forall_mem_cons.1 h'
          rw [List.flatMap_cons, List.flatMap_cons] at heq
          obtain ⟨rfl, hmore⟩ := hends ha ha' heq
          rw [ih hrest hrest' hmore.symm]

namespace Ber

/-! ## Lengths -/

/-- The byte strings that are read as a length. -/
inductive LengthSpelling : Nat → Bytes → Prop where
  | short (b : UInt8) (h : b.toNat < 0x80) : LengthSpelling b.toNat [b]
  /-- The number of digits and the digits, whatever the first of them is. -/
  | long (lead : UInt8) (digits : Bytes) (hlead : lead.toNat = 0x80 + digits.length)
      (hpos : 1 ≤ digits.length) (hcount : digits.length ≤ 8) :
      LengthSpelling (BigEndian.value digits) (lead :: digits)

theorem LengthSpelling.ne_nil {n : Nat} {data : Bytes} (h : LengthSpelling n data) :
    data ≠ [] := by
  cases h <;> simp

theorem LengthSpelling.lt {n : Nat} {data : Bytes} (h : LengthSpelling n data) : n < 2 ^ 64 := by
  cases h with
  | short b hb => omega
  | long lead digits _ _ hcount =>
      refine Nat.lt_of_lt_of_le (BigEndian.value_lt digits) ?_
      exact Nat.pow_le_pow_right (by decide) hcount

theorem LengthSpelling.reads {n : Nat} {data : Bytes} (h : LengthSpelling n data) :
    Reader.Reads readLength data (UInt64.ofNat n) := by
  refine .restoring (.position_bind fun start => ?_)
  cases h with
  | short b hb =>
      refine .bind_nil (Reader.Reads.byte b) ?_
      rw [if_pos hb]
      refine .of_eq (UInt64.toNat_inj.1 ?_) (.pure _)
      rw [UInt8.toNat_toUInt64, UInt64.toNat_ofNat']
      omega
  | long lead digits hlead hpos hcount =>
      refine Reader.Reads.bind (w := [lead]) (Reader.Reads.byte lead) ?_
      have hdigits : 0x80 + digits.length - 0x80 = digits.length := by omega
      rw [hlead, if_neg (by omega)]
      dsimp only
      rw [hdigits, if_pos (Integer.widthAllowed_iff.2 ⟨hpos, hcount⟩)]
      exact Integer.reads_value digits hpos hcount

theorem LengthSpelling.toNat {n : Nat} {data : Bytes} (h : LengthSpelling n data) :
    (UInt64.ofNat n).toNat = n := by
  rw [UInt64.toNat_ofNat']
  exact Nat.mod_eq_of_lt h.lt

/-- A length is read exactly off a spelling of it. -/
theorem readLength_eq_ok {c d : Cursor} {v : UInt64} :
    readLength c = .ok v d ↔
      ∃ spelling t, LengthSpelling v.toNat spelling ∧ c.rest = spelling ++ t ∧
        d = c.advance spelling.length := by
  constructor
  · intro h
    rw [readLength, Reader.restoring_eq_ok, Reader.bind_of_ok (Reader.position_apply c)] at h
    obtain ⟨lead, c', hbyte, h⟩ := Reader.bind_eq_ok.1 h
    obtain ⟨bytes, c'', htake, hpure⟩ := Reader.bind_eq_ok.1 hbyte
    obtain ⟨hone, rfl, rfl⟩ := Reader.take_eq_ok.1 htake
    injection hpure with hlead hc'
    subst hc'
    cases hrest : c.rest with
    | nil =>
        rw [hrest] at hone
        cases hone
    | cons b rest =>
        rw [hrest] at hlead
        have hb : b = lead := hlead
        subst hb
        split at h
        · next hshort =>
            injection h with hv hd
            refine ⟨[b], rest, ?_, rfl, hd.symm⟩
            rw [← hv, UInt8.toNat_toUInt64]
            exact .short b hshort
        · next hlong =>
            dsimp only at h
            split at h
            · next hwidth =>
                obtain ⟨hpos, hcount⟩ := Integer.widthAllowed_iff.1 hwidth
                obtain ⟨_, hle, hv, hd⟩ := Integer.readUnsigned_eq_ok.1 h
                have hafter : (c.advance 1).rest = rest := by
                  rw [Cursor.rest_advance, hrest]
                  rfl
                rw [hafter] at hle hv
                have hdigits : (rest.take (b.toNat - 0x80)).length = b.toNat - 0x80 :=
                  List.length_take_of_le hle
                refine ⟨b :: rest.take (b.toNat - 0x80), rest.drop (b.toNat - 0x80), ?_, ?_, ?_⟩
                · rw [hv, Integer.toNat_value_of_le (by omega)]
                  exact .long b _ (by omega) (by omega) (by omega)
                · rw [List.cons_append, List.take_append_drop]
                · rw [hd, Cursor.advance_advance, List.length_cons, hdigits, Nat.add_comm]
            · cases h
  · rintro ⟨spelling, t, hspelling, hc, rfl⟩
    rw [hspelling.reads c t hc, UInt64.ofNat_toNat]

/-- What is written as a length is a spelling of it. -/
theorem lengthBytes_spells (value : UInt64) :
    LengthSpelling value.toNat (lengthBytes value) := by
  rw [lengthBytes]
  split
  · next hshort =>
      have hbyte : value.toUInt8.toNat = value.toNat := by
        rw [UInt64.toNat_toUInt8]
        omega
      rw [← hbyte] at hshort
      exact hbyte ▸ .short value.toUInt8 hshort
  · next hlong =>
      dsimp only
      have hwidth := Integer.unsignedWidth_le_eight value
      have hfits := (Integer.unsignedWidth_le_iff.1 (Nat.le_refl (Integer.unsignedWidth value))).2
      have hlength := BigEndian.length_bytes (Integer.unsignedWidth value) value.toNat
      have hvalue := BigEndian.value_bytes (Integer.unsignedWidth value) value.toNat
      rw [Nat.mod_eq_of_lt hfits] at hvalue
      rw [← hvalue]
      refine hvalue.symm ▸ .long _ _ ?_ ?_ ?_
      · rw [hlength, UInt8.toNat_ofNat']
        omega
      · rw [hlength]
        exact Integer.one_le_unsignedWidth value
      · rw [hlength]
        exact hwidth

/-! ## Tags -/

/-- The byte strings that are read as a tag: at most eight groups, each marked as continued
but the last. -/
inductive TagSpelling : Tag → Bytes → Prop where
  | groups (front : Bytes) (last : UInt8) (hcount : front.length < maxTagWidth)
      (hfront : ∀ b ∈ front, 0x80 ≤ b.toNat) (hlast : last.toNat < 0x80) :
      TagSpelling (UInt64.ofNat (groupsValue (front ++ [last]))) (front ++ [last])

theorem TagSpelling.ne_nil {v : Tag} {data : Bytes} (h : TagSpelling v data) : data ≠ [] := by
  cases h
  simp

theorem scanTag_groups {limit : Nat} {front rest : Bytes} {last : UInt8}
    (hcount : front.length < limit) (hfront : ∀ b ∈ front, 0x80 ≤ b.toNat)
    (hlast : last.toNat < 0x80) (high : Nat) :
    scanTag limit high (front ++ last :: rest) =
      some ((front ++ [last]).foldl (fun high b => high * 128 + b.toNat % 128) high,
        front.length + 1) := by
  induction front generalizing limit high with
  | nil =>
      obtain ⟨limit, rfl⟩ : ∃ n, limit = n + 1 := ⟨limit - 1, by simp at hcount; omega⟩
      rw [List.nil_append, scanTag]
      dsimp only
      rw [if_pos hlast]
      rfl
  | cons b front ih =>
      rw [List.length_cons] at hcount
      obtain ⟨limit, rfl⟩ : ∃ n, limit = n + 1 := ⟨limit - 1, by omega⟩
      have hb := hfront b (List.mem_cons_self ..)
      rw [List.cons_append, scanTag]
      dsimp only
      rw [if_neg (by omega), ih (by omega) fun b' hb' => hfront b' (List.mem_cons_of_mem _ hb')]
      rfl

/-- A tag is read exactly off a spelling of it. -/
theorem readTag_iff_spelling {c d : Cursor} {v : Tag} :
    readTag c = .ok v d ↔
      ∃ spelling t, TagSpelling v spelling ∧ c.rest = spelling ++ t ∧
        d = c.advance spelling.length := by
  rw [readTag_eq_ok]
  constructor
  · rintro ⟨value, width, hscan, rfl, rfl⟩
    obtain ⟨front, last, rest, hrest, rfl, hle, hfront, hlast, hvalue⟩ := scanTag_eq_some hscan
    rw [Nat.zero_mul, Nat.zero_add] at hvalue
    refine ⟨front ++ [last], rest, ?_, by rw [hrest, List.append_assoc]; rfl, by simp⟩
    exact hvalue ▸ .groups front last hle hfront hlast
  · rintro ⟨spelling, t, hspelling, hc, rfl⟩
    cases hspelling with
    | groups front last hcount hfront hlast =>
        refine ⟨groupsValue (front ++ [last]), front.length + 1, ?_, rfl, by simp⟩
        rw [hc, List.append_assoc]
        exact scanTag_groups hcount hfront hlast 0

theorem continuedGroups_continued {count high : Nat} :
    ∀ b ∈ continuedGroups count high, 0x80 ≤ b.toNat := by
  induction count generalizing high with
  | zero => simp [continuedGroups]
  | succ count ih =>
      intro b hb
      rw [continuedGroups, List.mem_append, List.mem_singleton] at hb
      rcases hb with hb | rfl
      · exact ih b hb
      · rw [UInt8.toNat_ofNat']
        omega

theorem groupsValue_continuedGroups (count high : Nat) :
    groupsValue (continuedGroups count high) = high % 128 ^ count := by
  induction count generalizing high with
  | zero => simp [continuedGroups, groupsValue, Nat.mod_one]
  | succ count ih =>
      have hbyte : (UInt8.ofNat (0x80 + high % 128)).toNat % 128 = high % 128 := by
        rw [UInt8.toNat_ofNat']
        omega
      rw [continuedGroups, groupsValue_concat, ih, hbyte, Nat.pow_succ, Nat.mul_comm (128 ^ count),
        Nat.mod_mul]
      omega

/-- What is written as a tag is a spelling of it. -/
theorem tagBytes_spells {v : Tag} (h : v.toNat < 2 ^ 56) : TagSpelling v (tagBytes v) := by
  have hwidth := tagWidth_le_iff_lt.2 h
  have hfits := tagWidth_le_iff.1 (Nat.le_refl (tagWidth v))
  have hlast : (UInt8.ofNat (v.toNat % 128)).toNat = v.toNat % 128 := by
    rw [UInt8.toNat_ofNat']
    omega
  have hpow : 128 ^ tagWidth v = 128 ^ (tagWidth v - 1) * 128 := by
    rw [← Nat.pow_succ]
    congr 1
    omega
  have hvalue : groupsValue (tagBytes v) = v.toNat := by
    rw [tagBytes, groupsValue_concat, groupsValue_continuedGroups, hlast, Nat.mod_eq_of_lt]
    · omega
    · rw [Nat.div_lt_iff_lt_mul (by decide), ← hpow]
      exact hfits.2
  have hspelling : TagSpelling (UInt64.ofNat (groupsValue (tagBytes v))) (tagBytes v) := by
    refine .groups _ _ ?_ continuedGroups_continued (by omega)
    rw [length_continuedGroups]
    omega
  rwa [hvalue, UInt64.ofNat_toNat] at hspelling

theorem reads_writeTag {v : UInt64} {position : Nat} {bytes : Bytes}
    (h : writeTag v position = .ok ((), bytes)) : Reader.Reads readTag bytes v := by
  obtain ⟨hlt, rfl⟩ := writeTag_eq_ok.1 h
  intro c t hc
  exact readTag_iff_spelling.2 ⟨_, t, tagBytes_spells hlt, hc, rfl⟩

theorem reads_tagBytes {v : UInt64} (h : v.toNat < 2 ^ 56) :
    Reader.Reads readTag (tagBytes v) v := by
  have hwrite : writeTag v 0 = .ok ((), tagBytes v) := writeTag_eq_ok.2 ⟨h, rfl⟩
  exact reads_writeTag hwrite

theorem length_pos_of_writeTag {v : UInt64} {position : Nat} {bytes : Bytes}
    (h : writeTag v position = .ok ((), bytes)) : 0 < bytes.length := by
  obtain ⟨hlt, rfl⟩ := writeTag_eq_ok.1 h
  exact List.length_pos_iff.2 (tagBytes_spells hlt).ne_nil

/-! ## The shortest spelling -/

/-- No spelling of a length is shorter than the one that is written. -/
theorem LengthSpelling.lengthWidth_le {v : UInt64} {data : Bytes}
    (h : LengthSpelling v.toNat data) : lengthWidth v ≤ data.length := by
  generalize hv : v.toNat = n at h
  cases h with
  | short b hb =>
      rw [lengthWidth, hv, if_pos hb]
      exact Nat.le_refl 1
  | long lead digits _ hpos _ =>
      rw [lengthWidth, List.length_cons]
      split
      · exact Nat.le_add_left 1 _
      · have hwidth : Integer.unsignedWidth v ≤ digits.length :=
          Integer.unsignedWidth_le_iff.2 ⟨hpos, hv ▸ BigEndian.value_lt digits⟩
        exact Nat.succ_le_succ hwidth

/-- No spelling of a tag is shorter than the one that is written. -/
theorem TagSpelling.tagWidth_le {v : Tag} {data : Bytes} (h : TagSpelling v data) :
    tagWidth v ≤ data.length := by
  cases h with
  | groups front last _ _ _ =>
      refine tagWidth_le_iff.2 ⟨by simp, ?_⟩
      rw [UInt64.toNat_ofNat']
      exact Nat.lt_of_le_of_lt (Nat.mod_le _ _) (groupsValue_lt _)

theorem TagSpelling.length_le {v : Tag} {data : Bytes} (h : TagSpelling v data) :
    data.length ≤ maxTagWidth := by
  cases h with
  | groups front last hcount _ _ =>
      rw [List.length_append, List.length_singleton]
      exact hcount

/-- A tag that is spelled in at most eight bytes is small enough to be written. -/
theorem TagSpelling.lt {v : Tag} {data : Bytes} (h : TagSpelling v data) : v.toNat < 2 ^ 56 :=
  tagWidth_le_iff_lt.1 (h.tagWidth_le.trans h.length_le)

/-- A length that is written is read back, whatever follows it, and so is a tag. All numbers of
64 bits are written as lengths, and those below `2 ^ 56` as tags. What is read as either, in
whatever spelling, can be written, and takes no more bytes then. -/
theorem lengths_and_tags_delimited (buffer : Bytes) :
    (∀ v : UInt64, ∃ w, (writeLength v.toNat).appendTo buffer = (.ok (), buffer ++ w) ∧
      w.length = lengthWidth v ∧ ∀ origin consumed t,
        readLength ⟨origin, consumed, w ++ t⟩ = .ok v ⟨origin, consumed + lengthWidth v, t⟩) ∧
    (∀ v : UInt64,
      ((∃ out, (writeTag v).appendTo buffer = (.ok (), out)) ↔ v.toNat < 2 ^ 56) ∧
      (∀ out, (writeTag v).appendTo buffer = (.ok (), out) → ∃ w, out = buffer ++ w ∧
        w.length = tagWidth v ∧ ∀ origin consumed t,
          readTag ⟨origin, consumed, w ++ t⟩ = .ok v ⟨origin, consumed + tagWidth v, t⟩) ∧
      ∀ e out, (writeTag v).appendTo buffer = (.error e, out) → out = buffer) ∧
    (∀ (c d : Cursor) (v : UInt64), readLength c = .ok v d →
      ∃ k w, k ≤ c.rest.length ∧ d = c.advance k ∧
        (writeLength v.toNat).appendTo buffer = (.ok (), buffer ++ w) ∧ w.length ≤ k) ∧
    (∀ (c d : Cursor) (v : UInt64), readTag c = .ok v d →
      ∃ k w, k ≤ c.rest.length ∧ d = c.advance k ∧
        (writeTag v).appendTo buffer = (.ok (), buffer ++ w) ∧ w.length ≤ k) := by
  have hlength : ∀ v : UInt64,
      (writeLength v.toNat).appendTo buffer = (.ok (), buffer ++ lengthBytes v) := by
    intro v
    rw [writeLength, UInt64.ofNat_toNat]
    rfl
  have htag : ∀ v : UInt64, v.toNat < 2 ^ 56 →
      (writeTag v).appendTo buffer = (.ok (), buffer ++ tagBytes v) := fun v hv =>
    Encoder.appendTo_eq_ok.2 ⟨(), _, writeTag_eq_ok.2 ⟨hv, rfl⟩, rfl⟩
  refine ⟨fun v => ⟨_, hlength v, length_lengthBytes v, fun origin consumed t => ?_⟩,
    fun v => ?_, fun c d v h => ?_, fun c d v h => ?_⟩
  · rw [reads_lengthBytes v _ t rfl, ← length_lengthBytes, Cursor.advance_append]
  · refine ⟨⟨?_, fun hv => ⟨_, htag v hv⟩⟩, fun out hwrite => ?_, fun e out hwrite => ?_⟩
    · rintro ⟨out, hwrite⟩
      obtain ⟨_, _, hwritten, _⟩ := Encoder.appendTo_eq_ok.1 hwrite
      exact (writeTag_eq_ok.1 hwritten).1
    · obtain ⟨_, _, hwritten, rfl⟩ := Encoder.appendTo_eq_ok.1 hwrite
      obtain ⟨hv, rfl⟩ := writeTag_eq_ok.1 hwritten
      refine ⟨_, rfl, length_tagBytes v, fun origin consumed t => ?_⟩
      rw [reads_tagBytes hv _ t rfl, ← length_tagBytes, Cursor.advance_append]
    · exact Encoder.eq_of_appendTo_error hwrite
  · obtain ⟨spelling, t, hspelling, hc, rfl⟩ := readLength_eq_ok.1 h
    refine ⟨_, _, by rw [hc]; simp, rfl, hlength v, ?_⟩
    rw [length_lengthBytes]
    exact hspelling.lengthWidth_le
  · obtain ⟨spelling, t, hspelling, hc, rfl⟩ := readTag_iff_spelling.1 h
    refine ⟨_, _, by rw [hc]; simp, rfl, htag v hspelling.lt, ?_⟩
    rw [length_tagBytes]
    exact hspelling.tagWidth_le

end Ber

/-! ## Keys -/

theorem UniversalKey.read_eq_ok {c d : Cursor} {key : UniversalKey} :
    UniversalKey.read c = .ok key d ↔
      ∃ t, c.rest = key.bytes ++ t ∧ d = c.advance key.bytes.length := by
  constructor
  · intro h
    rw [UniversalKey.read, Reader.bind_of_ok (Reader.position_apply c)] at h
    obtain ⟨bytes, c', htake, h⟩ := Reader.bind_eq_ok.1 h
    obtain ⟨hle, rfl, rfl⟩ := Reader.take_eq_ok.1 htake
    rw [ofBytes?, dif_pos (List.length_take_of_le hle)] at h
    injection h with hkey hd
    rw [← hkey, ← hd]
    refine ⟨c.rest.drop 16, (List.take_append_drop ..).symm, ?_⟩
    rw [List.length_take_of_le hle]
  · rintro ⟨t, hc, rfl⟩
    exact Packet.reads_key key c t hc

namespace FieldSet

/-- Keys with all of the spellings in which they are read. The one in which they are written
is among them. -/
class ReadableKey (κ : Type) [SetKey κ] extends LocalKey κ where
  Spells : κ → Bytes → Prop
  ne_nil {key : κ} {data : Bytes} : Spells key data → data ≠ []
  read_eq_ok {c d : Cursor} {key : κ} : SetKey.read c = .ok key d ↔
    ∃ spelling t, Spells key spelling ∧ c.rest = spelling ++ t ∧ d = c.advance spelling.length
  of_write {key : κ} {position : Nat} {data : Bytes} :
    SetKey.write key position = .ok ((), data) →
      Spells key data ∧ SetKey.width key = data.length

instance : ReadableKey Tag where
  Spells := Ber.TagSpelling
  ne_nil h := h.ne_nil
  read_eq_ok := Ber.readTag_iff_spelling
  of_write h := by
    obtain ⟨hlt, rfl⟩ := Ber.writeTag_eq_ok.1 h
    exact ⟨Ber.tagBytes_spells hlt, (Ber.length_tagBytes _).symm⟩

/-- A universal key is spelled by its own bytes alone. -/
instance : ReadableKey UniversalKey where
  Spells key data := data = key.bytes
  ne_nil {key data} h := by
    rw [h, ← List.length_pos_iff, key.length_eq]
    decide
  read_eq_ok {c d key} := by
    refine UniversalKey.read_eq_ok.trans ⟨fun ⟨t, hc, hd⟩ => ⟨key.bytes, t, rfl, hc, hd⟩, ?_⟩
    rintro ⟨_, t, rfl, hc, hd⟩
    exact ⟨t, hc, hd⟩
  of_write {key position data} h := by
    injection h with h
    injection h with _ h
    exact ⟨h.symm, h ▸ key.length_eq.symm⟩

theorem ReadableKey.reads {κ : Type} [SetKey κ] [ReadableKey κ] {key : κ} {data : Bytes}
    (h : ReadableKey.Spells key data) : Reader.Reads SetKey.read data key :=
  fun _ t hc => ReadableKey.read_eq_ok.2 ⟨data, t, h, hc, rfl⟩

end FieldSet

end MotionMetadata
