import MotionMetadata.Ber
import MotionMetadata.Proofs.Integers

/-!
# Lengths and tags, there and back

A length or a tag can be spelled in more than one way: long forms may have leading zeros, and
so may tags. The library reads all of them and writes one. The lemmas say which one that is,
without using the writer to say it: the spelling in which no byte can be left out.
-/

namespace MotionMetadata.Ber

/-! ## Lengths -/

/-- The spellings of the length `n` that no byte can be left out of. -/
inductive IsLength (n : Nat) : Bytes → Prop where
  /-- One byte for itself. -/
  | short (h : n < 0x80) : IsLength n [UInt8.ofNat n]
  /-- The number of digits and the digits, the first of them not zero. -/
  | long (digits : Bytes) (hvalue : BigEndian.value digits = n) (hlarge : 0x80 ≤ n)
      (hcount : digits.length ≤ 8) (hlead : digits.head? ≠ some 0) :
      IsLength n (UInt8.ofNat (0x80 + digits.length) :: digits)

/-- Digits of which the first is not zero are as few as the number allows. -/
theorem unsignedWidth_value {digits : Bytes} (hpos : 1 ≤ digits.length)
    (hle : digits.length ≤ 8) (hlead : digits.head? ≠ some 0) :
    Integer.unsignedWidth (UInt64.ofNat (BigEndian.value digits)) = digits.length := by
  have hfits : Integer.unsignedWidth (UInt64.ofNat (BigEndian.value digits)) ≤
      digits.length := by
    rw [Integer.unsignedWidth_le_iff, Integer.toNat_value_of_le hle]
    exact ⟨hpos, BigEndian.value_lt digits⟩
  refine Nat.le_antisymm hfits (Nat.not_lt.1 fun hlt => ?_)
  have hone := Integer.one_le_unsignedWidth (UInt64.ofNat (BigEndian.value digits))
  have hsmall := (Integer.unsignedWidth_le_iff.1
    (Nat.le_pred_of_lt hlt)).2
  rw [Integer.toNat_value_of_le hle] at hsmall
  match digits, hlead with
  | [], _ => simp at hpos
  | b :: rest, hlead =>
      have hb : 1 ≤ b.toNat := by
        rw [Nat.one_le_iff_ne_zero]
        intro hzero
        exact hlead (congrArg some (UInt8.toNat_inj.1 hzero))
      rw [BigEndian.value_cons, List.length_cons, Nat.pred_succ] at hsmall
      have : 1 * 256 ^ rest.length ≤ b.toNat * 256 ^ rest.length := Nat.mul_le_mul_right _ hb
      omega

/-- The library writes the spelling that no byte can be left out of. -/
theorem IsLength.eq_lengthBytes {n : Nat} {data : Bytes} (h : IsLength n data) :
    data = lengthBytes (UInt64.ofNat n) := by
  cases h with
  | short hn =>
      have hnat : (UInt64.ofNat n).toNat = n := by
        rw [UInt64.toNat_ofNat']
        omega
      rw [lengthBytes, if_pos (by omega)]
      refine congrArg (fun b => [b]) (UInt8.toNat_inj.1 ?_)
      rw [UInt8.toNat_ofNat', UInt64.toNat_toUInt8, hnat]
  | long digits hvalue hlarge hcount hlead =>
      have hpos : 1 ≤ digits.length := by
        match digits, hvalue with
        | [], hvalue =>
            rw [BigEndian.value, List.foldl_nil] at hvalue
            omega
        | b :: rest, _ => simp
      have hnat : (UInt64.ofNat n).toNat = n := by
        rw [← hvalue]
        exact Integer.toNat_value_of_le hcount
      rw [lengthBytes, if_neg (by omega)]
      dsimp only
      rw [hnat, ← hvalue, unsignedWidth_value hpos hcount hlead, BigEndian.bytes_value]

theorem IsLength.lt {n : Nat} {data : Bytes} (h : IsLength n data) : n < 2 ^ 64 := by
  cases h with
  | short hn => omega
  | long digits hvalue hlarge hcount hlead =>
      rw [← hvalue]
      refine Nat.lt_of_lt_of_le (BigEndian.value_lt digits) ?_
      exact Nat.pow_le_pow_right (by decide) hcount

theorem length_lengthBytes (value : UInt64) : (lengthBytes value).length = lengthWidth value := by
  rw [lengthBytes, lengthWidth]
  split
  · rfl
  · rw [List.length_cons, BigEndian.length_bytes]

/-- What is written as a length is read back. -/
theorem reads_lengthBytes (value : UInt64) : Reader.Reads readLength (lengthBytes value) value := by
  rw [readLength, lengthBytes]
  refine .restoring (.position_bind fun start => ?_)
  split
  · next hsmall =>
      refine .bind_nil (Reader.Reads.byte _) ?_
      have hlead : value.toUInt8.toNat = value.toNat := by
        rw [UInt64.toNat_toUInt8]
        omega
      rw [hlead, if_pos hsmall]
      refine .of_eq (UInt64.toNat_inj.1 ?_) (.pure _)
      rw [UInt8.toNat_toUInt64, hlead]
  · next hlarge =>
      have hcount := Integer.unsignedWidth_le_eight value
      have hone := Integer.one_le_unsignedWidth value
      have hlead : (UInt8.ofNat (0x80 + Integer.unsignedWidth value)).toNat =
          0x80 + Integer.unsignedWidth value := by
        rw [UInt8.toNat_ofNat']
        omega
      refine Reader.Reads.bind (w := [_]) (Reader.Reads.byte _) ?_
      rw [hlead, if_neg (by omega)]
      have hwidth : 0x80 + Integer.unsignedWidth value - 0x80 = Integer.unsignedWidth value := by
        omega
      dsimp only
      rw [hwidth, if_pos (Integer.widthAllowed_iff.2 ⟨hone, hcount⟩)]
      refine .of_eq (UInt64.toNat_inj.1 ?_)
        (Integer.reads_bytes hone hcount value.toNat)
      have hlt := (Integer.unsignedWidth_le_iff.1 (Nat.le_refl (Integer.unsignedWidth value))).2
      rw [Nat.mod_eq_of_lt hlt]
      exact UInt64.toNat_ofNat_of_lt value.toNat_lt

/-! ## Tags -/

/-- The number that the groups of a tag spell. -/
def groupsValue (data : Bytes) : Nat := data.foldl (fun high b => high * 128 + b.toNat % 128) 0

theorem groupsValue_concat (front : Bytes) (b : UInt8) :
    groupsValue (front ++ [b]) = groupsValue front * 128 + b.toNat % 128 := by
  rw [groupsValue, List.foldl_append]
  rfl

theorem foldl_groups (high : Nat) (data : Bytes) :
    data.foldl (fun high b => high * 128 + b.toNat % 128) high =
      high * 128 ^ data.length + groupsValue data := by
  induction data generalizing high with
  | nil => simp [groupsValue]
  | cons b rest ih =>
      rw [groupsValue, List.foldl_cons, List.foldl_cons, ih, ih (0 * 128 + b.toNat % 128),
        List.length_cons, Nat.pow_succ]
      ring

theorem groupsValue_cons (b : UInt8) (rest : Bytes) :
    groupsValue (b :: rest) = b.toNat % 128 * 128 ^ rest.length + groupsValue rest := by
  rw [groupsValue, List.foldl_cons, foldl_groups]
  simp

theorem groupsValue_lt (data : Bytes) : groupsValue data < 128 ^ data.length := by
  induction data with
  | nil => simp [groupsValue]
  | cons b rest ih =>
      rw [groupsValue_cons, List.length_cons, Nat.pow_succ]
      have : b.toNat % 128 * 128 ^ rest.length ≤ 127 * 128 ^ rest.length :=
        Nat.mul_le_mul_right _ (by omega)
      omega

/-- A tag is some continued groups and a last one. -/
theorem scanTag_eq_some {limit high value width : Nat} {data : Bytes}
    (h : scanTag limit high data = some (value, width)) :
    ∃ front last rest, data = front ++ last :: rest ∧ width = front.length + 1 ∧
      width ≤ limit ∧ (∀ b ∈ front, 0x80 ≤ b.toNat) ∧ last.toNat < 0x80 ∧
      value = high * 128 ^ width + groupsValue (front ++ [last]) := by
  induction limit generalizing high data value width with
  | zero => cases h
  | succ limit ih =>
      match data with
      | [] => cases h
      | b :: rest =>
          rw [scanTag] at h
          dsimp only at h
          split at h
          · next hlast =>
              injection h with h
              injection h with hvalue hwidth
              refine ⟨[], b, rest, rfl, hwidth.symm, by omega, by simp, hlast, ?_⟩
              rw [← hvalue, ← hwidth, List.nil_append, groupsValue_cons]
              simp [groupsValue]
          · next hmore =>
              rw [Option.map_eq_some_iff] at h
              obtain ⟨⟨value', width'⟩, hscan, hpair⟩ := h
              injection hpair with hvalue hwidth
              obtain ⟨front, last, rest', rfl, hlen, hle, hfront, hlast, hsum⟩ := ih hscan
              refine ⟨b :: front, last, rest', rfl, ?_, by omega, ?_, hlast, ?_⟩
              · rw [List.length_cons]
                omega
              · intro b' hb'
                rcases List.mem_cons.1 hb' with rfl | hb'
                · omega
                · exact hfront b' hb'
              · rw [← hvalue, ← hwidth, hsum, List.cons_append, groupsValue_cons,
                  List.length_append, List.length_singleton, ← hlen, Nat.pow_succ]
                ring

/-- What follows a tag makes no difference to it. -/
theorem scanTag_append {limit high : Nat} {data : Bytes} {found : Nat × Nat}
    (h : scanTag limit high data = some found) (t : Bytes) :
    scanTag limit high (data ++ t) = some found := by
  induction limit generalizing high data found with
  | zero => cases h
  | succ limit ih =>
      match data with
      | [] => cases h
      | b :: rest =>
          rw [List.cons_append, scanTag]
          rw [scanTag] at h
          dsimp only at h ⊢
          split at h
          · next hlast => rw [if_pos hlast, h]
          · next hmore =>
              rw [Option.map_eq_some_iff] at h
              obtain ⟨found', hscan, hfound⟩ := h
              rw [if_neg hmore, ih hscan, ← hfound]
              rfl

theorem readTag_eq_ok {c d : Cursor} {v : UInt64} :
    readTag c = .ok v d ↔
      ∃ value width, scanTag maxTagWidth 0 c.rest = some (value, width) ∧
        v = UInt64.ofNat value ∧ d = c.advance width := by
  rw [readTag, Reader.bind_of_ok (Reader.get_apply c)]
  cases hscan : scanTag maxTagWidth 0 c.rest with
  | none => simp
  | some found =>
      obtain ⟨value, width⟩ := found
      constructor
      · intro h
        injection h with hv hd
        exact ⟨value, width, rfl, hv.symm, hd.symm⟩
      · rintro ⟨value', width', hfound, rfl, rfl⟩
        injection hfound with hfound
        injection hfound with hvalue hwidth
        rw [← hvalue, ← hwidth]
        rfl

theorem tagWidth_le_iff {v : UInt64} {width : Nat} :
    tagWidth v ≤ width ↔ 1 ≤ width ∧ v.toNat < 128 ^ width := by
  have hpow : (128 : Nat) ^ width = 2 ^ (7 * width) := by
    rw [Nat.pow_mul]
  rw [tagWidth, Nat.max_le, ceilDiv_le_iff (by decide), bitLength_le_iff, hpow,
    Nat.mul_comm width 7]

/-- A tag that was read is small enough to be written. -/
theorem readTag_lt {c d : Cursor} {v : UInt64} (h : readTag c = .ok v d) :
    v.toNat < 2 ^ 56 := by
  obtain ⟨value, width, hscan, rfl, _⟩ := readTag_eq_ok.1 h
  obtain ⟨front, last, _, _, hwidth, hle, _, _, hvalue⟩ := scanTag_eq_some hscan
  have hlt := groupsValue_lt (front ++ [last])
  rw [List.length_append, List.length_singleton, ← hwidth] at hlt
  have hpow : 128 ^ width ≤ 128 ^ 8 := Nat.pow_le_pow_right (by decide) hle
  rw [UInt64.toNat_ofNat']
  refine Nat.lt_of_le_of_lt (Nat.mod_le _ _) ?_
  omega

theorem tagWidth_le_iff_lt {v : UInt64} : tagWidth v ≤ maxTagWidth ↔ v.toNat < 2 ^ 56 := by
  rw [tagWidth_le_iff]
  simp [maxTagWidth]

theorem writeTag_eq_ok {v : UInt64} {position : Nat} {bytes : Bytes} :
    writeTag v position = .ok ((), bytes) ↔ v.toNat < 2 ^ 56 ∧ bytes = tagBytes v := by
  rw [writeTag, ← tagWidth_le_iff_lt]
  dsimp only
  rw [Encoder.unless_eq_ok (by rintro _ ⟨⟩), Encoder.emit_eq_ok]

theorem length_continuedGroups (count high : Nat) :
    (continuedGroups count high).length = count := by
  induction count generalizing high with
  | zero => rfl
  | succ count ih => rw [continuedGroups, List.length_append, ih, List.length_singleton]

theorem length_tagBytes (v : UInt64) : (tagBytes v).length = tagWidth v := by
  have hpos : 1 ≤ tagWidth v := Nat.le_max_left _ _
  rw [tagBytes, List.length_append, length_continuedGroups, List.length_singleton]
  omega

theorem continuedGroups_groupsValue {front : Bytes} (h : ∀ b ∈ front, 0x80 ≤ b.toNat) :
    continuedGroups front.length (groupsValue front) = front := by
  induction front using List.reverseRecOn with
  | nil => rfl
  | append_singleton front b ih =>
      have hb := b.toNat_lt
      have hmark : 0x80 ≤ b.toNat := h b (by simp)
      rw [List.length_append, List.length_singleton, continuedGroups, groupsValue_concat]
      have hhigh : (groupsValue front * 128 + b.toNat % 128) / 128 = groupsValue front := by
        omega
      have hlow : 0x80 + (groupsValue front * 128 + b.toNat % 128) % 128 = b.toNat := by omega
      rw [hhigh, hlow, ih fun b' hb' => h b' (by simp [hb']), UInt8.ofNat_toNat]

/-- The spellings of a tag that no byte can be left out of: the whole of what is read as one
tag, whose first group is not an empty one. -/
def IsTag (v : UInt64) (data : Bytes) : Prop :=
  (∃ value, scanTag maxTagWidth 0 data = some (value, data.length) ∧ v = UInt64.ofNat value) ∧
    data.head? ≠ some 0x80

/-- The library writes the spelling that no byte can be left out of. -/
theorem IsTag.eq_tagBytes {v : UInt64} {data : Bytes} (h : IsTag v data) :
    data = tagBytes v ∧ v.toNat < 2 ^ 56 := by
  obtain ⟨⟨value, hscan, rfl⟩, hlead⟩ := h
  obtain ⟨front, last, rest, hdata, hwidth, hle, hfront, hlast, hvalue⟩ := scanTag_eq_some hscan
  have hrest : rest = [] := by
    rw [hdata, List.length_append, List.length_cons] at hwidth
    exact List.eq_nil_of_length_eq_zero (by omega)
  rw [hrest] at hdata
  rw [Nat.zero_mul, Nat.zero_add] at hvalue
  have hlt := groupsValue_lt (front ++ [last])
  have hpow : 128 ^ (front ++ [last]).length ≤ 128 ^ 8 := by
    refine Nat.pow_le_pow_right (by decide) ?_
    rw [← hdata]
    exact hle
  rw [← hvalue] at hlt
  have hnat : (UInt64.ofNat value).toNat = value := by
    rw [UInt64.toNat_ofNat']
    omega
  have hsplit : value = groupsValue front * 128 + last.toNat := by
    rw [hvalue, groupsValue_concat, Nat.mod_eq_of_lt hlast]
  -- The first group is not empty, so the number needs all of them.
  have htagWidth : tagWidth (UInt64.ofNat value) = front.length + 1 := by
    refine Nat.le_antisymm (tagWidth_le_iff.2 ⟨by omega, ?_⟩) (Nat.not_lt.1 fun hless => ?_)
    · rw [hnat]
      rwa [List.length_append, List.length_singleton] at hlt
    · have hsmall := tagWidth_le_iff.1 (Nat.le_of_lt_succ hless)
      rw [hnat] at hsmall
      match front, hsmall.1 with
      | b :: more, _ =>
          have hmark := hfront b (List.mem_cons_self ..)
          have hb := b.toNat_lt
          have hgroup : 1 ≤ b.toNat % 128 := by
            rw [Nat.one_le_iff_ne_zero]
            intro hzero
            rw [hdata] at hlead
            have hempty : b.toNat = (0x80 : UInt8).toNat := by
              show b.toNat = 128
              omega
            exact hlead (congrArg some (UInt8.toNat_inj.1 hempty))
          have hbig : 1 * 128 ^ more.length ≤ b.toNat % 128 * 128 ^ more.length :=
            Nat.mul_le_mul_right _ hgroup
          rw [groupsValue_cons] at hsplit
          rw [List.length_cons, Nat.pow_succ] at hsmall
          omega
  refine ⟨?_, by rw [hnat]; omega⟩
  have hhigh : value / 128 = groupsValue front := by omega
  have hlow : value % 128 = last.toNat := by omega
  rw [tagBytes, htagWidth, Nat.add_sub_cancel, hnat, hhigh, hlow,
    continuedGroups_groupsValue hfront, UInt8.ofNat_toNat, hdata]

end MotionMetadata.Ber
