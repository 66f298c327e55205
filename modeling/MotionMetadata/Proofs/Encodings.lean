import MotionMetadata.Proofs.Text

/-!
# Encodings are one to one

What an encoding decodes it encodes to the same bytes, and here is the way back: what it
encodes it decodes to the same text. So every text that an encoding carries has one spelling,
and every byte string spells one text or none.

Which byte strings those are can be said without the decoders. ASCII is bytes below 128, UTF-8
is what the strings of the language themselves consist of, and in UTF-16 the surrogates have to
come in pairs: a unit is a high surrogate exactly if the unit behind it is a low one.
-/

namespace MotionMetadata.Text

/-! ## Characters and units -/

theorem isHighSurrogate_iff {u : Nat} : isHighSurrogate u = true ↔ 0xD800 ≤ u ∧ u ≤ 0xDBFF := by
  rw [isHighSurrogate, Bool.and_eq_true, decide_eq_true_iff, decide_eq_true_iff]

theorem isLowSurrogate_iff {u : Nat} : isLowSurrogate u = true ↔ 0xDC00 ≤ u ∧ u ≤ 0xDFFF := by
  rw [isLowSurrogate, Bool.and_eq_true, decide_eq_true_iff, decide_eq_true_iff]

/-- No unit is both halves of a pair. -/
theorem not_low_of_high {u : Nat} (h : isHighSurrogate u) : isLowSurrogate u = false := by
  rw [isHighSurrogate_iff] at h
  rw [← Bool.not_eq_true, isLowSurrogate_iff]
  omega

theorem not_high_of_low {u : Nat} (h : isLowSurrogate u) : isHighSurrogate u = false := by
  by_contra hhigh
  rw [not_low_of_high (Bool.not_eq_false _ ▸ hhigh)] at h
  cases h

/-- A unit that is no surrogate is a character. -/
theorem charsOfUnits_single {u : Nat} (hhigh : isHighSurrogate u = false)
    (hlow : isLowSurrogate u = false) (us : List Nat) :
    charsOfUnits (u :: us) = (charsOfUnits us).map (Char.ofNat u :: ·) := by
  cases us with
  | nil =>
      show (if isHighSurrogate u || isLowSurrogate u then _ else Except.ok [Char.ofNat u]) = _
      rw [hhigh, hlow]
      rfl
  | cons v us =>
      rw [charsOfUnits, hlow, hhigh]
      rfl

theorem charsOfUnits_pair {u v : Nat} (hu : isHighSurrogate u) (hv : isLowSurrogate v)
    (us : List Nat) :
    charsOfUnits (u :: v :: us) = (charsOfUnits us).map
      (Char.ofNat (0x10000 + (u - 0xD800) * 0x400 + (v - 0xDC00)) :: ·) := by
  rw [charsOfUnits, not_low_of_high hu, hu, hv]
  rfl

/-- The units of a character are decoded as that character, whatever follows them. -/
theorem charsOfUnits_units_append (c : Char) (us : List Nat) :
    charsOfUnits (units c ++ us) = (charsOfUnits us).map (c :: ·) := by
  have hvalid : c.toNat < 0xD800 ∨ 0xDFFF < c.toNat ∧ c.toNat < 0x110000 := c.valid
  have hofNat : ∀ n, n = c.toNat → Char.ofNat n = c := by
    rintro _ rfl
    exact Char.ofNat_toNat c
  rw [units]
  generalize c.toNat = n at hvalid hofNat
  split
  · next hsmall =>
      have hhigh : isHighSurrogate n = false := by
        rw [← Bool.not_eq_true, isHighSurrogate_iff]
        omega
      have hlow : isLowSurrogate n = false := by
        rw [← Bool.not_eq_true, isLowSurrogate_iff]
        omega
      rw [List.singleton_append, charsOfUnits_single hhigh hlow, hofNat n rfl]
  · next hlarge =>
      have hhigh : isHighSurrogate (0xD800 + (n - 0x10000) / 0x400) :=
        isHighSurrogate_iff.2 (by omega)
      have hlow : isLowSurrogate (0xDC00 + (n - 0x10000) % 0x400) :=
        isLowSurrogate_iff.2 (by omega)
      rw [List.cons_append, List.singleton_append, charsOfUnits_pair hhigh hlow,
        hofNat _ (by omega)]

theorem charsOfUnits_units (chars : List Char) :
    charsOfUnits (chars.flatMap units) = .ok chars := by
  induction chars with
  | nil => rfl
  | cons c rest ih =>
      rw [List.flatMap_cons, charsOfUnits_units_append, ih]
      rfl

theorem units_lt (c : Char) : ∀ u ∈ units c, u < 0x10000 := by
  have hvalid : c.toNat < 0xD800 ∨ 0xDFFF < c.toNat ∧ c.toNat < 0x110000 := c.valid
  rw [units]
  generalize c.toNat = n at hvalid
  split
  · next hsmall => exact List.forall_mem_singleton.2 hsmall
  · next hlarge =>
      exact List.forall_mem_cons.2 ⟨by omega, List.forall_mem_singleton.2 (by omega)⟩

theorem unitsOfBytes_bytes {us : List Nat} (h : ∀ u ∈ us, u < 0x10000) :
    unitsOfBytes (us.flatMap (BigEndian.bytes 2)) = us := by
  induction us with
  | nil => rfl
  | cons u us ih =>
      obtain ⟨hu, hus⟩ := List.forall_mem_cons.1 h
      have hfirst : (UInt8.ofNat (u / 256 % 256)).toNat = u / 256 := by
        rw [Utf8.toNat_byte (Nat.mod_lt _ (by decide))]
        omega
      have hsecond : (UInt8.ofNat (u % 256)).toNat = u % 256 :=
        Utf8.toNat_byte (Nat.mod_lt _ (by decide))
      rw [List.flatMap_cons]
      show ((UInt8.ofNat (u / 256 % 256)).toNat * 256 + (UInt8.ofNat (u % 256)).toNat) ::
        unitsOfBytes (us.flatMap (BigEndian.bytes 2)) = _
      rw [ih hus, hfirst, hsecond, Nat.div_add_mod']

/-! ## Surrogates in pairs -/

/-- A unit is a high surrogate exactly if the unit behind it is a low one, and no low one comes
first. -/
structure Paired (us : List Nat) : Prop where
  first : us[0]?.any isLowSurrogate = false
  next : ∀ i : Nat, us[i]?.any isHighSurrogate = us[i + 1]?.any isLowSurrogate

theorem paired_cons_iff {u : Nat} {us : List Nat} :
    Paired (u :: us) ↔ isLowSurrogate u = false ∧
      isHighSurrogate u = us[0]?.any isLowSurrogate ∧
        ∀ i : Nat, us[i]?.any isHighSurrogate = us[i + 1]?.any isLowSurrogate := by
  constructor
  · rintro ⟨hfirst, hnext⟩
    exact ⟨hfirst, hnext 0, fun i => hnext (i + 1)⟩
  · rintro ⟨hfirst, hhead, hnext⟩
    refine ⟨hfirst, fun i => ?_⟩
    cases i with
    | zero => exact hhead
    | succ i => exact hnext i

/-- A unit that is no surrogate has no part in pairs. -/
theorem paired_single_iff {u : Nat} {us : List Nat} (hhigh : isHighSurrogate u = false)
    (hlow : isLowSurrogate u = false) : Paired (u :: us) ↔ Paired us := by
  rw [paired_cons_iff, hlow, hhigh]
  exact ⟨fun ⟨_, hfirst, hnext⟩ => ⟨hfirst.symm, hnext⟩,
    fun ⟨hfirst, hnext⟩ => ⟨rfl, hfirst.symm, hnext⟩⟩

theorem paired_pair_iff {u v : Nat} {us : List Nat} (hu : isHighSurrogate u)
    (hv : isLowSurrogate v) : Paired (u :: v :: us) ↔ Paired us := by
  have hnext : (∀ i : Nat, (v :: us)[i]?.any isHighSurrogate =
      (v :: us)[i + 1]?.any isLowSurrogate) ↔ Paired us := by
    constructor
    · exact fun h => ⟨(h 0).symm.trans (not_high_of_low hv), fun i => h (i + 1)⟩
    · rintro ⟨hfirst, h⟩ i
      cases i with
      | zero => exact (not_high_of_low hv).trans hfirst.symm
      | succ i => exact h i
  rw [paired_cons_iff, hnext]
  exact ⟨fun h => h.2.2, fun h => ⟨not_low_of_high hu, hu.trans hv.symm, h⟩⟩

/-- Units are decoded exactly if the surrogates among them are paired. -/
theorem charsOfUnits_iff_paired (us : List Nat) :
    (∃ chars, charsOfUnits us = .ok chars) ↔ Paired us := by
  have hmap : ∀ (c : Char) (decoded : Except Nat (List Char)),
      (∃ chars, decoded.map (c :: ·) = .ok chars) ↔ ∃ chars, decoded = .ok chars := by
    intro c decoded
    cases decoded with
    | error u => exact iff_of_false nofun nofun
    | ok chars => exact iff_of_true ⟨_, rfl⟩ ⟨_, rfl⟩
  fun_induction charsOfUnits us with
  | case1 => exact iff_of_true ⟨[], rfl⟩ ⟨rfl, fun _ => rfl⟩
  | case2 u hsurrogate =>
      refine iff_of_false nofun fun h => ?_
      obtain ⟨hlow, hhigh, -⟩ := paired_cons_iff.1 h
      rw [hlow, hhigh] at hsurrogate
      cases hsurrogate
  | case3 u hnone =>
      obtain ⟨hhigh, hlow⟩ := Bool.or_eq_false_iff.1 (Bool.not_eq_true _ ▸ hnone)
      refine iff_of_true ⟨_, rfl⟩ ((paired_single_iff hhigh hlow).2 ?_)
      exact ⟨rfl, fun _ => rfl⟩
  | case4 u v rest hlow =>
      refine iff_of_false nofun fun h => ?_
      rw [(paired_cons_iff.1 h).1] at hlow
      cases hlow
  | case5 u v rest _ hu hv ih =>
      rw [hmap, paired_pair_iff hu hv]
      exact ih
  | case6 u v rest _ hu hv =>
      refine iff_of_false nofun fun h => hv ?_
      have hnext : isHighSurrogate u = isLowSurrogate v := (paired_cons_iff.1 h).2.1
      exact hnext ▸ hu
  | case7 u v rest hlow hhigh ih =>
      rw [hmap, paired_single_iff (Bool.not_eq_true _ ▸ hhigh) (Bool.not_eq_true _ ▸ hlow)]
      exact ih

/-! ## Encodings -/

namespace Encoding

theorem firstBeyondAscii_of_ascii {index : Nat} {bytes : Bytes}
    (h : ∀ b ∈ bytes, b.toNat < 0x80) : firstBeyondAscii index bytes = none := by
  induction bytes generalizing index with
  | nil => rfl
  | cons b rest ih =>
      obtain ⟨hb, hrest⟩ := List.forall_mem_cons.1 h
      rw [firstBeyondAscii, if_pos hb, ih hrest]

/-- In ASCII a character is its own byte. -/
theorem encodeChars_of_ascii {chars : List Char} (h : ∀ c ∈ chars, c.toNat < 0x80) :
    Utf8.encodeChars chars = chars.map fun c => UInt8.ofNat c.toNat := by
  induction chars with
  | nil => rfl
  | cons c rest ih =>
      obtain ⟨hc, hrest⟩ := List.forall_mem_cons.1 h
      have hone := Utf8.encodeOne hc
      rw [Char.ofNat_toNat] at hone
      rw [Utf8.encodeChars, List.flatMap_cons, ← Utf8.encodeChars, ih hrest, hone, List.map_cons]
      rfl

/-- What is encoded is decoded as it was. -/
theorem decode_encode {encoding : Encoding} {text : String} {bytes : Bytes}
    (h : encoding.encode text = .ok bytes) : encoding.decode bytes = .ok text := by
  cases encoding with
  | ascii =>
      rw [encode] at h
      split at h
      · next hall =>
          injection h with h
          have hchars : ∀ c ∈ text.toList, c.toNat < 0x80 := by simpa using hall
          rw [Utf8.encode, encodeChars_of_ascii hchars] at h
          have hbytes : ∀ b ∈ bytes, b.toNat < 0x80 := by
            rw [← h, List.forall_mem_map]
            intro c hc
            have := hchars c hc
            rwa [Utf8.toNat_byte (by omega)]
          have hback : bytes.map (fun b => Char.ofNat b.toNat) = text.toList := by
            rw [← h, List.map_map]
            refine (List.map_congr_left fun c hc => ?_).trans (List.map_id _)
            have := hchars c hc
            rw [Function.comp_apply, Utf8.toNat_byte (by omega), Char.ofNat_toNat]
            rfl
          rw [decode, firstBeyondAscii_of_ascii hbytes, hback, String.ofList_toList]
      · cases h
  | utf8 =>
      injection h with h
      rw [decode, ← h, Utf8.decode_encode]
  | utf16 =>
      injection h with h
      have hsmall : ∀ u ∈ text.toList.flatMap units, u < 0x10000 := by
        intro u hu
        obtain ⟨c, _, hu⟩ := List.mem_flatMap.1 hu
        exact units_lt c u hu
      rw [decode, ← h, length_bytesOfUnits, if_neg (by omega), unitsOfBytes_bytes hsmall,
        charsOfUnits_units]
      exact congrArg Except.ok String.ofList_toList

/-- The texts that an encoding has bytes for. -/
def Carries : Encoding → String → Prop
  | ascii, text => ∀ c ∈ text.toList, c.toNat < 0x80
  | _, _ => True

/-- The byte strings that spell a text. -/
def WellFormed : Encoding → Bytes → Prop
  | ascii, bytes => ∀ b ∈ bytes, b.toNat < 0x80
  | utf8, bytes => bytes.toByteArray.IsValidUTF8
  | utf16, bytes => bytes.length % 2 = 0 ∧ Paired (unitsOfBytes bytes)

theorem encode_iff_carries {encoding : Encoding} {text : String} :
    (∃ bytes, encoding.encode text = .ok bytes) ↔ encoding.Carries text := by
  cases encoding with
  | ascii =>
      have hall : text.toList.all (·.toNat < 0x80) = true ↔ Carries ascii text := by
        rw [List.all_eq_true]
        exact forall₂_congr fun c _ => decide_eq_true_iff
      rw [encode, ← hall]
      split
      · next h => exact iff_of_true ⟨_, rfl⟩ h
      · next h =>
          refine iff_of_false ?_ h
          rintro ⟨bytes, hbytes⟩
          cases hbytes
  | utf8 => exact iff_of_true ⟨_, rfl⟩ trivial
  | utf16 => exact iff_of_true ⟨_, rfl⟩ trivial

theorem decode_iff_wellFormed {encoding : Encoding} {bytes : Bytes} :
    (∃ text, encoding.decode bytes = .ok text) ↔ encoding.WellFormed bytes := by
  cases encoding with
  | ascii =>
      constructor
      · rintro ⟨text, h⟩
        rw [decode] at h
        split at h
        · cases h
        · next hnone => exact firstBeyondAscii_eq_none hnone
      · intro h
        rw [decode, firstBeyondAscii_of_ascii h]
        exact ⟨_, rfl⟩
  | utf8 =>
      constructor
      · rintro ⟨text, h⟩
        have hbytes : Utf8.encode text = bytes := Except.ok.inj (encode_decode h)
        exact ⟨text.toList, congrArg List.toByteArray hbytes.symm⟩
      · rintro ⟨chars, h⟩
        have hbytes := congrArg (fun a : ByteArray => a.data.toList) h
        dsimp only [List.utf8Encode] at hbytes
        rw [List.toList_data_toByteArray, List.toList_data_toByteArray] at hbytes
        refine ⟨String.ofList chars, decode_encode ?_⟩
        rw [encode, Utf8.encode, String.toList_ofList, hbytes]
        rfl
  | utf16 =>
      rw [decode, WellFormed, ← charsOfUnits_iff_paired]
      split
      · next hodd =>
          refine iff_of_false ?_ fun h => hodd h.1
          rintro ⟨text, htext⟩
          cases htext
      · next heven =>
          rw [and_iff_right (by omega)]
          split
          · next chars h => exact iff_of_true ⟨_, rfl⟩ ⟨chars, h⟩
          · next u h =>
              refine iff_of_false ?_ ?_
              · rintro ⟨text, htext⟩
                cases htext
              · rintro ⟨chars, hchars⟩
                rw [h] at hchars
                cases hchars

/-- An encoding is one to one between the texts that it carries and the byte strings that spell
a text: encoding and decoding undo each other, and the width of a text is the number of its
bytes. -/
theorem encode_decode_inverse (encoding : Encoding) :
    (∀ text bytes, encoding.encode text = .ok bytes →
      encoding.decode bytes = .ok text ∧ encoding.width text = bytes.length) ∧
    (∀ bytes text, encoding.decode bytes = .ok text → encoding.encode text = .ok bytes) ∧
    (∀ text, (∃ bytes, encoding.encode text = .ok bytes) ↔ encoding.Carries text) ∧
    ∀ bytes, (∃ text, encoding.decode bytes = .ok text) ↔ encoding.WellFormed bytes :=
  ⟨fun _ _ h => ⟨decode_encode h, length_encode h⟩, fun _ _ h => encode_decode h,
    fun _ => encode_iff_carries, fun _ => decode_iff_wellFormed⟩

/-- Half a pair spells nothing, and two low halves are no pair. -/
example : ¬ utf16.WellFormed [0xD8, 0x3D] ∧ ¬ utf16.WellFormed [0xDE, 0x00, 0xDE, 0x00] := by
  constructor
  · exact fun h => absurd (h.2.next 0) (by decide)
  · exact fun h => absurd h.2.first (by decide)

end Encoding

end MotionMetadata.Text
