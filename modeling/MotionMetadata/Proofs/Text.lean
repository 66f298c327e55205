import MotionMetadata.Proofs.Integers
import MotionMetadata.Text.Codec

/-!
# Text, there and back

What a text encoding decodes it encodes to the same bytes. For each encoding this is a fact
about one character: the arithmetic that put it together from a few bytes is undone by the
arithmetic that takes it apart, because the decoder refuses all but the shortest spelling.
For UTF-8 the way back is here as well: every text is decoded from what it is encoded to.
-/

namespace MotionMetadata.Text

theorem toNat_ofNat {n : Nat} (h : n.isValidChar) : (Char.ofNat n).val.toNat = n := by
  rw [Char.ofNat, dif_pos h]
  rfl

/-! ## UTF-8 -/

namespace Utf8

theorem ofNat_eq {n : Nat} {b : UInt8} (h : n = b.toNat) : UInt8.ofNat n = b := by
  rw [h, UInt8.ofNat_toNat]

theorem isTail_iff {b : UInt8} : isTail b = true ↔ 0x80 ≤ b.toNat ∧ b.toNat ≤ 0xBF := by
  rw [isTail, Bool.and_eq_true, decide_eq_true_iff, decide_eq_true_iff]

theorem encodeOne {n : Nat} (h : n < 0x80) :
    String.utf8EncodeChar (Char.ofNat n) = [UInt8.ofNat n] := by
  have hn := toNat_ofNat (.inl (show n < 0xD800 by omega))
  rw [String.utf8EncodeChar, hn]
  rw [if_pos (show n ≤ 0x7F by omega)]

theorem encodeTwo {a b : UInt8} (ha : 0xC2 ≤ a.toNat ∧ a.toNat ≤ 0xDF) (hb : isTail b) :
    String.utf8EncodeChar (Char.ofNat (a.toNat % 32 * 64 + tailBits b)) = [a, b] := by
  rw [isTail_iff] at hb
  rw [tailBits]
  have hn := toNat_ofNat (.inl (show a.toNat % 32 * 64 + b.toNat % 64 < 0xD800 by omega))
  rw [String.utf8EncodeChar, hn]
  rw [if_neg (by omega), if_pos (by omega), ofNat_eq (b := a) (by omega),
    ofNat_eq (b := b) (by omega)]

theorem encodeThree {a b c : UInt8} (ha : 0xE0 ≤ a.toNat ∧ a.toNat ≤ 0xEF)
    (hb : secondOfThree a b) (hc : isTail c) :
    String.utf8EncodeChar
      (Char.ofNat ((a.toNat % 16 * 64 + tailBits b) * 64 + tailBits c)) = [a, b, c] := by
  simp only [secondOfThree, Bool.and_eq_true, Bool.or_eq_true, bne_iff_ne, decide_eq_true_iff,
    isTail_iff] at hb
  rw [isTail_iff] at hc
  rw [tailBits, tailBits]
  have hvalid : Nat.isValidChar ((a.toNat % 16 * 64 + b.toNat % 64) * 64 + c.toNat % 64) := by
    rw [Nat.isValidChar]
    omega
  have hn := toNat_ofNat hvalid
  rw [String.utf8EncodeChar, hn]
  rw [if_neg (by omega), if_neg (by omega), if_pos (by omega), ofNat_eq (b := a) (by omega),
    ofNat_eq (b := b) (by omega), ofNat_eq (b := c) (by omega)]

theorem encodeFour {a b c d : UInt8} (ha : 0xF0 ≤ a.toNat ∧ a.toNat ≤ 0xF4)
    (hb : secondOfFour a b) (hc : isTail c) (hd : isTail d) :
    String.utf8EncodeChar
      (Char.ofNat (((a.toNat % 8 * 64 + tailBits b) * 64 + tailBits c) * 64 + tailBits d)) =
        [a, b, c, d] := by
  simp only [secondOfFour, Bool.and_eq_true, Bool.or_eq_true, bne_iff_ne, decide_eq_true_iff,
    isTail_iff] at hb
  rw [isTail_iff] at hc hd
  rw [tailBits, tailBits, tailBits]
  have hvalid : Nat.isValidChar
      (((a.toNat % 8 * 64 + b.toNat % 64) * 64 + c.toNat % 64) * 64 + d.toNat % 64) := by
    rw [Nat.isValidChar]
    omega
  have hn := toNat_ofNat hvalid
  rw [String.utf8EncodeChar, hn]
  rw [if_neg (by omega), if_neg (by omega), if_neg (by omega), ofNat_eq (b := a) (by omega),
    ofNat_eq (b := b) (by omega), ofNat_eq (b := c) (by omega), ofNat_eq (b := d) (by omega)]

/-- A character that is decoded is encoded as the bytes it was decoded from. -/
theorem character_eq_ok {lead : UInt8} {rest : Bytes} {c : Char} {tails : Nat}
    (h : character lead rest = .ok (c, tails)) :
    String.utf8EncodeChar c ++ rest.drop tails = lead :: rest := by
  revert h
  fun_cases character lead rest with
  | case1 rest a hone =>
      intro h
      injection h with h
      injection h with hc htails
      rw [← hc, ← htails, encodeOne hone, UInt8.ofNat_toNat]
      rfl
  | case3 a _ htwo b rest hb =>
      intro h
      injection h with h
      injection h with hc htails
      simp only [Bool.and_eq_true, decide_eq_true_iff] at htwo
      rw [← hc, ← htails, encodeTwo htwo hb]
      rfl
  | case8 a _ _ hthree b hb c' rest hc' =>
      intro h
      injection h with h
      injection h with hc htails
      simp only [Bool.and_eq_true, decide_eq_true_iff] at hthree
      rw [← hc, ← htails, encodeThree hthree (by simpa using hb) hc']
      rfl
  | case15 a _ _ _ hfour b hb c' hc' d rest hd =>
      intro h
      injection h with h
      injection h with hc htails
      simp only [Bool.and_eq_true, decide_eq_true_iff] at hfour
      rw [← hc, ← htails, encodeFour hfour (by simpa using hb) (by simpa using hc') hd]
      rfl
  | _ => exact nofun

theorem encodeChars_decodeFrom {index : Nat} {bytes : Bytes} {chars : List Char}
    (h : decodeFrom index bytes = .ok chars) : encodeChars chars = bytes := by
  fun_induction decodeFrom index bytes generalizing chars with
  | case1 =>
      injection h with h
      rw [← h]
      rfl
  | case2 => cases h
  | case3 => cases h
  | case4 index lead rest c tails hc rest' hrest ih =>
      injection h with h
      rw [← h, encodeChars, List.flatMap_cons, ← encodeChars, ih hrest]
      exact character_eq_ok hc

theorem encode_decode {bytes : Bytes} {text : String} (h : decode bytes = .ok text) :
    encode text = bytes := by
  rw [decode] at h
  cases hchars : decodeFrom 0 bytes with
  | error f =>
      rw [hchars] at h
      cases h
  | ok chars =>
      rw [hchars] at h
      injection h with h
      rw [← h, encode, String.toList_ofList, encodeChars_decodeFrom hchars]

theorem character_one {a : UInt8} (ha : a.toNat < 0x80) (rest : Bytes) :
    character a rest = .ok (Char.ofNat a.toNat, 0) := by
  rw [character.eq_def]
  exact if_pos ha

theorem character_two {a b : UInt8} (ha : 0xC2 ≤ a.toNat ∧ a.toNat ≤ 0xDF) (hb : isTail b)
    (rest : Bytes) :
    character a (b :: rest) = .ok (Char.ofNat (a.toNat % 32 * 64 + tailBits b), 1) := by
  rw [character.eq_def]
  dsimp only
  rw [if_neg (by omega), if_pos (by simpa using ha), if_pos hb]

theorem character_three {a b c : UInt8} (ha : 0xE0 ≤ a.toNat ∧ a.toNat ≤ 0xEF)
    (hb : secondOfThree a b) (hc : isTail c) (rest : Bytes) :
    character a (b :: c :: rest) =
      .ok (Char.ofNat ((a.toNat % 16 * 64 + tailBits b) * 64 + tailBits c), 2) := by
  rw [character.eq_def]
  dsimp only
  rw [if_neg (by omega), if_neg (by simp; omega), if_pos (by simpa using ha), hb,
    if_neg (by decide), if_pos hc]

theorem character_four {a b c d : UInt8} (ha : 0xF0 ≤ a.toNat ∧ a.toNat ≤ 0xF4)
    (hb : secondOfFour a b) (hc : isTail c) (hd : isTail d) (rest : Bytes) :
    character a (b :: c :: d :: rest) =
      .ok (Char.ofNat
        (((a.toNat % 8 * 64 + tailBits b) * 64 + tailBits c) * 64 + tailBits d), 3) := by
  rw [character.eq_def]
  dsimp only
  rw [if_neg (by omega), if_neg (by simp; omega), if_neg (by simp; omega),
    if_pos (by simpa using ha), hb, hc, if_neg (by decide), if_neg (by decide), if_pos hd]

theorem toNat_byte {n : Nat} (h : n < 256) : (UInt8.ofNat n).toNat = n := by
  rw [UInt8.toNat_ofNat', Nat.mod_eq_of_lt h]

/-- The bytes of a character are decoded as that character, whatever follows them. -/
theorem character_encoded (c : Char) (t : Bytes) : ∃ lead rest tails,
    String.utf8EncodeChar c ++ t = lead :: rest ∧ character lead rest = .ok (c, tails) ∧
      rest.drop tails = t := by
  have hvalid : c.val.toNat < 0xD800 ∨ 0xDFFF < c.val.toNat ∧ c.val.toNat < 0x110000 := c.valid
  have hofNat : ∀ n, n = c.val.toNat → Char.ofNat n = c := by
    rintro _ rfl
    exact Char.ofNat_toNat c
  rw [String.utf8EncodeChar]
  generalize c.val.toNat = n at hvalid hofNat ⊢
  have hsix := toNat_byte (n := n % 64 + 128) (by omega)
  have htwelve := toNat_byte (n := n / 64 % 64 + 128) (by omega)
  have heighteen := toNat_byte (n := n / 4096 % 64 + 128) (by omega)
  split
  · next hone =>
      have hlead := toNat_byte (n := n) (by omega)
      refine ⟨_, t, 0, rfl, ?_, rfl⟩
      rw [character_one (by omega), hofNat _ hlead]
  split
  · next hone htwo =>
      have hlead := toNat_byte (n := n / 64 % 32 + 192) (by omega)
      refine ⟨_, _ :: t, 1, rfl, (character_two (by omega) (isTail_iff.2 (by omega)) t).trans ?_,
        rfl⟩
      rw [tailBits, hofNat _ (by omega)]
  split
  · next hone htwo hthree =>
      have hlead := toNat_byte (n := n / 4096 % 16 + 224) (by omega)
      have hsecond : secondOfThree (UInt8.ofNat (n / 4096 % 16 + 224))
          (UInt8.ofNat (n / 64 % 64 + 128)) = true := by
        simp only [secondOfThree, Bool.and_eq_true, Bool.or_eq_true, bne_iff_ne,
          decide_eq_true_iff, isTail_iff, hlead, htwelve]
        omega
      refine ⟨_, _ :: _ :: t, 2, rfl, (character_three (by omega) hsecond
        (isTail_iff.2 (by omega)) t).trans ?_, rfl⟩
      rw [tailBits, tailBits, hofNat _ (by omega)]
  · next hone htwo hthree =>
      have hlead := toNat_byte (n := n / 262144 % 8 + 240) (by omega)
      have hsecond : secondOfFour (UInt8.ofNat (n / 262144 % 8 + 240))
          (UInt8.ofNat (n / 4096 % 64 + 128)) = true := by
        simp only [secondOfFour, Bool.and_eq_true, Bool.or_eq_true, bne_iff_ne,
          decide_eq_true_iff, isTail_iff, hlead, heighteen]
        omega
      refine ⟨_, _ :: _ :: _ :: t, 3, rfl, (character_four (by omega) hsecond
        (isTail_iff.2 (by omega)) (isTail_iff.2 (by omega)) t).trans ?_, rfl⟩
      rw [tailBits, tailBits, tailBits, hofNat _ (by omega)]

theorem decodeFrom_encodeChars (index : Nat) (chars : List Char) :
    decodeFrom index (encodeChars chars) = .ok chars := by
  induction chars generalizing index with
  | nil => rw [encodeChars, List.flatMap_nil, decodeFrom]
  | cons c rest ih =>
      obtain ⟨lead, more, tails, hbytes, hc, hmore⟩ := character_encoded c (encodeChars rest)
      rw [encodeChars, List.flatMap_cons, ← encodeChars, hbytes, decodeFrom, hc]
      dsimp only
      rw [hmore, ih]

/-- What is encoded is decoded as it was. -/
theorem decode_encode (text : String) : decode (encode text) = .ok text := by
  rw [decode, encode, decodeFrom_encodeChars]
  exact congrArg Except.ok String.ofList_toList

/-- A byte below 128 is a character of its own. -/
theorem toNat_eq_of_mem {c : Char} {b : UInt8} (h : b ∈ String.utf8EncodeChar c)
    (hb : b.toNat < 0x80) : c.toNat = b.toNat := by
  rw [String.utf8EncodeChar] at h
  show c.val.toNat = b.toNat
  generalize c.val.toNat = n at h ⊢
  split at h
  · obtain rfl := List.mem_singleton.1 h
    exact (toNat_byte (by omega)).symm
  have hhigh : ∀ m, 0x80 ≤ m → m < 0x100 → b ≠ UInt8.ofNat m := by
    rintro m hm hlt rfl
    rw [toNat_byte hlt] at hb
    omega
  split at h
  · simp only [List.mem_cons, List.not_mem_nil, or_false] at h
    rcases h with h | h <;> exact absurd h (hhigh _ (by omega) (by omega))
  split at h
  · simp only [List.mem_cons, List.not_mem_nil, or_false] at h
    rcases h with h | h | h <;> exact absurd h (hhigh _ (by omega) (by omega))
  · simp only [List.mem_cons, List.not_mem_nil, or_false] at h
    rcases h with h | h | h | h <;> exact absurd h (hhigh _ (by omega) (by omega))

theorem encodeChars_injective {chars more : List Char}
    (h : encodeChars chars = encodeChars more) : chars = more := by
  have hdecode := decodeFrom_encodeChars 0 chars
  rw [h, decodeFrom_encodeChars] at hdecode
  injection hdecode with hdecode
  exact hdecode.symm

theorem encodeChars_ne_nil {chars : List Char} (h : chars ≠ []) : encodeChars chars ≠ [] :=
  fun hnil => h (encodeChars_injective hnil)

theorem encodeChars_append (chars more : List Char) :
    encodeChars (chars ++ more) = encodeChars chars ++ encodeChars more := List.flatMap_append

/-- A character of one byte is found among the bytes of a text if it is in the text. -/
theorem mem_encodeChars_iff {chars : List Char} {b : UInt8} (hb : b.toNat < 0x80) :
    b ∈ encodeChars chars ↔ Char.ofNat b.toNat ∈ chars := by
  rw [encodeChars, List.mem_flatMap]
  constructor
  · rintro ⟨c, hc, hmem⟩
    rwa [← toNat_eq_of_mem hmem hb, Char.ofNat_toNat]
  · intro hmem
    refine ⟨_, hmem, ?_⟩
    rw [encodeOne hb, UInt8.ofNat_toNat]
    exact List.mem_singleton_self b

end Utf8

/-! ## UTF-16 -/

theorem units_small {n : Nat} (h : n < 0xD800 ∨ 0xDFFF < n) (hsmall : n < 0x10000) :
    units (Char.ofNat n) = [n] := by
  have hn : (Char.ofNat n).toNat = n := toNat_ofNat (by rw [Nat.isValidChar]; omega)
  rw [units, hn]
  rw [if_pos hsmall]

theorem units_pair {u v : Nat} (hu : 0xD800 ≤ u ∧ u ≤ 0xDBFF) (hv : 0xDC00 ≤ v ∧ v ≤ 0xDFFF) :
    units (Char.ofNat (0x10000 + (u - 0xD800) * 0x400 + (v - 0xDC00))) = [u, v] := by
  generalize hm : 0x10000 + (u - 0xD800) * 0x400 + (v - 0xDC00) = m
  have hn : (Char.ofNat m).toNat = m := toNat_ofNat (by rw [Nat.isValidChar]; omega)
  rw [units, hn]
  rw [if_neg (by omega)]
  have hhigh : 0xD800 + (m - 0x10000) / 0x400 = u := by omega
  have hlow : 0xDC00 + (m - 0x10000) % 0x400 = v := by omega
  rw [hhigh, hlow]

theorem units_charsOfUnits {us : List Nat} (hsmall : ∀ u ∈ us, u < 0x10000)
    {chars : List Char} (h : charsOfUnits us = .ok chars) : chars.flatMap units = us := by
  fun_induction charsOfUnits us generalizing chars with
  | case1 =>
      injection h with h
      rw [← h]
      rfl
  | case2 => cases h
  | case3 u hu =>
      injection h with h
      have := hsmall u (by simp)
      simp only [isHighSurrogate, isLowSurrogate, Bool.or_eq_true, Bool.and_eq_true,
        decide_eq_true_iff] at hu
      rw [← h, List.flatMap_cons, units_small (by omega) this]
      rfl
  | case4 => cases h
  | case5 u v rest _ hu hv ih =>
      simp only [isHighSurrogate, isLowSurrogate, Bool.and_eq_true, decide_eq_true_iff] at hu hv
      cases hrest : charsOfUnits rest with
      | error e =>
          rw [hrest] at h
          cases h
      | ok more =>
          rw [hrest] at h
          injection h with h
          rw [← h, List.flatMap_cons, units_pair hu hv,
            ih (fun w hw => hsmall w (by simp [hw])) hrest]
          rfl
  | case6 => cases h
  | case7 u v rest hlow hhigh ih =>
      have := hsmall u (by simp)
      simp only [isHighSurrogate, isLowSurrogate, Bool.and_eq_true,
        decide_eq_true_iff] at hlow hhigh
      cases hrest : charsOfUnits (v :: rest) with
      | error e =>
          rw [hrest] at h
          cases h
      | ok more =>
          rw [hrest] at h
          injection h with h
          rw [← h, List.flatMap_cons, units_small (by omega) this,
            ih (fun w hw => hsmall w (List.mem_cons_of_mem u hw)) hrest]
          rfl

theorem unitsOfBytes_lt {bytes : Bytes} : ∀ u ∈ unitsOfBytes bytes, u < 0x10000 := by
  fun_induction unitsOfBytes bytes with
  | case1 a b rest ih =>
      intro u hu
      have ha := a.toNat_lt
      have hb := b.toNat_lt
      rcases List.mem_cons.1 hu with rfl | hu
      · omega
      · exact ih u hu
  | case2 => simp

theorem bytes_unitsOfBytes {bytes : Bytes} (heven : bytes.length % 2 = 0) :
    (unitsOfBytes bytes).flatMap (BigEndian.bytes 2) = bytes := by
  fun_induction unitsOfBytes bytes with
  | case1 a b rest ih =>
      have hpair := BigEndian.bytes_value [a, b]
      have hvalue : BigEndian.value [a, b] = a.toNat * 256 + b.toNat := by
        rw [BigEndian.value_cons, BigEndian.value_cons, List.length_singleton, Nat.pow_one]
        simp [BigEndian.value]
      rw [hvalue] at hpair
      rw [List.length_cons, List.length_cons] at heven
      rw [List.flatMap_cons, ih (by omega)]
      exact congrArg (· ++ rest) hpair
  | case2 bytes hshort =>
      rcases bytes with _ | ⟨a, _ | ⟨b, rest⟩⟩
      · rfl
      · simp at heven
      · exact (hshort a b rest rfl).elim

theorem length_bytesOfUnits (us : List Nat) :
    (us.flatMap (BigEndian.bytes 2)).length = 2 * us.length := by
  induction us with
  | nil => rfl
  | cons u us ih =>
      rw [List.flatMap_cons, List.length_append, ih, BigEndian.length_bytes, List.length_cons]
      omega

/-! ## Encodings -/

namespace Encoding

theorem firstBeyondAscii_eq_none {index : Nat} {bytes : Bytes}
    (h : firstBeyondAscii index bytes = none) : ∀ b ∈ bytes, b.toNat < 0x80 := by
  induction bytes generalizing index with
  | nil => simp
  | cons b rest ih =>
      rw [firstBeyondAscii] at h
      split at h
      · next hb =>
          intro b' hb'
          rcases List.mem_cons.1 hb' with rfl | hb'
          · exact hb
          · exact ih h b' hb'
      · cases h

theorem encodeChars_ascii {bytes : Bytes} (h : ∀ b ∈ bytes, b.toNat < 0x80) :
    Utf8.encodeChars (bytes.map fun b => Char.ofNat b.toNat) = bytes := by
  induction bytes with
  | nil => rfl
  | cons b rest ih =>
      rw [List.map_cons, Utf8.encodeChars, List.flatMap_cons, ← Utf8.encodeChars,
        ih fun b' hb' => h b' (List.mem_cons_of_mem b hb'), Utf8.encodeOne (h b (by simp)),
        UInt8.ofNat_toNat]
      rfl

/-- What is decoded is encoded as it was. -/
theorem encode_decode {encoding : Encoding} {bytes : Bytes} {text : String}
    (h : encoding.decode bytes = .ok text) : encoding.encode text = .ok bytes := by
  cases encoding with
  | ascii =>
      rw [decode] at h
      cases hbeyond : firstBeyondAscii 0 bytes with
      | some found =>
          rw [hbeyond] at h
          cases h
      | none =>
          rw [hbeyond] at h
          injection h with h
          have hbytes := firstBeyondAscii_eq_none hbeyond
          have hall : (bytes.map fun b => Char.ofNat b.toNat).all (·.toNat < 0x80) = true := by
            rw [List.all_map, List.all_eq_true]
            intro b hb
            have hb := hbytes b hb
            have hn : (Char.ofNat b.toNat).toNat = b.toNat := toNat_ofNat (.inl (by omega))
            simpa [hn] using hb
          rw [encode, ← h, String.toList_ofList, if_pos hall, Utf8.encode, String.toList_ofList,
            encodeChars_ascii hbytes]
  | utf8 =>
      rw [decode] at h
      cases htext : Utf8.decode bytes with
      | error f =>
          rw [htext] at h
          cases h
      | ok text' =>
          rw [htext] at h
          injection h with h
          rw [encode, ← h, Utf8.encode_decode htext]
  | utf16 =>
      rw [decode] at h
      split at h
      · cases h
      · next heven =>
          cases hchars : charsOfUnits (unitsOfBytes bytes) with
          | error u =>
              rw [hchars] at h
              cases h
          | ok chars =>
              rw [hchars] at h
              injection h with h
              rw [encode, ← h, String.toList_ofList, units_charsOfUnits unitsOfBytes_lt hchars,
                bytes_unitsOfBytes (by omega)]

/-- The width of a text is the number of bytes it is encoded in. -/
theorem length_encode {encoding : Encoding} {bytes : Bytes} {text : String}
    (h : encoding.encode text = .ok bytes) : encoding.width text = bytes.length := by
  cases encoding with
  | ascii =>
      rw [encode] at h
      split at h
      · injection h with h
        rw [width, h]
      · cases h
  | utf8 =>
      injection h with h
      rw [width, h]
  | utf16 =>
      injection h with h
      rw [width, ← h, length_bytesOfUnits]

/-- Only no bytes at all are decoded as a text without characters. -/
theorem decode_eq_empty {encoding : Encoding} {bytes : Bytes} {text : String}
    (h : encoding.decode bytes = .ok text) (hempty : text.isEmpty) : bytes = [] := by
  have hencode := encode_decode h
  rw [String.isEmpty_iff] at hempty
  rw [hempty] at hencode
  cases encoding <;>
  · injection hencode with hencode
    exact hencode.symm

end Encoding

end MotionMetadata.Text
