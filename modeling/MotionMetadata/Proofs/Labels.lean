import MotionMetadata.Key
import MotionMetadata.Proofs.Encodings
import MotionMetadata.Proofs.Writing

/-!
# Labels in text

A label is spelled with two hexadecimal digits for each of its bytes, in either case, and
with points and blanks wherever one likes. The reader does not look at characters: it drops
the points and blanks from the bytes of the text, cuts what is left into pairs of bytes, and
takes each pair for a number. So it has to be shown that the cuts never go through a
character of more than one byte unless the pair is refused, and what a pair may be.

It may be a little more than two digits. A number may have a plus sign, and so may a pair, in
place of its first digit. This is all that the reader takes beyond the notation: a text
without a plus sign is read exactly if it has 32 digits.
-/

namespace MotionMetadata

namespace Text

/-! ## Hexadecimal digits -/

/-- The character is the digit for `n`, in one of the two cases. -/
def IsHexDigit (c : Char) (n : Nat) : Prop := n < 16 ∧ (c = upperHexDigit n ∨ c = hexDigit n)

theorem hexValue?_digit : ∀ n < 16,
    hexValue? (upperHexDigit n) = some n ∧ hexValue? (hexDigit n) = some n := by
  decide

theorem hexValue?_eq_some_iff {c : Char} {n : Nat} :
    hexValue? c = some n ↔ IsHexDigit c n := by
  constructor
  · intro h
    rw [hexValue?] at h
    have hc : Char.ofNat c.toNat = c := Char.ofNat_toNat c
    -- One range of characters for the decimal digits, and one for the letters of each case.
    split at h
    · injection h with h
      refine ⟨by omega, .inl ?_⟩
      rw [upperHexDigit, if_pos (by omega), ← hc, show 48 + n = c.toNat by omega]
    split at h
    · injection h with h
      refine ⟨by omega, .inl ?_⟩
      rw [upperHexDigit, if_neg (by omega), ← hc, show 65 + (n - 10) = c.toNat by omega]
    split at h
    · injection h with h
      refine ⟨by omega, .inr ?_⟩
      rw [hexDigit, if_neg (by omega), ← hc, show 97 + (n - 10) = c.toNat by omega]
    · cases h
  · rintro ⟨hn, rfl | rfl⟩
    · exact (hexValue?_digit n hn).1
    · exact (hexValue?_digit n hn).2

namespace IsHexDigit

variable {c : Char} {n : Nat}

theorem ascii (h : IsHexDigit c n) : c.toNat < 0x80 := by
  have hall : ∀ n < 16, (upperHexDigit n).toNat < 0x80 ∧ (hexDigit n).toNat < 0x80 := by decide
  obtain ⟨hn, rfl | rfl⟩ := h
  · exact (hall n hn).1
  · exact (hall n hn).2

theorem ne {d : Char} (h : IsHexDigit c n) (hd : hexValue? d = none) : c ≠ d := by
  rintro rfl
  rw [hexValue?_eq_some_iff.2 h] at hd
  cases hd

end IsHexDigit

end Text

namespace UniversalKey

open Text (IsHexDigit)

/-! ## One byte -/

/-- Two digits that spell a byte, the high half first. -/
def DigitPair (a b : Char) (byte : UInt8) : Prop :=
  ∃ high low, IsHexDigit a high ∧ IsHexDigit b low ∧ byte.toNat = 16 * high + low

/-- A plus sign and one digit. -/
def SignedPair (a b : Char) (byte : UInt8) : Prop := a = '+' ∧ IsHexDigit b byte.toNat

/-- What the reader takes for a byte. -/
def ReadPair (a b : Char) (byte : UInt8) : Prop := DigitPair a b byte ∨ SignedPair a b byte

variable {a b : Char} {byte : UInt8}

theorem ReadPair.ascii (h : ReadPair a b byte) : a.toNat < 0x80 ∧ b.toNat < 0x80 := by
  rcases h with ⟨high, low, ha, hb, -⟩ | ⟨rfl, hb⟩
  · exact ⟨ha.ascii, hb.ascii⟩
  · exact ⟨by decide, hb.ascii⟩

theorem ofNat_eq_iff {n : Nat} (hn : n < 256) : UInt8.ofNat n = byte ↔ byte.toNat = n := by
  rw [← UInt8.toNat_inj, Text.Utf8.toNat_byte hn, eq_comm]

theorem pairValue?_plus : pairValue? '+' b = some byte ↔ IsHexDigit b byte.toNat := by
  rw [pairValue?, if_pos rfl]
  constructor
  · intro h
    obtain ⟨n, hn, h⟩ := Option.bind_eq_some_iff.1 h
    have hdigit := Text.hexValue?_eq_some_iff.1 hn
    have hlt := hdigit.1
    rwa [(ofNat_eq_iff (by omega)).1 (Option.some.inj h)]
  · intro hdigit
    refine Option.bind_eq_some_iff.2 ⟨_, Text.hexValue?_eq_some_iff.2 hdigit, ?_⟩
    exact congrArg some UInt8.ofNat_toNat

theorem pairValue?_of_ne (ha : a ≠ '+') : pairValue? a b = some byte ↔ DigitPair a b byte := by
  rw [pairValue?, if_neg ha]
  constructor
  · intro h
    obtain ⟨high, hhigh, h⟩ := Option.bind_eq_some_iff.1 h
    obtain ⟨low, hlow, h⟩ := Option.bind_eq_some_iff.1 h
    have hfirst := Text.hexValue?_eq_some_iff.1 hhigh
    have hsecond := Text.hexValue?_eq_some_iff.1 hlow
    have hlt := hfirst.1
    have hlt' := hsecond.1
    exact ⟨high, low, hfirst, hsecond, (ofNat_eq_iff (by omega)).1 (Option.some.inj h)⟩
  · rintro ⟨high, low, hfirst, hsecond, hvalue⟩
    have hlt := byte.toNat_lt
    refine Option.bind_eq_some_iff.2 ⟨high, Text.hexValue?_eq_some_iff.2 hfirst, ?_⟩
    refine Option.bind_eq_some_iff.2 ⟨low, Text.hexValue?_eq_some_iff.2 hsecond, ?_⟩
    exact congrArg some ((ofNat_eq_iff (by omega)).2 hvalue)

theorem pairValue?_eq_some_iff : pairValue? a b = some byte ↔ ReadPair a b byte := by
  by_cases ha : a = '+'
  · subst ha
    rw [pairValue?_plus, ReadPair, SignedPair, and_iff_right rfl]
    -- A plus sign is no digit.
    exact (or_iff_right fun ⟨_, _, hplus, _⟩ => hplus.ne rfl rfl).symm
  · rw [pairValue?_of_ne ha, ReadPair, SignedPair]
    exact (or_iff_left fun h => ha h.1).symm

/-- The character that a byte of text is, if it is one. -/
def charOf (b : UInt8) : Char := Char.ofNat b.toNat

theorem toNat_charOf (b : UInt8) : (charOf b).toNat = b.toNat :=
  Text.toNat_ofNat (.inl (Nat.lt_trans b.toNat_lt (by decide)))

theorem decode_pair {a b : UInt8} (ha : a.toNat < 0x80) (hb : b.toNat < 0x80) :
    ∃ text, Text.Utf8.decode [a, b] = .ok text := by
  have hdecoded : Text.Utf8.decodeFrom 0 [a, b] =
      .ok [Char.ofNat a.toNat, Char.ofNat b.toNat] := by
    rw [Text.Utf8.decodeFrom, Text.Utf8.character_one ha]
    dsimp only
    rw [List.drop_zero, Text.Utf8.decodeFrom, Text.Utf8.character_one hb]
    dsimp only
    rw [List.drop_zero, Text.Utf8.decodeFrom]
  exact ⟨_, by rw [Text.Utf8.decode, hdecoded]; rfl⟩

/-- Two bytes that are one character, or none, are refused: they are no digits. -/
theorem pairByte_eq_ok {a b byte : UInt8} :
    pairByte a b = .ok byte ↔ ReadPair (charOf a) (charOf b) byte := by
  rw [← pairValue?_eq_some_iff, pairByte]
  constructor
  · intro h
    split at h
    · cases h
    split at h
    · next value hvalue =>
        injection h with h
        exact h ▸ hvalue
    · cases h
  · intro h
    have hascii := (pairValue?_eq_some_iff.1 h).ascii
    rw [toNat_charOf, toNat_charOf] at hascii
    obtain ⟨text, htext⟩ := decode_pair hascii.1 hascii.2
    rw [charOf, charOf] at h
    rw [htext, h]

/-! ## A row of bytes -/

/-- Characters that spell bytes in pairs. -/
inductive InPairs (Spells : Char → Char → UInt8 → Prop) : List Char → Bytes → Prop where
  | nil : InPairs Spells [] []
  | cons {a b : Char} {byte : UInt8} {chars : List Char} {bytes : Bytes}
      (pair : Spells a b byte) (rest : InPairs Spells chars bytes) :
      InPairs Spells (a :: b :: chars) (byte :: bytes)

namespace InPairs

variable {Spells Spells' : Char → Char → UInt8 → Prop} {chars : List Char} {bytes : Bytes}

theorem length (h : InPairs Spells chars bytes) : chars.length = 2 * bytes.length := by
  induction h with
  | nil => rfl
  | cons _ _ ih =>
      rw [List.length_cons, List.length_cons, List.length_cons, ih]
      omega

/-- What every pair asks of its characters holds of all characters. -/
theorem forall_mem {p : Char → Prop} (hp : ∀ a b byte, Spells a b byte → p a ∧ p b)
    (h : InPairs Spells chars bytes) : ∀ c ∈ chars, p c := by
  induction h with
  | nil => exact fun c hc => absurd hc List.not_mem_nil
  | cons pair _ ih =>
      obtain ⟨ha, hb⟩ := hp _ _ _ pair
      exact List.forall_mem_cons.2 ⟨ha, List.forall_mem_cons.2 ⟨hb, ih⟩⟩

theorem imp (hpair : ∀ a b byte, a ∈ chars → Spells a b byte → Spells' a b byte)
    (h : InPairs Spells chars bytes) : InPairs Spells' chars bytes := by
  induction h with
  | nil => exact .nil
  | cons pair _ ih =>
      refine .cons (hpair _ _ _ (by simp) pair) (ih fun a b byte ha => hpair a b byte ?_)
      exact List.mem_cons_of_mem _ (List.mem_cons_of_mem _ ha)

theorem ascii (h : InPairs ReadPair chars bytes) : ∀ c ∈ chars, c.toNat < 0x80 :=
  h.forall_mem fun _ _ _ => ReadPair.ascii

end InPairs

theorem pairBytes_eq_ok {digits bytes : Bytes} (heven : digits.length % 2 = 0) :
    pairBytes digits = .ok bytes ↔ InPairs ReadPair (digits.map charOf) bytes := by
  induction digits using pairBytes.induct generalizing bytes with
  | case1 a b rest ih =>
      have hrest : rest.length % 2 = 0 := by
        rw [List.length_cons, List.length_cons] at heven
        omega
      rw [pairBytes, except_bind_eq_ok, List.map_cons, List.map_cons]
      constructor
      · rintro ⟨byte, hbyte, h⟩
        obtain ⟨more, hmore, h⟩ := except_bind_eq_ok.1 h
        injection h with h
        exact h ▸ .cons (pairByte_eq_ok.1 hbyte) ((ih hrest).1 hmore)
      · rintro (_ | ⟨pair, more⟩)
        exact ⟨_, pairByte_eq_ok.2 pair, except_bind_eq_ok.2 ⟨_, (ih hrest).2 more, rfl⟩⟩
  | case2 digits hshort =>
      match digits, hshort, heven with
      | [], _, _ =>
          constructor
          · intro h
            injection h with h
            exact h ▸ .nil
          · rintro ⟨⟩
            rfl
      | [b], _, heven => exact absurd heven (by rw [List.length_singleton]; decide)
      | a :: b :: rest, hshort, _ => exact absurd rfl (hshort a b rest)

/-! ## A label -/

/-- The characters of a text that are neither points nor blanks. -/
def digitsOf (text : String) : List Char := text.toList.filter fun c => c != '.' && c != ' '

/-- A point and a blank are a byte each, and the bytes of other characters are neither. -/
theorem filter_utf8EncodeChar (c : Char) :
    (String.utf8EncodeChar c).filter (fun b => b.toNat != 0x2E && b.toNat != 0x20) =
      if c != '.' && c != ' ' then String.utf8EncodeChar c else [] := by
  by_cases hpoint : c = '.'
  · subst hpoint
    rfl
  by_cases hblank : c = ' '
  · subst hblank
    rfl
  rw [if_pos (by simp [hpoint, hblank])]
  refine List.filter_eq_self.2 fun b hb => ?_
  rw [Bool.and_eq_true, bne_iff_ne, bne_iff_ne]
  constructor
  · intro hbyte
    have hc := Text.Utf8.toNat_eq_of_mem hb (by omega)
    exact hpoint (Char.toNat_inj.1 (hc.trans hbyte))
  · intro hbyte
    have hc := Text.Utf8.toNat_eq_of_mem hb (by omega)
    exact hblank (Char.toNat_inj.1 (hc.trans hbyte))

/-- So it does not matter whether they are taken out before or after the text is encoded. -/
theorem filter_encodeChars (chars : List Char) :
    (Text.Utf8.encodeChars chars).filter (fun b => b.toNat != 0x2E && b.toNat != 0x20) =
      Text.Utf8.encodeChars (chars.filter fun c => c != '.' && c != ' ') := by
  induction chars with
  | nil => rfl
  | cons c chars ih =>
      rw [Text.Utf8.encodeChars, List.flatMap_cons, ← Text.Utf8.encodeChars, List.filter_append,
        ih, filter_utf8EncodeChar, List.filter_cons]
      split
      · rfl
      · rfl

variable {text : String} {key : UniversalKey}

theorem ofBytes?_eq_some_iff {bytes : Bytes} : ofBytes? bytes = some key ↔ bytes = key.bytes := by
  rw [ofBytes?]
  constructor
  · intro h
    split at h
    · injection h with h
      exact congrArg UniversalKey.bytes h
    · cases h
  · rintro rfl
    exact dif_pos key.length_eq

/-- As far as the bytes of the text go, a label is 32 of them, in pairs. -/
theorem parse_eq_ok_bytes : parse text = .ok key ↔
    (Text.Utf8.encodeChars (digitsOf text)).length = 32 ∧
      pairBytes (Text.Utf8.encodeChars (digitsOf text)) = .ok key.bytes := by
  rw [parse, Text.Utf8.encode, filter_encodeChars, ← digitsOf]
  by_cases hlength : (Text.Utf8.encodeChars (digitsOf text)).length = 32
  · rw [if_pos hlength, except_bind_eq_ok, and_iff_right hlength]
    constructor
    · rintro ⟨bytes, hpairs, h⟩
      cases hfound : ofBytes? bytes with
      | none =>
          rw [hfound] at h
          cases h
      | some found =>
          rw [hfound] at h
          injection h with h
          rw [hpairs, ofBytes?_eq_some_iff.1 hfound, h]
    · intro hpairs
      refine ⟨_, hpairs, ?_⟩
      rw [ofBytes?_eq_some_iff.2 rfl]
      rfl
  · rw [if_neg hlength]
    constructor
    · intro h
      cases h
    · rintro ⟨h, -⟩
      exact absurd h hlength

/-- Where all bytes are below 128, bytes and characters are the same. -/
theorem map_charOf_encodeChars {chars : List Char}
    (h : ∀ b ∈ Text.Utf8.encodeChars chars, b.toNat < 0x80) :
    (Text.Utf8.encodeChars chars).map charOf = chars :=
  Text.Utf8.encodeChars_injective (Text.Encoding.encodeChars_ascii h)

/-- A label is read from a text exactly if the characters of the text, less points and blanks,
spell its bytes. -/
theorem parse_eq_ok : parse text = .ok key ↔ InPairs ReadPair (digitsOf text) key.bytes := by
  rw [parse_eq_ok_bytes]
  constructor
  · rintro ⟨hlength, hpairs⟩
    have hspelled := (pairBytes_eq_ok (by rw [hlength])).1 hpairs
    rwa [map_charOf_encodeChars] at hspelled
    exact fun b hb => toNat_charOf b ▸ hspelled.ascii _ (List.mem_map_of_mem hb)
  · intro hspelled
    have hchars : (Text.Utf8.encodeChars (digitsOf text)).map charOf = digitsOf text := by
      refine map_charOf_encodeChars fun b hb => ?_
      rw [Text.Encoding.encodeChars_of_ascii hspelled.ascii] at hb
      obtain ⟨c, hc, rfl⟩ := List.mem_map.1 hb
      have hsmall := hspelled.ascii c hc
      rwa [Text.Utf8.toNat_byte (by omega)]
    have hlength : (Text.Utf8.encodeChars (digitsOf text)).length = 32 := by
      rw [← List.length_map charOf, hchars, hspelled.length, key.length_eq]
    exact ⟨hlength, (pairBytes_eq_ok (by rw [hlength])).2 (hchars.symm ▸ hspelled)⟩

/-! ## The notation -/

theorem InPairs.of_digits {chars : List Char} {n : Nat} (hlength : chars.length = 2 * n)
    (hdigits : ∀ c ∈ chars, ∃ n, IsHexDigit c n) :
    ∃ bytes : Bytes, bytes.length = n ∧ InPairs DigitPair chars bytes := by
  induction n generalizing chars with
  | zero =>
      rw [List.length_eq_zero_iff.1 hlength]
      exact ⟨[], rfl, .nil⟩
  | succ n ih =>
      match chars, hlength, hdigits with
      | a :: b :: rest, hlength, hdigits =>
          obtain ⟨⟨high, ha⟩, hdigits⟩ := List.forall_mem_cons.1 hdigits
          obtain ⟨⟨low, hb⟩, hdigits⟩ := List.forall_mem_cons.1 hdigits
          rw [List.length_cons, List.length_cons] at hlength
          obtain ⟨bytes, hbytes, hspelled⟩ := ih (by omega) hdigits
          have hhigh := ha.1
          have hlow := hb.1
          refine ⟨UInt8.ofNat (16 * high + low) :: bytes, by rw [List.length_cons, hbytes], ?_⟩
          exact .cons ⟨high, low, ha, hb, Text.Utf8.toNat_byte (by omega)⟩ hspelled

theorem InPairs.digits {chars : List Char} {bytes : Bytes} (h : InPairs DigitPair chars bytes) :
    ∀ c ∈ chars, ∃ n, IsHexDigit c n := by
  refine h.forall_mem fun a b byte pair => ?_
  obtain ⟨high, low, ha, hb, -⟩ := pair
  exact ⟨⟨high, ha⟩, low, hb⟩

/-- The notation of labels: 32 digits, besides points and blanks. -/
theorem exists_digitPairs_iff :
    (∃ key : UniversalKey, InPairs DigitPair (digitsOf text) key.bytes) ↔
      (digitsOf text).length = 32 ∧ ∀ c ∈ digitsOf text, ∃ n, IsHexDigit c n := by
  constructor
  · rintro ⟨key, h⟩
    exact ⟨by rw [h.length, key.length_eq], h.digits⟩
  · rintro ⟨hlength, hdigits⟩
    obtain ⟨bytes, hbytes, hspelled⟩ := InPairs.of_digits (n := 16) hlength hdigits
    exact ⟨⟨bytes, hbytes⟩, hspelled⟩

theorem plus_mem_digitsOf : '+' ∈ digitsOf text ↔ '+' ∈ text.toList := by
  rw [digitsOf, List.mem_filter]
  exact and_iff_left rfl

/-- Without a plus sign, what is read is what the notation says. -/
theorem digitPairs_iff : InPairs DigitPair (digitsOf text) key.bytes ↔
    parse text = .ok key ∧ '+' ∉ text.toList := by
  rw [parse_eq_ok, ← plus_mem_digitsOf]
  constructor
  · intro h
    refine ⟨h.imp fun _ _ _ _ pair => .inl pair, fun hplus => ?_⟩
    obtain ⟨n, hdigit⟩ := h.digits _ hplus
    exact hdigit.ne rfl rfl
  · rintro ⟨h, hplus⟩
    refine h.imp fun a b byte ha pair => pair.resolve_right fun hsigned => ?_
    exact hplus (hsigned.1 ▸ ha)

theorem inPairs_upperHex (bytes : Bytes) :
    InPairs DigitPair (bytes.flatMap Text.upperHexByte) bytes := by
  induction bytes with
  | nil => exact .nil
  | cons b bytes ih =>
      have hb := b.toNat_lt
      refine .cons ⟨b.toNat / 16, b.toNat % 16, ⟨by omega, .inl rfl⟩, ⟨by omega, .inl rfl⟩, ?_⟩ ih
      exact (Nat.div_add_mod _ _).symm

theorem digitsOf_append (s t : String) : digitsOf (s ++ t) = digitsOf s ++ digitsOf t := by
  rw [digitsOf, String.toList_append, List.filter_append]
  rfl

/-- Digits are neither points nor blanks. -/
theorem digitsOf_upperHex (bytes : Bytes) :
    digitsOf (Text.upperHex bytes) = bytes.flatMap Text.upperHexByte := by
  rw [digitsOf, Text.upperHex, String.toList_ofList]
  refine List.filter_eq_self.2 fun c hc => ?_
  obtain ⟨n, hdigit⟩ := (inPairs_upperHex bytes).digits c hc
  simp [hdigit.ne (d := '.') rfl, hdigit.ne (d := ' ') rfl]

/-- The digits of a label's text are those of its bytes, in upper case. -/
theorem digitsOf_display (key : UniversalKey) :
    digitsOf key.display = key.bytes.flatMap Text.upperHexByte := by
  have hgroups : key.bytes = (key.bytes.drop 0).take 4 ++ ((key.bytes.drop 4).take 4 ++
      ((key.bytes.drop 8).take 4 ++ (key.bytes.drop 12).take 4)) := by
    have hlast : (key.bytes.drop 12).take 4 = key.bytes.drop 12 :=
      List.take_of_length_le (by rw [List.length_drop, key.length_eq])
    have hcut : ∀ i, (key.bytes.drop i).take 4 ++ key.bytes.drop (i + 4) = key.bytes.drop i :=
      fun i => by rw [← List.drop_drop, List.take_append_drop]
    rw [hlast, hcut 8, hcut 4, hcut 0, List.drop_zero]
  have hdisplay : key.display = Text.upperHex ((key.bytes.drop 0).take 4) ++ "." ++
      (Text.upperHex ((key.bytes.drop 4).take 4) ++ "." ++
        (Text.upperHex ((key.bytes.drop 8).take 4) ++ "." ++
          Text.upperHex ((key.bytes.drop 12).take 4))) := by
    rw [display, show List.range 4 = [0, 1, 2, 3] from rfl]
    simp only [List.map_cons, List.map_nil]
    rw [String.intercalate_cons_of_ne_nil (by simp), String.intercalate_cons_of_ne_nil (by simp),
      String.intercalate_cons_of_ne_nil (by simp), String.intercalate_singleton]
  have hpoint : digitsOf "." = [] := by decide
  conv_rhs => rw [hgroups]
  rw [hdisplay]
  simp only [digitsOf_append, digitsOf_upperHex, hpoint, List.flatMap_append, List.append_nil]

/-- A label is read back from its text. -/
theorem parse_display (key : UniversalKey) : parse key.display = .ok key := by
  refine (digitPairs_iff.1 ?_).1
  rw [digitsOf_display]
  exact inPairs_upperHex key.bytes

/-- A label is read from a text exactly if the text, less its points and blanks, spells sixteen
bytes in pairs: of two hexadecimal digits, or of a plus sign and one. So a text without a plus
sign is read exactly if 32 digits are left of it, as the bytes that the pairs of them spell. And
every label is read back from the text it is shown as. -/
theorem text_read_iff_spelled (text : String) :
    (∀ key, parse text = .ok key ↔ InPairs ReadPair (digitsOf text) key.bytes) ∧
      (∀ key, InPairs DigitPair (digitsOf text) key.bytes ↔
        parse text = .ok key ∧ '+' ∉ text.toList) ∧
      ((digitsOf text).length = 32 ∧ (∀ c ∈ digitsOf text, ∃ n, IsHexDigit c n) ↔
        (∃ key, parse text = .ok key) ∧ '+' ∉ text.toList) ∧
      ∀ key, parse key.display = .ok key := by
  refine ⟨fun _ => parse_eq_ok, fun _ => digitPairs_iff, ?_, parse_display⟩
  rw [← exists_digitPairs_iff, ← exists_and_right]
  exact exists_congr fun _ => digitPairs_iff

/-- A text with a plus sign in place of its first digit is no notation of a label, but it is
read as one. -/
theorem plusSign_read :
    let text := "+60E2B34.020B0101.0E010301.01000000"
    let key := ofWords 0x060E2B34020B0101 0x0E01030101000000
    parse text = .ok key ∧
      ¬ ((digitsOf text).length = 32 ∧ ∀ c ∈ digitsOf text, ∃ n, IsHexDigit c n) := by
  intro text key
  obtain ⟨hread, -, hstrict, -⟩ := text_read_iff_spelled text
  constructor
  · have hdigits : digitsOf text = '+' :: '6' :: key.bytes.tail.flatMap Text.upperHexByte := by
      decide
    have hbytes : key.bytes = 0x06 :: key.bytes.tail := by decide
    have hfirst : ReadPair '+' '6' 0x06 := .inr ⟨rfl, by decide, .inl rfl⟩
    refine (hread key).2 ?_
    rw [hdigits, hbytes]
    exact .cons hfirst ((inPairs_upperHex _).imp fun _ _ _ _ pair => .inl pair)
  · intro h
    exact (hstrict.1 h).2 (by decide)

end UniversalKey

end MotionMetadata
