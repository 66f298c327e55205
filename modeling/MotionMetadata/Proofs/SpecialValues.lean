import Mathlib.Data.Nat.Bitwise
import Mathlib.Tactic.IntervalCases
import MotionMetadata.Proofs.ExactNumbers

/-!
# Patterns that are set aside

The integers of the upper half of a scaled field, its first one apart, do not stand for numbers
of the domain. Their top five bits name a kind, and the bits below are a payload, or none may be
set. `Pattern` is the table of what they stand for, and `Refused` says which of them stand for
nothing; the lemmas show that the reader goes by the first and refuses exactly the second. A
value has one pattern in each width that has room for it, so what is read is written as the
bytes it was read from.
-/

namespace MotionMetadata.Imap

variable {low high : Binary64} {width bits kind rest raw position : Nat} {x : Imap}

/-! ## The table -/

/-- What a pattern stands for, of which the top five bits spell `kind` and the `bits` bits below
spell `rest`. -/
inductive Pattern (bits : Nat) : (kind rest : Nat) → Imap → Prop where
  | infinity : Pattern bits 0b11001 0 (.normal .infinity)
  | negInfinity : Pattern bits 0b11101 0 (.normal .negInfinity)
  | quiet (payload : UInt64) : Pattern bits 0b11010 payload.toNat (.nan false false payload)
  | negQuiet (payload : UInt64) : Pattern bits 0b11110 payload.toNat (.nan false true payload)
  | signaling (payload : UInt64) : Pattern bits 0b11011 payload.toNat (.nan true false payload)
  | negSignaling (payload : UInt64) : Pattern bits 0b11111 payload.toNat (.nan true true payload)
  | userDefined (payload : UInt64) : Pattern bits 0b11000 payload.toNat (.userDefined payload)
  | belowMinimum : Pattern bits 0b11100 0 .belowMinimum
  | aboveMaximum : Pattern bits 0b11100 (2 ^ (bits - 3)) .aboveMaximum

/-- Patterns that stand for nothing: kinds and markers without a meaning, and infinities and
markers with other bits set. -/
inductive Refused (bits kind rest : Nat) : Prop where
  | kind (h : kind < 0b11000)
  | marker (hkind : kind = 0b11100) (h : 2 ≤ rest / 2 ^ (bits - 3))
  | strayInfinity (hkind : kind = 0b11001 ∨ kind = 0b11101) (h : rest ≠ 0)
  | strayMarker (hkind : kind = 0b11100) (h : rest % 2 ^ (bits - 3) ≠ 0)

theorem Pattern.not_refused (h : Pattern bits kind rest x) : ¬ Refused bits kind rest := by
  have hpos : 0 < 2 ^ (bits - 3) := Nat.two_pow_pos _
  intro hrefused
  cases hrefused with
  | kind hkind => cases h <;> omega
  | marker hkind hmarker =>
      cases h with
      | belowMinimum =>
          rw [Nat.zero_div] at hmarker
          omega
      | aboveMaximum =>
          rw [Nat.div_self hpos] at hmarker
          omega
      | _ => cases hkind
  | strayInfinity hkind hrest =>
      cases h with
      | infinity => exact hrest rfl
      | negInfinity => exact hrest rfl
      | _ => omega
  | strayMarker hkind hrest =>
      cases h with
      | belowMinimum => exact hrest (Nat.zero_mod _)
      | aboveMaximum => exact hrest (Nat.mod_self _)
      | _ => cases hkind

/-- What is not refused stands for something. -/
theorem exists_pattern (hkind : kind < 32) (hrest : rest < 2 ^ 64)
    (h : ¬ Refused bits kind rest) : ∃ x, Pattern bits kind rest x := by
  obtain ⟨payload, rfl⟩ : ∃ payload : UInt64, payload.toNat = rest :=
    ⟨UInt64.ofNat rest, UInt64.toNat_ofNat_of_lt hrest⟩
  have hlow : 24 ≤ kind := Nat.not_lt.1 fun hlt => h (.kind hlt)
  have hinfinity : kind = 25 ∨ kind = 29 → payload.toNat = 0 := fun hkind =>
    by_contra fun hne => h (.strayInfinity hkind hne)
  interval_cases kind
  · exact ⟨_, .userDefined payload⟩
  · rw [hinfinity (.inl rfl)]
    exact ⟨_, .infinity⟩
  · exact ⟨_, .quiet payload⟩
  · exact ⟨_, .signaling payload⟩
  · have hmarker : payload.toNat / 2 ^ (bits - 3) < 2 :=
      Nat.not_le.1 fun hle => h (.marker rfl hle)
    have hbare : payload.toNat % 2 ^ (bits - 3) = 0 :=
      by_contra fun hne => h (.strayMarker rfl hne)
    have hsum := Nat.div_add_mod payload.toNat (2 ^ (bits - 3))
    rw [hbare, Nat.add_zero] at hsum
    generalize payload.toNat / 2 ^ (bits - 3) = marker at hmarker hsum
    interval_cases marker
    · rw [← hsum, Nat.mul_zero]
      exact ⟨_, .belowMinimum⟩
    · rw [← hsum, Nat.mul_one]
      exact ⟨_, .aboveMaximum⟩
  · rw [hinfinity (.inr rfl)]
    exact ⟨_, .negInfinity⟩
  · exact ⟨_, .negQuiet payload⟩
  · exact ⟨_, .negSignaling payload⟩

/-! ## Reading goes by the table -/

/-- An integer of the upper half is taken for what its pattern stands for. -/
theorem specialOf_eq_ok (hwidth : 1 ≤ width ∧ width ≤ 8) (hkind : kind < 32)
    (hrest : rest < 2 ^ (8 * width - 5)) :
    specialOf width (2 ^ (8 * width - 5) * kind + rest) = .ok x ↔
      Pattern (8 * width - 5) kind rest x := by
  have hpos : 0 < 2 ^ (8 * width - 5) := Nat.two_pow_pos _
  have hhead : (2 ^ (8 * width - 5) * kind + rest) / 2 ^ (8 * width - 5) % 32 = kind := by
    rw [Nat.mul_add_div hpos, Nat.div_eq_of_lt hrest, Nat.add_zero, Nat.mod_eq_of_lt hkind]
  have htail : (2 ^ (8 * width - 5) * kind + rest) % 2 ^ (8 * width - 5) = rest := by
    rw [Nat.mul_add_mod, Nat.mod_eq_of_lt hrest]
  have hmarkers : 2 ^ (8 * width - 5) = 8 * 2 ^ (8 * width - 5 - 3) := by
    rw [← Nat.pow_add 2 3]
    congr 1
    omega
  have hmarker : rest / 2 ^ (8 * width - 5 - 3) % 8 = rest / 2 ^ (8 * width - 5 - 3) :=
    Nat.mod_eq_of_lt (Nat.div_lt_of_lt_mul (by rw [Nat.mul_comm, ← hmarkers]; exact hrest))
  have hsmall : rest < 2 ^ 64 :=
    Nat.lt_of_lt_of_le hrest (Nat.pow_le_pow_right (by decide) (by omega))
  obtain ⟨payload, rfl⟩ : ∃ payload : UInt64, payload.toNat = rest :=
    ⟨UInt64.ofNat rest, UInt64.toNat_ofNat_of_lt hsmall⟩
  rw [specialOf]
  dsimp only
  rw [hhead, htail, hmarker, UInt64.ofNat_toNat]
  constructor
  · intro h
    have hsum := Nat.div_add_mod payload.toNat (2 ^ (8 * width - 5 - 3))
    split at h
    · obtain ⟨hzero, rfl⟩ := bare_eq_ok.1 h
      exact hzero ▸ .infinity
    · obtain ⟨hzero, rfl⟩ := bare_eq_ok.1 h
      exact hzero ▸ .negInfinity
    · injection h with h
      exact h ▸ .quiet payload
    · injection h with h
      exact h ▸ .negQuiet payload
    · injection h with h
      exact h ▸ .signaling payload
    · injection h with h
      exact h ▸ .negSignaling payload
    · injection h with h
      exact h ▸ .userDefined payload
    · split at h
      · next hzero =>
          obtain ⟨hbare, rfl⟩ := bare_eq_ok.1 h
          rw [hzero, hbare, Nat.mul_zero] at hsum
          exact hsum ▸ .belowMinimum
      · next hone =>
          obtain ⟨hbare, rfl⟩ := bare_eq_ok.1 h
          rw [hone, hbare, Nat.mul_one] at hsum
          exact hsum ▸ .aboveMaximum
      · cases h
    · cases h
  · intro h
    generalize hp : payload.toNat = rest at h
    cases h with
    | belowMinimum =>
        rw [Nat.zero_div, Nat.zero_mod]
        rfl
    | aboveMaximum =>
        rw [Nat.div_self (Nat.two_pow_pos _), Nat.mod_self]
        rfl
    | infinity => rfl
    | negInfinity => rfl
    | _ =>
        rw [UInt64.toNat_inj.1 hp]
        rfl

/-- What a pattern stands for has the pattern's kind as the top of its header. -/
theorem Pattern.header_div (h : Pattern bits kind rest x) : x.header / 8 = kind := by
  cases h with
  | infinity | negInfinity => rfl
  | _ => rw [header]

/-- A pattern is written for what it stands for. -/
theorem Pattern.written (h : Pattern (8 * width - 5) kind rest x) (hwidth : 1 ≤ width ∧ width ≤ 8)
    (hrest : rest < 2 ^ (8 * width - 5)) :
    x.SetAside ∧ x.minLength ≤ width ∧
      (specialInteger width x).toNat = 2 ^ (8 * width - 5) * kind + rest := by
  have hroom : x.minLength ≤ width := by
    rw [minLength_le_iff hwidth.1]
    cases h with
    | quiet | negQuiet | signaling | negSignaling | userDefined => exact hrest
    | _ => exact Nat.two_pow_pos _
  have hmarker : 8 * (width - 1) = 8 * width - 5 - 3 := by omega
  have hbelow : Imap.rest width x = rest := by
    cases h with
    | aboveMaximum => rw [rest_aboveMaximum, hmarker]
    | _ => exact rest_of_ne (by rintro ⟨⟩)
  refine ⟨?_, hroom, by rw [toNat_specialInteger hwidth hroom, h.header_div, hbelow]⟩
  cases h with
  | infinity | negInfinity => rfl
  | _ => trivial

/-! ## Bytes -/

/-- The special integers are those with the top bit and some other bit set. -/
theorem isSpecial_iff_testBit (hpos : 1 ≤ width) (hraw : raw < 256 ^ width) :
    isSpecial width raw ↔
      raw.testBit (8 * width - 1) ∧ ∃ i < 8 * width - 1, raw.testBit i := by
  have hhalf := Integer.pow_256_eq_double hpos
  have hsplit := Nat.div_add_mod raw (2 ^ (8 * width - 1))
  have hlow : (∃ i < 8 * width - 1, raw.testBit i) ↔ raw % 2 ^ (8 * width - 1) ≠ 0 := by
    constructor
    · rintro ⟨i, hi, hbit⟩ hzero
      have hmod := Nat.testBit_mod_two_pow raw (8 * width - 1) i
      rw [hzero, Nat.zero_testBit, decide_eq_true hi, hbit] at hmod
      cases hmod
    · intro hne
      obtain ⟨i, hbit⟩ := Nat.exists_testBit_of_ne_zero hne
      rw [Nat.testBit_mod_two_pow, Bool.and_eq_true, decide_eq_true_iff] at hbit
      exact ⟨i, hbit⟩
  have hhead : raw / 2 ^ (8 * width - 1) < 2 :=
    Nat.div_lt_of_lt_mul (by rw [Nat.mul_comm, ← hhalf]; exact hraw)
  rw [isSpecial, decide_eq_true_iff, hlow, Nat.testBit_eq_decide_div_mod_eq, decide_eq_true_iff]
  generalize raw / 2 ^ (8 * width - 1) = top at hhead hsplit ⊢
  have hrest := Nat.mod_lt raw (Nat.two_pow_pos (8 * width - 1))
  interval_cases top <;> omega

/-- The bytes of a special integer are read as what it spells. -/
theorem answers_special {data : Bytes} (hdomain : checkDomain low high data.length = .ok ())
    (hspecial : isSpecial data.length (BigEndian.value data)) :
    (read low high data.length).Answers data (specialOf data.length (BigEndian.value data)) := by
  obtain ⟨_, hwidth⟩ := checkDomain_eq_ok.1 hdomain
  have hraw := Integer.toNat_value_of_le hwidth.2
  have hlt : (UInt64.ofNat (BigEndian.value data)).toNat < 256 ^ data.length :=
    hraw.symm ▸ BigEndian.value_lt data
  have h := read_answers hdomain hlt
  rwa [meaning, hraw, if_pos hspecial, BigEndian.bytes_value] at h

/-- What is set aside is written as its pattern, if the width has room for what it carries. -/
theorem write_setAside {w : Bytes} (hdomain : checkDomain low high width = .ok ())
    (hx : x.SetAside) :
    write x low high width position = .ok ((), w) ↔
      x.payload.toNat < 2 ^ (8 * width - 5) ∧
        w = BigEndian.bytes width (specialInteger width x).toNat := by
  obtain ⟨_, hwidth⟩ := checkDomain_eq_ok.1 hdomain
  rw [write_eq_ok, sentInteger_of_setAside hx, Integer.writeUnsigned_eq_ok,
    minLength_le_iff hwidth.1]
  constructor
  · rintro ⟨_, hroom, _, _, hw⟩
    exact ⟨hroom, hw⟩
  · rintro ⟨hroom, hw⟩
    have hlt := specialInteger_lt hwidth ((minLength_le_iff hwidth.1).2 hroom)
    exact ⟨hdomain, hroom, hwidth, hlt, hw⟩

/-- A special integer that is read comes out as a value that is set aside, and this is written
as the same bytes. What is refused are the patterns that stand for nothing. -/
theorem read_special {data t : Bytes} {c : Cursor}
    (hdomain : checkDomain low high data.length = .ok ())
    (hspecial : isSpecial data.length (BigEndian.value data)) (hc : c.rest = data ++ t) :
    (∀ x d, read low high data.length c = .ok x d → d = c.advance data.length ∧ x.SetAside ∧
      ∀ position, write x low high data.length position = .ok ((), data)) ∧
    ((∃ e d, read low high data.length c = .error e d) ↔
      Refused (8 * data.length - 5) (BigEndian.value data / 2 ^ (8 * data.length - 5))
        (BigEndian.value data % 2 ^ (8 * data.length - 5))) := by
  obtain ⟨_, hwidth⟩ := checkDomain_eq_ok.1 hdomain
  have hanswers := answers_special hdomain hspecial
  have hsplit := Nat.div_add_mod (BigEndian.value data) (2 ^ (8 * data.length - 5))
  have hrest := Nat.mod_lt (BigEndian.value data) (Nat.two_pow_pos (8 * data.length - 5))
  have hkind : BigEndian.value data / 2 ^ (8 * data.length - 5) < 32 := by
    have htop : 256 ^ data.length = 2 ^ (8 * data.length - 5) * 32 := by
      rw [Integer.pow_256, ← Nat.pow_add _ _ 5]
      congr 1
      omega
    exact Nat.div_lt_of_lt_mul (htop ▸ BigEndian.value_lt data)
  generalize BigEndian.value data / 2 ^ (8 * data.length - 5) = kind at hsplit hkind ⊢
  generalize hbelow : BigEndian.value data % 2 ^ (8 * data.length - 5) = rest at hsplit hrest ⊢
  rw [← hsplit] at hanswers
  cases houtcome : specialOf data.length (2 ^ (8 * data.length - 5) * kind + rest) with
  | ok y =>
      rw [houtcome] at hanswers
      have hread := hanswers c t hc
      have hpattern := (specialOf_eq_ok hwidth hkind hrest).1 houtcome
      obtain ⟨hy, hroom, hinteger⟩ := hpattern.written hwidth hrest
      refine ⟨fun x d h => ?_, iff_of_false ?_ hpattern.not_refused⟩
      · rw [hread] at h
        injection h with hx hd
        subst hx
        refine ⟨hd.symm, hy, fun position => (write_setAside hdomain hy).2 ⟨?_, ?_⟩⟩
        · exact (minLength_le_iff hwidth.1).1 hroom
        · rw [hinteger, hsplit, BigEndian.bytes_value]
      · rintro ⟨e, d, h⟩
        rw [hread] at h
        cases h
  | error f =>
      rw [houtcome] at hanswers
      obtain ⟨e, d, hread, _⟩ := hanswers c t hc
      refine ⟨fun x d h => ?_, iff_of_true ⟨e, d, hread⟩ (by_contra fun hfine => ?_)⟩
      · rw [hread] at h
        cases h
      · have hsmall : rest < 2 ^ 64 :=
          Nat.lt_of_lt_of_le hrest (Nat.pow_le_pow_right (by decide) (by omega))
        obtain ⟨y, hy⟩ := exists_pattern hkind hsmall hfine
        rw [(specialOf_eq_ok hwidth hkind hrest).2 hy] at houtcome
        cases houtcome

/-- Over any domain and in any width, a special integer that is read is written back as the
same bytes, and it is refused exactly if its kind is reserved or it carries stray bits. An
infinity, a NaN, a marker or a value of the user is written exactly if its payload fits beside
the five bits of its kind, and is then read back as it was. -/
theorem special_values_keep_bits (hlow : low.isFinite) (hhigh : high.isFinite)
    (hlt : low.lt high) (hwidth : 1 ≤ width ∧ width ≤ 8) (buffer : Bytes) :
    (∀ (data t : Bytes) (origin consumed : Nat), data.length = width →
      (BigEndian.value data).testBit (8 * width - 1) →
      (∃ i < 8 * width - 1, (BigEndian.value data).testBit i) →
      let outcome := read low high width ⟨origin, consumed, data ++ t⟩
      (∀ x d, outcome = .ok x d → d = ⟨origin, consumed + width, t⟩ ∧ x.SetAside ∧
        (write x low high width).appendTo buffer = (.ok (), buffer ++ data)) ∧
      ((∃ e d, outcome = .error e d) ↔
        Refused (8 * width - 5) (BigEndian.value data / 2 ^ (8 * width - 5))
          (BigEndian.value data % 2 ^ (8 * width - 5)))) ∧
    ∀ x : Imap, x.SetAside →
      ((∃ out, (write x low high width).appendTo buffer = (.ok (), out)) ↔
        x.payload.toNat < 2 ^ (8 * width - 5)) ∧
      ∀ out, (write x low high width).appendTo buffer = (.ok (), out) →
        ∃ w, out = buffer ++ w ∧ w.length = width ∧ ∀ origin consumed t,
          read low high width ⟨origin, consumed, w ++ t⟩ =
            .ok x ⟨origin, consumed + width, t⟩ := by
  have hdomain : checkDomain low high width = .ok () :=
    checkDomain_eq_ok.2 ⟨by rw [hlow, hhigh, hlt]; rfl, hwidth⟩
  refine ⟨fun data t origin consumed hlength htop hother => ?_, fun x hx => ⟨?_, ?_⟩⟩
  · subst hlength
    have hspecial := (isSpecial_iff_testBit hwidth.1 (BigEndian.value_lt data)).2 ⟨htop, hother⟩
    obtain ⟨hok, herror⟩ := read_special (t := t) (c := ⟨origin, consumed, data ++ t⟩) hdomain
      hspecial rfl
    refine ⟨fun x d h => ?_, herror⟩
    obtain ⟨rfl, hx, hwrite⟩ := hok x d h
    refine ⟨?_, hx, Encoder.appendTo_eq_ok.2 ⟨(), data, hwrite _, rfl⟩⟩
    exact Cursor.advance_append ..
  · constructor
    · rintro ⟨out, h⟩
      obtain ⟨_, _, hwrite, _⟩ := Encoder.appendTo_eq_ok.1 h
      exact ((write_setAside hdomain hx).1 hwrite).1
    · intro hroom
      exact ⟨_, Encoder.appendTo_eq_ok.2
        ⟨(), _, (write_setAside hdomain hx).2 ⟨hroom, rfl⟩, rfl⟩⟩
  · intro out h
    obtain ⟨_, w, hwrite, rfl⟩ := Encoder.appendTo_eq_ok.1 h
    have hcount : w.length = width := by
      rw [((write_setAside hdomain hx).1 hwrite).2, BigEndian.length_bytes]
    have hexact : Exact low high width x := by
      cases x with
      | normal number => exact .inl hx
      | _ => trivial
    refine ⟨w, rfl, hcount, fun origin consumed t => ?_⟩
    rw [reads_write hwrite hexact ⟨origin, consumed, w ++ t⟩ t rfl, ← hcount,
      Cursor.advance_append]

/-- From 0 to 180 in two bytes, a payload of eleven bits is kept and one of twelve is not
written. An infinity that carries a bit is refused. -/
theorem signalingNaN_keeps_bits :
    (write (.nan true true 0x321) 0 180 2).appendTo [] = (.ok (), [0xFB, 0x21]) ∧
      read 0 180 2 ⟨0, 0, [0xFB, 0x21]⟩ = .ok (.nan true true 0x321) ⟨0, 2, []⟩ ∧
      (¬ ∃ out, (write (.nan true true 0x800) 0 180 2).appendTo [] = (.ok (), out)) ∧
      ∃ e d, read 0 180 2 ⟨0, 0, [0xC8, 0x01]⟩ = .error e d := by
  obtain ⟨hreads, hwrites⟩ := @special_values_keep_bits 0 180 2 (by decide) (by decide +kernel)
    (by decide +kernel) (by decide) []
  have hwritten : (write (.nan true true 0x321) 0 180 2).appendTo [] =
      (.ok (), [0xFB, 0x21]) := by rfl
  refine ⟨hwritten, ?_, ?_, ?_⟩
  · obtain ⟨w, hw, _, hread⟩ := (hwrites (.nan true true 0x321) trivial).2 _ hwritten
    rw [List.nil_append] at hw
    subst hw
    exact hread 0 0 []
  · rw [(hwrites (.nan true true 0x800) trivial).1]
    decide
  · exact (hreads [0xC8, 0x01] [] 0 0 rfl (by decide) ⟨0, by decide, by decide⟩).2.2
      (.strayInfinity (.inl (by decide)) (by decide))

end MotionMetadata.Imap
