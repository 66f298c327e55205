import MotionMetadata.Grid.Codec
import MotionMetadata.Proofs.Scaling
import MotionMetadata.Proofs.Singles
import MotionMetadata.Proofs.Writing

/-!
# Numbers that come back as they were

A number of four bytes was rounded, and one of a scaled field was mapped onto an integer, so
not all numbers come back from their field. Those that do are `Exact`: the single they round to
widens to them again, the integer they are mapped onto is mapped back to them. The arithmetic
of doubles decides which numbers those are. Infinities and special values it has no part in,
and the lemmas here show that each of them is read from the pattern it is written in.
-/

namespace MotionMetadata

namespace Reader

variable {α β : Type}

/-- What a reader makes of the bytes `data`, whatever follows them and wherever they stand. -/
def Answers (r : Reader α) (data : Bytes) : Except Fault α → Prop
  | .ok a => r.Reads data a
  | .error f => ∀ c t, c.rest = data ++ t → ∃ e d, r c = .error e d ∧ e.fault = f

section Answers

variable {w w' : Bytes} {outcome : Except Fault β}

/-- What comes behind bytes that are read decides. -/
theorem Reads.bind_answers {x : Reader α} {f : α → Reader β} {a : α} (hx : Reads x w a)
    (hf : Answers (f a) w' outcome) : Answers (x >>= f) (w ++ w') outcome := by
  cases outcome with
  | ok b => exact hx.bind hf
  | error fault =>
      intro c t hc
      rw [List.append_assoc] at hc
      rw [bind_of_ok (hx c _ hc)]
      exact hf _ t (Cursor.rest_advance_of_append hc)

/-- A part that fails makes the whole fail. -/
theorem Answers.error_bind {x : Reader α} {f : α → Reader β} {fault : Fault}
    (hx : Answers x w (.error fault)) : Answers (x >>= f) (w ++ w') (.error fault) := by
  intro c t hc
  rw [List.append_assoc] at hc
  obtain ⟨e, d, hread, hfault⟩ := hx c _ hc
  exact ⟨e, d, bind_of_error hread, hfault⟩

theorem Answers.map {x : Reader α} {f : α → β} {outcome : Except Fault α}
    (hx : Answers x w outcome) : Answers (x >>= fun a => pure (f a)) w (outcome.map f) := by
  cases outcome with
  | ok a => exact hx.bind_nil (.pure _)
  | error fault => exact List.append_nil w ▸ hx.error_bind

theorem Answers.position_bind {f : Nat → Reader β} (hf : ∀ p, Answers (f p) w outcome) :
    Answers (position >>= f) w outcome := by
  cases outcome with
  | ok b => exact .position_bind hf
  | error fault =>
      intro c t hc
      rw [bind_of_ok (position_apply c)]
      exact hf c.position c t hc

/-- A part whose length is looked at. -/
theorem Reads.measured_bind {x : Reader α} {f : Nat → α → Nat → Reader β} {a : α}
    (hx : Reads x w a) (hf : ∀ p, Answers (f p a (p + w.length)) w' outcome) :
    Answers (position >>= fun start => x >>= fun a => position >>= fun stop => f start a stop)
      (w ++ w') outcome := by
  have hat : ∀ c t, c.rest = w ++ w' ++ t →
      (position >>= fun start => x >>= fun a => position >>= fun stop => f start a stop :
        Reader β) c = f c.position a (c.position + w.length) (c.advance w.length) := by
    intro c t hc
    rw [List.append_assoc] at hc
    rw [bind_of_ok (position_apply c), bind_of_ok (hx c _ hc), bind_of_ok (position_apply _),
      Cursor.position_advance]
  have hrest : ∀ (c : Cursor) t, c.rest = w ++ w' ++ t → (c.advance w.length).rest = w' ++ t := by
    intro c t hc
    rw [List.append_assoc] at hc
    exact Cursor.rest_advance_of_append hc
  cases outcome with
  | ok b =>
      intro c t hc
      rw [hat c t hc, hf c.position _ t (hrest c t hc), Cursor.advance_advance, List.length_append]
  | error fault =>
      intro c t hc
      rw [hat c t hc]
      exact hf c.position _ t (hrest c t hc)

/-- A reader makes one thing of some bytes. -/
theorem Answers.eq_of_reads {x : Reader α} {a : α} {outcome : Except Fault α}
    (hx : Answers x w outcome) (h : Reads x w a) : outcome = .ok a := by
  have hall := h (Cursor.ofBytes w) [] (List.append_nil w).symm
  cases outcome with
  | ok b =>
      rw [hx (Cursor.ofBytes w) [] (List.append_nil w).symm] at hall
      injection hall with hall
      rw [hall]
  | error fault =>
      obtain ⟨e, d, hread, _⟩ := hx (Cursor.ofBytes w) [] (List.append_nil w).symm
      rw [hread] at hall
      cases hall

end Answers

end Reader

namespace Binary64

theorem isNaN_of_isInfinite {x : Binary64} (h : x.isInfinite) : x.isNaN = false := by
  rw [isInfinite, beq_iff_eq] at h
  rw [isNaN, h]
  exact decide_eq_false (Nat.lt_irrefl _)

/-- There are two infinities. -/
theorem eq_of_isInfinite {x : Binary64} (h : x.isInfinite) :
    x = if x.isNegative then negInfinity else infinity := by
  rw [isInfinite, beq_iff_eq, magnitude, infinityMagnitude] at h
  have hlt := x.bits.toNat_lt
  have hbits : x.bits = (if x.isNegative then negInfinity else infinity).bits := by
    refine UInt64.toNat_inj.1 ?_
    rw [isNegative]
    by_cases hneg : 2 ^ 63 ≤ x.bits.toNat
    · rw [if_pos (decide_eq_true hneg)]
      show x.bits.toNat = 0xFFF0000000000000
      omega
    · rw [if_neg (fun h => hneg (of_decide_eq_true h))]
      show x.bits.toNat = 0x7FF0000000000000
      omega
  exact congrArg Binary64.mk hbits

end Binary64

/-! ## Floating point -/

namespace Floating

variable {x : Binary64} {width position : Nat} {w : Bytes}

/-- A number that `width` bytes hold as it is. -/
def Exact (x : Binary64) (width : Nat) : Prop :=
  width = 8 ∨ width = 4 ∧ Binary64.ofSingleBits x.toSingleBits = x

theorem write_eq_ok :
    write x width position = .ok ((), w) ↔
      width = 8 ∧ w = BigEndian.bytes 8 x.bits.toNat ∨
      width = 4 ∧ (x.isFinite && Binary64.isInfiniteSingle x.toSingleBits) = false ∧
        w = BigEndian.bytes 4 x.toSingleBits.toNat := by
  constructor
  · intro h
    rw [write.eq_def] at h
    split at h
    · dsimp only at h
      split at h
      · cases h
      · next hfits =>
          cases h
          exact .inr ⟨rfl, Bool.eq_false_iff.2 hfits, rfl⟩
    · cases h
      exact .inl ⟨rfl, rfl⟩
    · cases h
  · rintro (⟨rfl, rfl⟩ | ⟨rfl, hfits, rfl⟩)
    · rfl
    · rw [write]
      dsimp only
      rw [hfits]
      rfl

/-- A number of four bytes is read from them as the single they spell. -/
theorem reads_single (single : UInt32) :
    Reader.Reads (read 4) (BigEndian.bytes 4 single.toNat) (.ofSingleBits single) := by
  refine .position_bind fun start => .bind_nil (Integer.reads_bytes (by decide) (by decide) _) ?_
  have hsingle : (UInt64.ofNat (single.toNat % 256 ^ 4)).toUInt32 = single := by
    rw [Nat.mod_eq_of_lt single.toNat_lt]
    refine UInt32.toNat_inj.1 ?_
    rw [UInt64.toNat_toUInt32, UInt64.toNat_ofNat']
    have hlt := single.toNat_lt
    omega
  rw [hsingle]
  exact .pure _

theorem reads_write (h : write x width position = .ok ((), w)) (hx : Exact x width) :
    Reader.Reads (read width) w x := by
  rcases write_eq_ok.1 h with ⟨rfl, rfl⟩ | ⟨rfl, _, rfl⟩
  · refine .position_bind fun start => .bind_nil (Integer.reads_bytes (by decide) (by decide) _) ?_
    have hbits : UInt64.ofNat (x.bits.toNat % 256 ^ 8) = x.bits := by
      rw [Nat.mod_eq_of_lt x.bits.toNat_lt, UInt64.ofNat_toNat]
    rw [hbits]
    exact .pure _
  · rcases hx with hwidth | ⟨_, hsingle⟩
    · cases hwidth
    · exact (reads_single x.toSingleBits).of_eq hsingle

end Floating

/-! ## Scaled values -/

namespace Imap

variable {low high : Binary64} {width position : Nat} {w : Bytes} {x : Imap}

/-- What an integer of `width` bytes stands for. -/
def meaning (low high : Binary64) (width : Nat) (raw : UInt64) : Except Fault Imap :=
  if isSpecial width raw.toNat then specialOf width raw.toNat
  else (numberOf low high width raw).map .normal

/-- The integer a value is sent as. -/
def sentInteger (low high : Binary64) (width : Nat) (value : Imap) : UInt64 :=
  match marked low high value with
  | .normal x =>
    if x.isFinite then integerOf low high width x else specialInteger width (.normal x)
  | special => specialInteger width special

/-- A value that its width represents. A number of the domain is represented if it comes back
through the integers: the one that it is mapped onto is no special value and is mapped back to
it. It is then the value of some integer, and `exact_iff_meaning` says of which. -/
def Exact (low high : Binary64) (width : Nat) : Imap → Prop
  | .normal x => x.isInfinite ∨ x.isFinite ∧
    isSpecial width (integerOf low high width x).toNat = false ∧
    numberOf low high width (integerOf low high width x) = .ok x
  | _ => True

theorem Exact.isNaN (hx : Exact low high width x) (number : Binary64)
    (h : x = .normal number) : number.isNaN = false := by
  subst h
  rcases hx with hinfinite | ⟨hfinite, _⟩
  · exact Binary64.isNaN_of_isInfinite hinfinite
  · rw [Binary64.isFinite, decide_eq_true_iff] at hfinite
    exact decide_eq_false (Nat.lt_asymm hfinite)

/-- What is read from the bytes of an integer is what the integer stands for. -/
theorem read_answers (hdomain : checkDomain low high width = .ok ()) {raw : UInt64}
    (hraw : raw.toNat < 256 ^ width) :
    (read low high width).Answers (BigEndian.bytes width raw.toNat)
      (meaning low high width raw) := by
  obtain ⟨_, hwidth⟩ := checkDomain_eq_ok.1 hdomain
  have hinteger := Integer.reads_bytes hwidth.1 hwidth.2 raw.toNat
  rw [Nat.mod_eq_of_lt hraw, UInt64.ofNat_toNat] at hinteger
  cases hmeaning : meaning low high width raw
  all_goals
    intro c t hc
    rw [meaning] at hmeaning
    rw [read, Reader.bind_of_ok (Reader.position_apply c), hdomain]
    dsimp only
    rw [Reader.bind_of_ok (hinteger c t hc), hmeaning]
  case ok => rfl
  case error => exact ⟨_, _, rfl, rfl⟩

/-- A value that fits is sent as its integer. -/
theorem write_eq (hdomain : checkDomain low high width = .ok ()) (hroom : x.minLength ≤ width) :
    write x low high width = Integer.writeUnsigned (sentInteger low high width x) width := by
  rw [write, hdomain, sentInteger]
  dsimp only
  rw [if_pos hroom]
  cases marked low high x with
  | normal number =>
      dsimp only
      split <;> rfl
  | _ => rfl

theorem write_eq_ok :
    write x low high width position = .ok ((), w) ↔
      checkDomain low high width = .ok () ∧ x.minLength ≤ width ∧
        Integer.writeUnsigned (sentInteger low high width x) width position = .ok ((), w) := by
  constructor
  · intro h
    have hdomain : checkDomain low high width = .ok () := by
      cases hdomain : checkDomain low high width with
      | error f =>
          rw [write, hdomain] at h
          cases h
      | ok _ => rfl
    have hroom : x.minLength ≤ width := by
      by_contra hnone
      rw [write, hdomain] at h
      dsimp only at h
      rw [if_neg hnone] at h
      cases h
    exact ⟨hdomain, hroom, write_eq hdomain hroom ▸ h⟩
  · rintro ⟨hdomain, hroom, h⟩
    rw [write_eq hdomain hroom]
    exact h

/-! ### Special values -/

/-- The header of a special value gives five bits to its kind, and three to the payload. -/
def rest (width : Nat) (x : Imap) : Nat := x.header % 8 * 2 ^ (8 * (width - 1)) + x.payload.toNat

/-- Only one of the markers uses the three bits, and a marker carries nothing else. -/
theorem rest_of_ne {x : Imap} (h : x ≠ .aboveMaximum) : rest width x = x.payload.toNat := by
  have hheader : x.header % 8 = 0 := by
    cases x with
    | aboveMaximum => exact absurd rfl h
    | nan signaling negative payload => cases signaling <;> cases negative <;> rw [header]
    | normal number =>
        rw [header]
        split
        · rfl
        · split <;> rfl
    | _ => rw [header]
  rw [rest, hheader, Nat.zero_mul, Nat.zero_add]

theorem rest_aboveMaximum : rest width .aboveMaximum = 2 ^ (8 * (width - 1)) := Nat.one_mul _

theorem rest_lt (hpos : 1 ≤ width) (hroom : x.minLength ≤ width) :
    rest width x < 2 ^ (8 * width - 5) := by
  by_cases h : x = .aboveMaximum
  · rw [h, rest_aboveMaximum]
    exact Nat.pow_lt_pow_right (by decide) (by omega)
  · rw [rest_of_ne h]
    exact (minLength_le_iff hpos).1 hroom

/-- A header names one of the kinds. -/
theorem header_kind (x : Imap) : 16 < x.header / 8 ∧ x.header / 8 < 32 := by
  cases x with
  | normal number =>
      rw [header]
      split
      · decide
      · split <;> decide
  | nan signaling negative payload =>
      cases signaling <;> cases negative <;> rw [header] <;> decide
  | _ => rw [header]; decide

theorem toNat_specialInteger (hwidth : 1 ≤ width ∧ width ≤ 8) (hroom : x.minLength ≤ width) :
    (specialInteger width x).toNat = 2 ^ (8 * width - 5) * (x.header / 8) + rest width x := by
  have hpow : 2 ^ (8 * width - 5) = 8 * 2 ^ (8 * (width - 1)) := by
    rw [show 8 * width - 5 = 3 + 8 * (width - 1) by omega, Nat.pow_add]
  have hsum : x.header * 2 ^ (8 * (width - 1)) + x.payload.toNat =
      2 ^ (8 * width - 5) * (x.header / 8) + rest width x := by
    conv_lhs => rw [← Nat.div_add_mod x.header 8]
    rw [rest, hpow]
    ring
  have hlt : x.header * 2 ^ (8 * (width - 1)) + x.payload.toNat < 2 ^ 64 := by
    have htop : (2 : Nat) ^ (8 * width - 5) ≤ 2 ^ 59 := Nat.pow_le_pow_right (by decide) (by omega)
    have hkind := Nat.mul_le_mul_left (2 ^ (8 * width - 5)) (Nat.le_of_lt_succ x.header_kind.2)
    have hrest := rest_lt hwidth.1 hroom
    omega
  rw [specialInteger, UInt64.toNat_ofNat', Nat.mod_eq_of_lt hlt, hsum]

/-- Every special value, and either infinity, is what the pattern it is sent as stands for. -/
theorem meaning_specialInteger (hwidth : 1 ≤ width ∧ width ≤ 8) (hroom : x.minLength ≤ width)
    (hspecial : ∀ number, x = .normal number → number.isInfinite) :
    meaning low high width (specialInteger width x) = .ok x := by
  have hpos : 0 < 2 ^ (8 * width - 5) := Nat.two_pow_pos _
  have hrest := rest_lt hwidth.1 hroom
  obtain ⟨hlow, hhigh⟩ := x.header_kind
  have hmarked : isSpecial width (2 ^ (8 * width - 5) * (x.header / 8) + rest width x) := by
    have hpow : 2 ^ (8 * width - 1) = 2 ^ (8 * width - 5) * 16 := by
      rw [← Nat.pow_add _ _ 4]
      congr 1
      omega
    have hmul := Nat.mul_lt_mul_of_pos_left hlow hpos
    rw [isSpecial, decide_eq_true_iff, hpow]
    omega
  have hkind : (2 ^ (8 * width - 5) * (x.header / 8) + rest width x) / 2 ^ (8 * width - 5) % 32 =
      x.header / 8 := by
    rw [Nat.mul_add_div hpos, Nat.div_eq_of_lt hrest, Nat.add_zero, Nat.mod_eq_of_lt hhigh]
  have hpayload : (2 ^ (8 * width - 5) * (x.header / 8) + rest width x) % 2 ^ (8 * width - 5) =
      rest width x := by
    rw [Nat.mul_add_mod, Nat.mod_eq_of_lt hrest]
  rw [meaning, toNat_specialInteger hwidth hroom, if_pos hmarked, specialOf]
  dsimp only
  rw [hkind, hpayload]
  cases x with
  | normal number =>
      have hnan : number.isNaN = false := Binary64.isNaN_of_isInfinite (hspecial number rfl)
      rw [rest_of_ne (x := .normal number) (by rintro ⟨⟩), header, hnan,
        Binary64.eq_of_isInfinite (hspecial number rfl)]
      cases number.isNegative <;> rfl
  | nan signaling negative p =>
      rw [rest_of_ne (x := .nan signaling negative p) (by rintro ⟨⟩)]
      cases signaling <;> cases negative <;> simp [header, payload]
  | belowMinimum =>
      rw [rest_of_ne (x := .belowMinimum) (by rintro ⟨⟩)]
      simp [header, payload, bare]
  | aboveMaximum =>
      have hbits : 8 * width - 5 - 3 = 8 * (width - 1) := by omega
      rw [rest_aboveMaximum, hbits, Nat.div_self (Nat.two_pow_pos _), Nat.mod_self]
      rfl
  | userDefined p =>
      rw [rest_of_ne (x := .userDefined p) (by rintro ⟨⟩)]
      simp [header, payload]

/-! ### All values -/

/-- No integer stands for a number outside the domain. -/
theorem marked_of_numberOf {number : Binary64} {raw : UInt64}
    (h : numberOf low high width raw = .ok number) :
    marked low high (.normal number) = .normal number := by
  have hinside : (number.lt low || high.lt number) = false := by
    obtain ⟨found, hfound⟩ : ∃ found, numberOf low high width raw =
        if found.lt low || high.lt found then .error (.scaledOutside found low high)
        else .ok found := ⟨_, rfl⟩
    rw [hfound] at h
    split at h
    · cases h
    · next hinside =>
        cases h
        exact Bool.eq_false_iff.2 hinside
  obtain ⟨hlow, hhigh⟩ := Bool.or_eq_false_iff.1 hinside
  rw [marked, hlow, hhigh]
  split <;> rfl

/-- Values that are no numbers of a domain. They have patterns of their own. -/
def SetAside : Imap → Prop
  | .normal x => x.isInfinite
  | _ => True

theorem sentInteger_of_setAside (hx : x.SetAside) :
    sentInteger low high width x = specialInteger width x := by
  cases x with
  | normal number =>
      have hinfinite : number.isInfinite = true := hx
      have hnumber : number.isFinite = false := by
        rw [Binary64.isInfinite, beq_iff_eq] at hinfinite
        rw [Binary64.isFinite, hinfinite]
        exact decide_eq_false (Nat.lt_irrefl _)
      rw [sentInteger, marked, if_pos hinfinite]
      dsimp only
      rw [hnumber]
      rfl
  | _ => rfl

theorem meaning_sentInteger (hwidth : 1 ≤ width ∧ width ≤ 8) (hroom : x.minLength ≤ width)
    (hx : Exact low high width x) :
    meaning low high width (sentInteger low high width x) = .ok x := by
  cases x with
  | normal number =>
      rcases hx with hinfinite | ⟨hfinite, hplain, hnumber⟩
      · rw [sentInteger_of_setAside (x := .normal number) hinfinite]
        exact meaning_specialInteger hwidth hroom fun other h => by
          cases h
          exact hinfinite
      · rw [sentInteger, marked_of_numberOf hnumber]
        dsimp only
        rw [if_pos hfinite, meaning, hplain, hnumber]
        rfl
  | _ => exact meaning_specialInteger hwidth hroom (by rintro _ ⟨⟩)

/-- The only numbers that have patterns of their own are the infinities. -/
theorem isInfinite_of_specialOf {raw : Nat} {number : Binary64}
    (h : specialOf width raw = .ok (.normal number)) : number.isInfinite = true := by
  rw [specialOf] at h
  dsimp only at h
  split at h
  · obtain ⟨-, hvalue⟩ := bare_eq_ok.1 h
    injection hvalue with hvalue
    exact hvalue ▸ rfl
  · obtain ⟨-, hvalue⟩ := bare_eq_ok.1 h
    injection hvalue with hvalue
    exact hvalue ▸ rfl
  · cases h
  · cases h
  · cases h
  · cases h
  · cases h
  · split at h
    · cases (bare_eq_ok.1 h).2
    · cases (bare_eq_ok.1 h).2
    · cases h
  · cases h

/-- A number outside the domain becomes a marker, and no marker is read as a number. -/
theorem marked_of_meaning {number : Binary64} (hwidth : 1 ≤ width ∧ width ≤ 8)
    (hinfinite : ¬ number.isInfinite = true)
    (h : meaning low high width (sentInteger low high width (.normal number)) =
      .ok (.normal number)) :
    marked low high (.normal number) = .normal number := by
  have hrefused : ∀ marker : Imap, marker.payload = 0 → (∀ other, marker ≠ .normal other) →
      meaning low high width (specialInteger width marker) ≠ .ok (.normal number) := by
    intro marker hpayload hmarker hmeaning
    rw [meaning_specialInteger hwidth (minLength_of_payload hpayload hwidth.1)
      fun other hother => absurd hother (hmarker other)] at hmeaning
    injection hmeaning with hmeaning
    exact hmarker number hmeaning
  rw [sentInteger, marked, if_neg hinfinite] at h
  rw [marked, if_neg hinfinite]
  by_cases hlow : number.lt low = true
  · rw [if_pos hlow] at h
    exact absurd h (hrefused .belowMinimum rfl fun _ hother => by cases hother)
  · rw [if_neg hlow] at h ⊢
    by_cases hhigh : high.lt number = true
    · rw [if_pos hhigh] at h
      exact absurd h (hrefused .aboveMaximum rfl fun _ hother => by cases hother)
    · rw [if_neg hhigh]

/-- What is represented is what the integer that is sent for it stands for. So some integer
stands for it. Whether a number for which some integer stands is sent as that integer is a
question of how doubles are rounded, and is left open. -/
theorem exact_iff_meaning (hwidth : 1 ≤ width ∧ width ≤ 8) (hroom : x.minLength ≤ width)
    (hnumber : ∀ number, x = .normal number → number.isNaN = false) :
    Exact low high width x ↔ meaning low high width (sentInteger low high width x) = .ok x := by
  refine ⟨meaning_sentInteger hwidth hroom, fun h => ?_⟩
  cases x with
  | normal number =>
      by_cases hinfinite : number.isInfinite = true
      · exact .inl hinfinite
      · have hfinite : number.isFinite = true := by
          have hnan := hnumber number rfl
          rw [Binary64.isNaN, decide_eq_false_iff_not] at hnan
          rw [Binary64.isInfinite, beq_iff_eq] at hinfinite
          rw [Binary64.isFinite, decide_eq_true_iff]
          omega
        rw [sentInteger, marked_of_meaning hwidth hinfinite h] at h
        dsimp only at h
        rw [if_pos hfinite, meaning] at h
        split at h
        · exact absurd (isInfinite_of_specialOf h) hinfinite
        · next hplain =>
            refine .inr ⟨hfinite, Bool.eq_false_iff.2 hplain, ?_⟩
            cases hvalue : numberOf low high width (integerOf low high width number) with
            | error f =>
                rw [hvalue] at h
                cases h
            | ok found =>
                rw [hvalue] at h
                injection h with h
                injection h with h
                rw [h]
  | _ => trivial

/-- What is written for a value is read as the value exactly if the width represents it. -/
theorem reads_write_iff (h : write x low high width position = .ok ((), w))
    (hnumber : ∀ number, x = .normal number → number.isNaN = false) :
    Reader.Reads (read low high width) w x ↔ Exact low high width x := by
  obtain ⟨hdomain, hroom, hinteger⟩ := write_eq_ok.1 h
  obtain ⟨hwidth, hlt, rfl⟩ := Integer.writeUnsigned_eq_ok.1 hinteger
  have hanswers := read_answers hdomain hlt
  rw [exact_iff_meaning hwidth hroom hnumber]
  constructor
  · intro hreads
    exact hanswers.eq_of_reads hreads
  · intro hmeaning
    rw [hmeaning] at hanswers
    exact hanswers

theorem reads_write (h : write x low high width position = .ok ((), w))
    (hx : Exact low high width x) : Reader.Reads (read low high width) w x :=
  (reads_write_iff h hx.isNaN).2 hx

end Imap

/-! ## Bits -/

namespace Grid

theorem bitsOfBytes_cons (b : UInt8) (rest : Bytes) :
    bitsOfBytes (b :: rest) =
      (List.range 8).map (fun i => b.toNat.testBit (7 - i)) ++ bitsOfBytes rest :=
  List.flatMap_cons

/-- Eight bits are those of the byte they make. -/
theorem bits_of_byte {bits : List Bool} (h : bits.length = 8) :
    (List.range 8).map (fun i => (UInt8.ofNat
      (bits.foldl (fun high b => 2 * high + b.toNat) 0)).toNat.testBit (7 - i)) = bits := by
  have hall : ∀ a b c d e f g h : Bool, (List.range 8).map (fun i => (UInt8.ofNat
      ([a, b, c, d, e, f, g, h].foldl (fun high b => 2 * high + b.toNat) 0)).toNat.testBit
        (7 - i)) = [a, b, c, d, e, f, g, h] := by decide +kernel
  match bits, h with
  | [a, b, c, d, e, f, g, h], _ => exact hall a b c d e f g h

/-- Bits that fill their bytes come back. -/
theorem bitsOfBytes_bytesOfBits {k : Nat} {bits : List Bool} (h : bits.length = 8 * k) :
    bitsOfBytes (bytesOfBits bits) = bits ∧ (bytesOfBits bits).length = k := by
  induction k generalizing bits with
  | zero =>
      rw [List.eq_nil_of_length_eq_zero h, bytesOfBits]
      exact ⟨rfl, rfl⟩
  | succ k ih =>
      cases bits with
      | nil => cases h
      | cons bit rest =>
          rw [List.length_cons] at h
          have hrest : (rest.drop 7).length = 8 * k := by
            rw [List.length_drop]
            omega
          have hfirst : (bit :: rest.take 7).length = 8 := by
            rw [List.length_cons, List.length_take]
            omega
          obtain ⟨hbits, hlength⟩ := ih hrest
          rw [bytesOfBits, hfirst, Nat.sub_self, List.replicate_zero, List.append_nil,
            bitsOfBytes_cons, bits_of_byte hfirst, hbits, List.length_cons, hlength,
            List.cons_append, List.take_append_drop]
          exact ⟨rfl, rfl⟩

end Grid

end MotionMetadata
