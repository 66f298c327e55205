import MotionMetadata.Proofs.ArrayPacks
import MotionMetadata.Proofs.ExactNumbers
import MotionMetadata.Proofs.RunLength
import MotionMetadata.Proofs.Steady

/-!
# What is read from a written pack of correlations

The bytes of a pack do not say all that was used to write it. Which entries it describes is
taken from those before it, and the short parse control has no bit for what is scaled: the
reader takes deviations as they are and coefficients as scaled. The writer goes by its record,
and it lets a record pass that has the short control and plain coefficients.

So each coefficient is followed from the writer to the reader. It is `heard` as it was, or as
zero if it was left out, or, written plain under a short control, as whatever the bytes of the
single stand for on the scale. A pack comes back exactly if all of its coefficients are heard
as they were.
-/

namespace MotionMetadata

/-- A step that is only taken under a condition. -/
theorem Encoder.optional_bind {α : Type} {p : Prop} [Decidable p] (x : Encoder Unit)
    (y : Encoder α) :
    (if p then x >>= fun _ => y else y) = (if p then x else pure ()) >>= fun _ => y := by
  split
  · rfl
  · funext position
    exact (Encoder.bind_of_silent (f := fun _ => y) (Encoder.pure_apply ())).symm

namespace Value

theorem requireFloat_eq_ok {v : Value} {x : Binary64} :
    v.requireFloat = .ok x ↔ v = .float x := by
  rw [requireFloat, expect_eq_ok]
  cases v <;> simp [asFloat?]

/-- A scaled value is asked for as it is answered. -/
theorem requireImap_ofImap {x y : Imap} (hx : ∀ number, x = .normal number → number.isNaN = false)
    (h : (ofImap x).requireImap = .ok y) : y = x := by
  rw [requireImap, expect_eq_ok] at h
  cases x with
  | normal number =>
      have hnumber : Imap.ofBinary64 number = .normal number := by
        rw [Imap.ofBinary64, hx number rfl]
        rfl
      exact (Option.some.inj h).symm.trans hnumber
  | _ => exact (Option.some.inj h).symm

end Value

namespace Correlation

open Reader

variable {c : Correlation} {position : Nat} {w : Bytes}

/-- Whether a coefficient is on the wire. -/
def isSent (c : Correlation) (r : Value) : Bool := !(c.sparse && isZero r)

/-- A coefficient that comes back, those that are left out as zero. -/
def kept (c : Correlation) (r : Value) : Value := if c.isSent r then r else .float .zero

/-- What the reader takes a coefficient for. -/
def heard (c : Correlation) (r : Value) : Except Fault Value :=
  if c.isSent r && !c.longControl && !c.rhoScaled then
    match r.asFloat? with
    | some x => (Imap.meaning coefficientLow coefficientHigh c.rhoLength
        (UInt64.ofNat x.toSingleBits.toNat)).map Value.ofImap
    | none => .ok r
  else .ok (c.kept r)

/-- The pack as its parse control tells it, deviations and coefficients still to come. -/
def announced (c : Correlation) : Correlation :=
  { c with
    sigma := []
    rho := []
    sigmaScaled := c.longControl && c.sigmaScaled
    rhoScaled := !c.longControl || c.rhoScaled }

/-- The values on the wire are ones that their widths hold exactly. -/
structure Exact (c : Correlation) : Prop where
  sigma : ∀ x, .float x ∈ c.sigma → Floating.Exact x c.sigmaLength
  rho : ∀ r ∈ c.rho, c.isSent r →
    if c.rhoScaled then
      ∃ x : Imap, r = .ofImap x ∧ x.Exact coefficientLow coefficientHigh c.rhoLength
    else ∀ x, r = .float x → Floating.Exact x c.rhoLength

/-! ## The parts on the wire -/

/-- What the writer has made sure of. -/
structure Checked (c : Correlation) : Prop where
  plain : ¬ (0 < c.sigmaLength ∧ c.sigmaScaled)
  sigmaLength : c.sigmaLength ≤ lengthLimit c.longControl
  rhoLength : c.rhoLength ≤ lengthLimit c.longControl
  sigma : 0 < c.sigmaLength → c.sigma.length = c.members.length
  rho : 0 < c.rhoLength → c.rho.length = c.coefficientCount

theorem checked_of_check (h : c.check = .ok ()) : c.Checked := by
  rw [check] at h
  split_ifs at h with hmembers hplain hlimits hsigma hrho
  iterate 5 cases h
  exact {
    plain := hplain
    sigmaLength := Nat.not_lt.1 fun hlt => hlimits (.inl hlt)
    rhoLength := Nat.not_lt.1 fun hlt => hlimits (.inr hlt)
    sigma := fun hpos => of_not_not fun hne => hsigma ⟨hpos, hne⟩
    rho := fun hpos => of_not_not fun hne => hrho ⟨hpos, hne⟩ }

/-- Which coefficients are there, if that is told. -/
def writePresence (c : Correlation) : Encoder Unit :=
  if c.sparse then Encoder.emit c.presence else pure ()

def writeSigma (c : Correlation) : Encoder Unit :=
  if 0 < c.sigmaLength then
    Encoder.each (fun s => do
      Floating.write (← Encoder.ofExcept s.requireFloat) c.sigmaLength) c.sigma
  else pure ()

def writeRho (c : Correlation) : Encoder Unit :=
  if 0 < c.rhoLength then Encoder.each c.writeCoefficient (c.rho.filter c.isSent) else pure ()

/-- Writing a pack, its parts by name. -/
theorem write_eq (c : Correlation) :
    c.write = (do
      Encoder.ofExcept c.check
      Ber.writeTag (UInt64.ofNat c.members.length)
      c.writeControl
      c.writePresence
      c.writeSigma
      c.writeRho) := by
  simp only [writePresence, writeSigma, ← Encoder.optional_bind]
  rfl

/-! ## The control -/

/-- A number that is written as a tag, with a byte in front that adds nothing to it. -/
theorem reads_padded {v : UInt64} (hv : v.toNat < 128) :
    Reads Ber.readTag [0x80, UInt8.ofNat v.toNat] v := by
  have hlast : (UInt8.ofNat v.toNat).toNat = v.toNat := by
    rw [UInt8.toNat_ofNat', Nat.mod_eq_of_lt (by omega)]
  have hspelling := Ber.TagSpelling.groups [0x80] (UInt8.ofNat v.toNat) (by decide)
    (List.forall_mem_singleton.2 (by decide)) (by omega)
  have hvalue : Ber.groupsValue ([0x80] ++ [UInt8.ofNat v.toNat]) = v.toNat := by
    rw [Ber.groupsValue_concat, hlast, Nat.mod_eq_of_lt hv]
    exact Nat.zero_add _
  rw [hvalue, UInt64.ofNat_toNat] at hspelling
  intro c t hc
  exact Ber.readTag_iff_spelling.2 ⟨_, t, hspelling, hc, rfl⟩

/-- The number in the parse control. -/
def controlNumber (c : Correlation) : Nat :=
  if c.longControl then c.longControlValue else c.shortControl

/-- The form tells itself by its length. -/
theorem reads_writeControl (hchecked : c.Checked)
    (h : c.writeControl position = .ok ((), w)) :
    w.length = (if c.longControl then 2 else 1) ∧
      Reads Ber.readTag w (UInt64.ofNat c.controlNumber) := by
  have hsparse := Bool.toNat_le c.sparse
  have hsigmaScaled := Bool.toNat_le c.sigmaScaled
  have hrhoScaled := Bool.toNat_le c.rhoScaled
  have hsigma := hchecked.sigmaLength
  have hrho := hchecked.rhoLength
  rw [controlNumber]
  rw [writeControl] at h
  cases hlong : c.longControl with
  | true =>
      rw [hlong, lengthLimit, if_pos rfl] at hsigma hrho
      rw [hlong] at h
      rw [if_pos rfl] at h
      have hlt : (UInt64.ofNat c.longControlValue).toNat < 128 ^ 2 := by
        rw [UInt64.toNat_ofNat', longControlValue]
        omega
      have htwo := Ber.tagWidth_le_iff.2 ⟨Nat.le_succ 1, hlt⟩
      by_cases hone : Ber.tagWidth (UInt64.ofNat c.longControlValue) = 1
      · rw [if_pos hone] at h
        obtain ⟨_, pad, rest, hpad, hrest, rfl⟩ := Encoder.bind_eq_ok.1 h
        cases hpad
        obtain ⟨_, rfl⟩ := Ber.writeTag_eq_ok.1 hrest
        have hsmall := (Ber.tagWidth_le_iff.1 (Nat.le_of_eq hone)).2
        have hbytes : Ber.tagBytes (UInt64.ofNat c.longControlValue) =
            [UInt8.ofNat (UInt64.ofNat c.longControlValue).toNat] := by
          rw [Ber.tagBytes, hone, Nat.mod_eq_of_lt hsmall]
          rfl
        rw [hbytes]
        exact ⟨rfl, reads_padded hsmall⟩
      · rw [if_neg hone] at h
        obtain ⟨_, rfl⟩ := Ber.writeTag_eq_ok.1 h
        have hpos : 1 ≤ Ber.tagWidth (UInt64.ofNat c.longControlValue) := Nat.le_max_left _ _
        refine ⟨?_, Ber.reads_writeTag h⟩
        rw [Ber.length_tagBytes, if_pos rfl]
        omega
  | false =>
      rw [hlong, lengthLimit, if_neg Bool.false_ne_true] at hsigma hrho
      rw [hlong] at h
      rw [if_neg Bool.false_ne_true] at h
      obtain ⟨_, rfl⟩ := Ber.writeTag_eq_ok.1 h
      have hlt : (UInt64.ofNat c.shortControl).toNat < 128 ^ 1 := by
        rw [UInt64.toNat_ofNat', shortControl]
        omega
      have hone := Ber.tagWidth_le_iff.2 ⟨Nat.le_refl 1, hlt⟩
      have hpos : 1 ≤ Ber.tagWidth (UInt64.ofNat c.shortControl) := Nat.le_max_left _ _
      refine ⟨?_, Ber.reads_writeTag h⟩
      rw [Ber.length_tagBytes, if_neg Bool.false_ne_true]
      omega

theorem testBit_eq {n i : Nat} {b : Bool} (h : n / 2 ^ i % 2 = b.toNat) : n.testBit i = b := by
  rw [Nat.testBit_eq_decide_div_mod_eq, h]
  cases b <;> rfl

/-- The control tells all but what is scaled in the short form. -/
theorem ofControl_controlNumber (hchecked : c.Checked) :
    ofControl c.members c.longControl (UInt64.ofNat c.controlNumber).toNat = c.announced := by
  have hsigma := hchecked.sigmaLength
  have hrho := hchecked.rhoLength
  have hsparse := Bool.toNat_le c.sparse
  have hsigmaScaled := Bool.toNat_le c.sigmaScaled
  have hrhoScaled := Bool.toNat_le c.rhoScaled
  rw [controlNumber, announced]
  cases hlong : c.longControl with
  | true =>
      rw [hlong, lengthLimit, if_pos rfl] at hsigma hrho
      have hnumber : (UInt64.ofNat c.longControlValue).toNat = c.longControlValue := by
        rw [UInt64.toNat_ofNat', longControlValue]
        omega
      have hsigmaLength : c.longControlValue % 16 = c.sigmaLength := by
        rw [longControlValue]
        omega
      have hrhoLength : c.longControlValue / 2 ^ 7 % 16 = c.rhoLength := by
        rw [longControlValue]
        omega
      have hsigmaBit : c.longControlValue.testBit 4 = c.sigmaScaled := by
        refine testBit_eq ?_
        rw [longControlValue]
        omega
      have hrhoBit : c.longControlValue.testBit 11 = c.rhoScaled := by
        refine testBit_eq ?_
        rw [longControlValue]
        omega
      have hsparseBit : c.longControlValue.testBit 12 = c.sparse := by
        refine testBit_eq ?_
        rw [longControlValue]
        omega
      rw [if_pos rfl, hnumber, ofControl]
      simp only [if_true, hsigmaLength, hrhoLength, hsigmaBit, hrhoBit, hsparseBit, Bool.true_and,
        Bool.not_true, Bool.false_or]
  | false =>
      rw [hlong, lengthLimit, if_neg Bool.false_ne_true] at hsigma hrho
      have hnumber : (UInt64.ofNat c.shortControl).toNat = c.shortControl := by
        rw [UInt64.toNat_ofNat', shortControl]
        omega
      have hsigmaLength : c.shortControl / 2 ^ 4 % 8 = c.sigmaLength := by
        rw [shortControl]
        omega
      have hrhoLength : c.shortControl % 8 = c.rhoLength := by
        rw [shortControl]
        omega
      have hsparseBit : c.shortControl.testBit 3 = c.sparse := by
        refine testBit_eq ?_
        rw [shortControl]
        omega
      rw [if_neg Bool.false_ne_true, hnumber, ofControl]
      simp only [Bool.false_eq_true, if_false, hsigmaLength, hrhoLength, hsparseBit,
        Bool.false_and, Bool.not_false, Bool.true_or]

/-! ## The values -/

/-- The bits tell which coefficients are there. -/
theorem reads_presence (h : c.writePresence position = .ok ((), w)) :
    ∃ bits, Reads c.announced.readPresence w bits ∧
      (c.rho.length = c.coefficientCount → bits = c.rho.map c.isSent) := by
  have hisSent : c.isSent = fun r => !(c.sparse && isZero r) := rfl
  rw [writePresence] at h
  show ∃ bits, Reads (if c.sparse then
    Reader.take (ceilDiv c.coefficientCount 8) >>= fun bytes =>
      pure ((Grid.bitsOfBytes bytes).take c.coefficientCount)
    else pure (List.replicate c.coefficientCount true)) w bits ∧ _
  cases hsparse : c.sparse with
  | true =>
      rw [hsparse, if_pos rfl] at h
      cases h
      have hroom : ((c.rho.map (!isZero ·) ++
          List.replicate (8 * ceilDiv c.coefficientCount 8) false).take
            (8 * ceilDiv c.coefficientCount 8)).length = 8 * ceilDiv c.coefficientCount 8 := by
        rw [List.length_take, List.length_append, List.length_replicate]
        omega
      obtain ⟨hbits, hlength⟩ := Grid.bitsOfBytes_bytesOfBits hroom
      have htake : Reads (Reader.take (ceilDiv c.coefficientCount 8)) c.presence c.presence :=
        hlength ▸ .take c.presence
      rw [if_pos rfl]
      refine ⟨_, .bind_nil htake (.pure _), fun hcount => ?_⟩
      rw [presence, hbits, List.take_take, Nat.min_eq_left (Grid.le_ceilDiv _), hisSent, hsparse]
      exact List.take_left' (by rw [List.length_map, hcount])
  | false =>
      rw [hsparse, if_neg Bool.false_ne_true] at h
      cases h
      refine ⟨_, .pure _, fun hcount => ?_⟩
      rw [hisSent, hsparse]
      exact (List.map_const' .. ▸ hcount ▸ rfl)

theorem reads_sigma (hchecked : c.Checked) (hnone : c.sigmaLength = 0 → c.sigma = [])
    (hexact : ∀ x, .float x ∈ c.sigma → Floating.Exact x c.sigmaLength)
    (h : c.writeSigma position = .ok ((), w)) :
    Reads (c.announced.readSigma c.members.length) w c.sigma := by
  rw [writeSigma] at h
  show Reads (if 0 < c.sigmaLength then
    Reader.times c.members.length (Value.float <$> Floating.read c.sigmaLength)
    else pure []) w c.sigma
  by_cases hsome : 0 < c.sigmaLength
  · rw [if_pos hsome] at h ⊢
    rw [← hchecked.sigma hsome, ← List.map_id c.sigma, List.length_map]
    refine reads_each (fun s hs position w hwrite => ?_) h
    obtain ⟨x, hx, hfloat⟩ := Encoder.ofExcept_bind_eq_ok.1 hwrite
    obtain rfl := Value.requireFloat_eq_ok.1 hx
    exact .bind_nil (Floating.reads_write hfloat (hexact x hs)) (.pure _)
  · rw [if_neg hsome] at h ⊢
    cases h
    rw [hnone (Nat.eq_zero_of_not_pos hsome)]
    exact .pure []

/-- Coefficients that are each heard in some way are heard so in a row. -/
theorem readCoefficients_answers {one : Reader Value} {write : Value → Encoder Unit}
    {sent : Value → Bool} {heard : Value → Except Fault Value} {rho : List Value}
    (hsent : ∀ r ∈ rho, sent r → ∀ position w, write r position = .ok ((), w) →
      one.Answers w (heard r))
    (hleft : ∀ r ∈ rho, sent r = false → heard r = .ok (.float .zero))
    (h : Encoder.each write (rho.filter sent) position = .ok ((), w)) :
    (readCoefficients one (rho.map sent)).Answers w (rho.mapM heard) := by
  induction rho generalizing position w with
  | nil =>
      cases h
      exact Reads.pure []
  | cons r rest ih =>
      obtain ⟨hr, hrest⟩ := List.forall_mem_cons.1 hsent
      obtain ⟨hr', hrest'⟩ := List.forall_mem_cons.1 hleft
      rw [List.map_cons, readCoefficients, List.mapM_cons]
      cases hwhich : sent r with
      | true =>
          rw [List.filter_cons, if_pos hwhich] at h
          obtain ⟨_, first, second, hfirst, hsecond, rfl⟩ := Encoder.bind_eq_ok.1 h
          have hone := hr hwhich _ _ hfirst
          have hmore := ih hrest hrest' hsecond
          rw [if_pos rfl]
          cases hheard : heard r with
          | error f =>
              rw [hheard] at hone
              exact hone.error_bind
          | ok s =>
              rw [hheard] at hone
              exact Reads.bind_answers hone hmore.map
      | false =>
          rw [List.filter_cons, if_neg (Bool.eq_false_iff.1 hwhich)] at h
          have hmore := ih hrest hrest' h
          rw [if_neg Bool.false_ne_true, hr' hwhich]
          exact Reads.bind_answers (w := []) (.pure _) hmore.map

/-- A coefficient on the wire is taken for what is heard. -/
theorem readCoefficient_answers (hchecked : c.Checked) {r : Value} (hsent : c.isSent r)
    (hexact : if c.rhoScaled then
      ∃ x : Imap, r = .ofImap x ∧ x.Exact coefficientLow coefficientHigh c.rhoLength
      else ∀ x, r = .float x → Floating.Exact x c.rhoLength)
    (h : c.writeCoefficient r position = .ok ((), w)) :
    (readCoefficient (!c.longControl || c.rhoScaled) c.rhoLength).Answers w (c.heard r) := by
  rw [writeCoefficient] at h
  rw [heard, hsent, readCoefficient, kept, if_pos hsent]
  cases hscaled : c.rhoScaled with
  | true =>
      rw [hscaled, if_pos rfl] at h hexact
      obtain ⟨x, rfl, hx⟩ := hexact
      obtain ⟨y, hy, hwrite⟩ := Encoder.ofExcept_bind_eq_ok.1 h
      obtain rfl := Value.requireImap_ofImap hx.isNaN hy
      rw [Bool.or_true, if_pos rfl, Bool.not_true, Bool.and_false, if_neg Bool.false_ne_true]
      exact (Imap.reads_write hwrite hx).bind_nil (.pure _)
  | false =>
      rw [hscaled, if_neg Bool.false_ne_true] at h hexact
      obtain ⟨x, hx, hwrite⟩ := Encoder.ofExcept_bind_eq_ok.1 h
      obtain rfl := Value.requireFloat_eq_ok.1 hx
      cases hlong : c.longControl with
      | true =>
          exact (Floating.reads_write hwrite (hexact x rfl)).bind_nil (.pure _)
      | false =>
          -- The short control only leaves room for singles.
          have hlimit := hchecked.rhoLength
          rw [hlong, lengthLimit, if_neg Bool.false_ne_true] at hlimit
          rcases Floating.write_eq_ok.1 hwrite with ⟨hwidth, _⟩ | ⟨hwidth, _, rfl⟩
          · omega
          · rw [hwidth]
            have hsingle : (UInt64.ofNat x.toSingleBits.toNat).toNat = x.toSingleBits.toNat := by
              have hlt := x.toSingleBits.toNat_lt
              rw [UInt64.toNat_ofNat']
              omega
            have hanswers : (Imap.read coefficientLow coefficientHigh 4).Answers
                (BigEndian.bytes 4 (UInt64.ofNat x.toSingleBits.toNat).toNat) _ :=
              Imap.read_answers rfl (by rw [hsingle]; exact x.toSingleBits.toNat_lt)
            rw [hsingle] at hanswers
            exact hanswers.map

theorem rho_answers (hchecked : c.Checked) (hnone : c.rhoLength = 0 → c.rho = [])
    (hexact : ∀ r ∈ c.rho, c.isSent r →
      if c.rhoScaled then
        ∃ x : Imap, r = .ofImap x ∧ x.Exact coefficientLow coefficientHigh c.rhoLength
      else ∀ x, r = .float x → Floating.Exact x c.rhoLength)
    {bits : List Bool} (hbits : c.rho.length = c.coefficientCount → bits = c.rho.map c.isSent)
    (h : c.writeRho position = .ok ((), w)) :
    (c.announced.readRho bits).Answers w (c.rho.mapM c.heard) := by
  rw [writeRho] at h
  show (if 0 < c.rhoLength then
    readCoefficients (readCoefficient (!c.longControl || c.rhoScaled) c.rhoLength) bits
    else pure [] : Reader (List Value)).Answers w _
  by_cases hsome : 0 < c.rhoLength
  · rw [if_pos hsome] at h ⊢
    rw [hbits (hchecked.rho hsome)]
    refine readCoefficients_answers (fun r hr hsent position w hwrite => ?_)
      (fun r hr hleft => ?_) h
    · exact readCoefficient_answers hchecked hsent (hexact r hr hsent) hwrite
    · rw [heard, kept, hleft]
      rfl
  · rw [if_neg hsome] at h ⊢
    cases h
    rw [hnone (Nat.eq_zero_of_not_pos hsome)]
    exact Reads.pure []

/-- What the reader makes of the bytes of a pack, if its members stand before it. -/
theorem read_answers (hsize : c.members.length < 2 ^ 64)
    (hnoSigma : c.sigmaLength = 0 → c.sigma = []) (hnoRho : c.rhoLength = 0 → c.rho = [])
    (hexact : c.Exact) (h : c.write position = .ok ((), w)) (earlier : List Tag) :
    (read (earlier ++ c.members)).Answers w
      ((c.rho.mapM c.heard).map fun rho => { c.announced with sigma := c.sigma, rho }) := by
  rw [write_eq] at h
  obtain ⟨_, hcheck, hparts⟩ := Encoder.ofExcept_bind_eq_ok.1 h
  obtain ⟨_, tag, rest₁, htag, hrest₁, rfl⟩ := Encoder.bind_eq_ok.1 hparts
  obtain ⟨_, control, rest₂, hcontrol, hrest₂, rfl⟩ := Encoder.bind_eq_ok.1 hrest₁
  obtain ⟨_, present, rest₃, hpresent, hrest₃, rfl⟩ := Encoder.bind_eq_ok.1 hrest₂
  obtain ⟨_, sigma, rho, hsigma, hrho, rfl⟩ := Encoder.bind_eq_ok.1 hrest₃
  have hchecked := checked_of_check hcheck
  have hcount : (UInt64.ofNat c.members.length).toNat = c.members.length := by
    rw [UInt64.toNat_ofNat', Nat.mod_eq_of_lt hsize]
  have hmembers : (earlier ++ c.members).drop ((earlier ++ c.members).length -
      (UInt64.ofNat c.members.length).toNat) = c.members := by
    rw [hcount, List.length_append, Nat.add_sub_cancel, List.drop_left]
  obtain ⟨hwidth, hreads⟩ := reads_writeControl hchecked hcontrol
  rw [read_eq]
  refine .position_bind fun start => (Ber.reads_writeTag htag).bind_answers ?_
  dsimp only
  rw [if_pos (by rw [hcount, List.length_append]; omega)]
  refine hreads.measured_bind fun start => ?_
  have hlong : (start + control.length - start == 2) = c.longControl := by
    rw [Nat.add_sub_cancel_left, hwidth]
    cases c.longControl <;> rfl
  rw [hmembers, hlong, ofControl_controlNumber hchecked]
  rw [if_pos (by
    rw [Nat.add_sub_cancel_left, hwidth]
    cases c.longControl <;> simp)]
  rw [if_neg (fun hscaled => hchecked.plain
    ⟨hscaled.1, (Bool.and_eq_true_iff.1 hscaled.2).2⟩), hcount, readValues]
  obtain ⟨bits, hbits, hwhich⟩ := reads_presence hpresent
  refine hbits.bind_answers ((reads_sigma hchecked hnoSigma hexact.sigma hsigma).bind_answers ?_)
  exact (rho_answers hchecked hnoRho hexact.rho hwhich hrho).map

/-- Each of some items has a result, and the results are those. -/
theorem mapM_eq_map_iff {α β : Type} {f : α → Except Fault β} {g : α → β} {items : List α} :
    items.mapM f = .ok (items.map g) ↔ ∀ item ∈ items, f item = .ok (g item) := by
  induction items with
  | nil => exact ⟨nofun, fun _ => rfl⟩
  | cons item rest ih =>
      rw [List.mapM_cons, List.map_cons, List.forall_mem_cons, ← ih]
      cases f item with
      | error fault => exact ⟨nofun, nofun⟩
      | ok b =>
          cases rest.mapM f with
          | error fault => exact ⟨nofun, nofun⟩
          | ok bs =>
              show Except.ok (b :: bs) = Except.ok (g item :: rest.map g) ↔ _
              simp only [Except.ok.injEq, List.cons.injEq]

/-- All that is heard as it was comes back, and nothing else does. -/
theorem comes_back_iff (c : Correlation) :
    c.rho.mapM c.heard = .ok (c.rho.map c.kept) ↔
      c.longControl ∨ c.rhoScaled ∨ ∀ r ∈ c.rho, c.isSent r → c.heard r = .ok r := by
  rw [mapM_eq_map_iff]
  constructor
  · intro h
    refine .inr (.inr fun r hr hsent => ?_)
    rw [h r hr, kept, if_pos hsent]
  · intro h r hr
    cases hsent : c.isSent r with
    | false =>
        rw [heard, hsent]
        rfl
    | true =>
        rcases h with hlong | hscaled | hheard
        · rw [heard, hlong, Bool.not_true, Bool.and_false, Bool.false_and,
            if_neg Bool.false_ne_true]
        · rw [heard, hscaled, Bool.not_true, Bool.and_false, if_neg Bool.false_ne_true]
        · rw [hheard r hr hsent, kept, if_pos hsent]

/-- A pack that was written from values that its widths hold exactly is read as its bytes are
heard, if its members stand before it. The same members, deviations and coefficients come back
exactly if the parse control is long, or the coefficients are scaled, or each one that is sent
happens to be heard as it was. -/
theorem written_pack_comes_back_iff {bound earlier : List Tag} {record : Value} {c : Correlation}
    {length position : Nat} {w : Bytes} (hsize : c.members.length < 2 ^ 64)
    (hrecord : ofValue record = .ok c)
    (hwritten : (Codec.correlation bound).write record length position = .ok ((), w))
    (hnoSigma : c.sigmaLength = 0 → c.sigma = []) (hnoRho : c.rhoLength = 0 → c.rho = [])
    (hexact : c.Exact) :
    ((Codec.correlation (earlier ++ c.members)).read w.length).Answers w
      ((c.rho.mapM c.heard).map fun rho =>
        toValue { c.announced with sigma := c.sigma, rho }) ∧
    ((∃ back : Correlation,
      ((Codec.correlation (earlier ++ c.members)).read w.length).Reads w back.toValue ∧
        back.members = c.members ∧ back.sigma = c.sigma ∧ back.rho = c.rho.map c.kept) ↔
      c.longControl ∨ c.rhoScaled ∨ ∀ r ∈ c.rho, c.isSent r → c.heard r = .ok r) := by
  have hbytes : c.write 0 = .ok ((), w) := by
    obtain ⟨bytes, hencode, hemit⟩ := Encoder.ofExcept_bind_eq_ok.1 hwritten
    cases hemit
    obtain ⟨c', hc', hencode⟩ := except_bind_eq_ok.1 hencode
    rw [hrecord] at hc'
    cases hc'
    obtain ⟨_, hwrite⟩ := Encoder.bytes_eq_ok.1 hencode
    exact hwrite
  have hanswers : ((Codec.correlation (earlier ++ c.members)).read w.length).Answers w
      ((c.rho.mapM c.heard).map fun rho =>
        toValue { c.announced with sigma := c.sigma, rho }) := by
    have hmapped := (read_answers hsize hnoSigma hnoRho hexact hbytes earlier).map (f := toValue)
    cases hheard : c.rho.mapM c.heard <;> rwa [hheard] at hmapped
  refine ⟨hanswers, ?_⟩
  rw [← comes_back_iff]
  constructor
  · rintro ⟨back, hreads, _, _, hrho⟩
    have heq := hanswers.eq_of_reads hreads
    cases hheard : c.rho.mapM c.heard with
    | error fault =>
        rw [hheard] at heq
        cases heq
    | ok rho =>
        rw [hheard] at heq
        have hvalue : toValue { c.announced with sigma := c.sigma, rho } = back.toValue :=
          Except.ok.inj heq
        have hsame : rho = back.rho := by
          injection (show some (Value.series rho) = some (Value.series back.rho) from
            congrArg (Value.field? · "rho") hvalue) with hseries
          injection hseries
        rw [hsame, hrho]
  · intro h
    rw [h] at hanswers
    exact ⟨_, hanswers, rfl, rfl, rfl⟩

/-- A pack with the short control and a coefficient that is not scaled. -/
def plainShort : Correlation :=
  { members := [1, 2], sigma := [], rho := [.float (-0.5)], sigmaLength := 0, rhoLength := 4
    sparse := false, longControl := false, sigmaScaled := false, rhoScaled := false }

/-- The pack is written, and its bytes are refused where it should be. -/
theorem plainShort_not_read :
    (Codec.correlation []).write plainShort.toValue 0 0 = .ok ((), [2, 4, 0xBF, 0, 0, 0]) ∧
    ((Codec.correlation [1, 2]).read 6).Answers [2, 4, 0xBF, 0, 0, 0] (.error .reservedPattern) ∧
    ¬ ∃ back : Correlation,
      ((Codec.correlation [1, 2]).read 6).Reads [2, 4, 0xBF, 0, 0, 0] back.toValue ∧
        back.members = [1, 2] ∧ back.sigma = [] ∧ back.rho = [.float (-0.5)] := by
  have hwritten : (Codec.correlation []).write plainShort.toValue 0 0 =
      .ok ((), [2, 4, 0xBF, 0, 0, 0]) := rfl
  have hexact : plainShort.Exact := by
    refine ⟨fun x hx => (nomatch hx), fun r hr _ => ?_⟩
    obtain rfl := List.mem_singleton.1 hr
    rw [if_neg (by decide)]
    intro x hx
    cases hx
    exact .inr ⟨rfl, by decide⟩
  obtain ⟨hanswers, hiff⟩ := @written_pack_comes_back_iff [] [] _ plainShort _ _ _
    (by decide) rfl hwritten (fun _ => rfl) (by decide) hexact
  refine ⟨hwritten, hanswers, fun hback => ?_⟩
  rcases hiff.1 hback with hlong | hscaled | hheard
  · cases hlong
  · cases hscaled
  · cases hheard _ (List.mem_singleton_self _) rfl

end Correlation

end MotionMetadata
