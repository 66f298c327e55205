import MotionMetadata.Proofs.Restoring
import MotionMetadata.Proofs.Scaling
import MotionMetadata.Proofs.Singles

/-!
# Fields that can be written again

A field is written in a length that is settled first, from the width that was remembered or
from the value, and the two have to agree. `Codec.Forwards` says that they do: there is a
length, and the value is written in it. Fields without a value need nothing for it, and for
the others the question is what their codec yields.

Numbers are where it can go wrong. With the width that they were read from they fit, as far
as arithmetic on doubles allows. Without it, as in a series, the format has to choose a
length, and it knows the number only as far as it asks for it.
-/

namespace MotionMetadata

namespace Codec

variable {codec : Codec} {v : Value} {width : Option Nat} {n : Nat}

/-- The value has a length, whether its width is remembered or not, and it is written in it. -/
def Forwards (codec : Codec) (v : Value) (width : Option Nat) : Prop :=
  ∃ n, codec.hintedLength v width = .ok n ∧ (codec.writeContent v n).Writes n

theorem writeField_writes (h : (codec.writeContent v n).Writes n) :
    (codec.writeField v n).Writes n := by
  intro position
  obtain ⟨bytes, hlength, hok⟩ := h position
  exact ⟨bytes, hlength, writeField_eq_ok.2 ⟨hok, hlength⟩⟩

theorem forwards_empty : codec.Forwards .empty width := by
  refine ⟨0, ?_, .pure⟩
  cases width <;> rfl

theorem forwards_blob (bytes : Bytes) : codec.Forwards (.blob bytes) width := by
  refine ⟨bytes.length, ?_, .emit bytes⟩
  cases width <;> rfl

/-- A field has a property if the value has it that its codec yields, and fields without one
do. -/
theorem readField_yields {P : Value → Prop} (hempty : P .empty) (hblob : ∀ bytes, P (.blob bytes))
    (hread : n ≠ 0 → codec.constraint.allows n → (codec.read n).Yields P) :
    (codec.readField n).Yields P := by
  rw [readField]
  refine .ite (fun _ => .pure hempty) fun hn => .after fun field => ?_
  refine .ite (fun hallows => ?_) fun _ => .pure (hblob _)
  cases hresult : codec.read n field with
  | error e after =>
      rw [settle]
      by_cases hdepth : e.kind = .depth
      · rw [if_pos hdepth]
        exact .throw e
      · rw [if_neg hdepth]
        exact .pure (hblob _)
  | ok value after =>
      rw [settle]
      refine .pure ?_
      split
      · exact hread hn hallows field value after hresult
      · exact hblob _

/-- A value that a codec yields, of a length that it is written in. -/
structure Takes (codec : Codec) (v : Value) (n : Nat) : Prop where
  decoded : v.isDecoded
  length : codec.naturalLength v = .ok n
  writes : (codec.write v n).Writes n

/-- A value is forwarded if it is written in the length its codec gives it, and keeps no other
width. -/
theorem forwards_of_length (hv : v.isDecoded) (hlength : codec.fieldLength v = .ok n)
    (hkeeps : ∀ m, width = some m → codec.keepsWidth v m → m = n)
    (hwrites : (codec.write v n).Writes n) : codec.Forwards v width := by
  refine ⟨n, ?_, ?_⟩
  · cases width with
    | none => exact hlength
    | some m =>
        rw [hintedLength]
        split
        · next hkept => rw [hkeeps m rfl hkept]
        · exact hlength
  · rw [writeContent_of_isDecoded hv]
    exact hwrites

theorem keepsWidth_of_fits {m : Nat} (hfits : codec.fits v m = false) :
    codec.keepsWidth v m = false := by
  rw [keepsWidth, hfits, Bool.and_false]

/-- A codec that never keeps a width forwards what it takes, if it has no other length. -/
theorem Takes.forwards (h : codec.Takes v n) (hkeeps : ∀ m, codec.fits v m = false)
    (hfixed : ∀ m, codec.constraint.fixedLength = some m → m = n) : codec.Forwards v width := by
  refine forwards_of_length h.decoded ?_ (fun m _ hkept => ?_) h.writes
  · rw [fieldLength_of_isDecoded h.decoded]
    cases hfixedLength : codec.constraint.fixedLength with
    | none => exact h.length
    | some m => rw [hfixed m hfixedLength]
  · rw [keepsWidth_of_fits (hkeeps m)] at hkept
    cases hkept

/-- A number that fits the width it was read from has that length, unless the width is
forgotten and its codec has a choice. -/
theorem hintedLength_of_width (hv : v.isDecoded) (hallows : codec.constraint.allows n)
    (hwidth : width = none ∨ width = some n) (hfits : codec.fits v n) :
    codec.hintedLength v width = .ok n ∨ width = none ∧ codec.constraint.fixedLength = none ∧
      codec.hintedLength v width = codec.naturalLength v := by
  have hlength : codec.fieldLength v = _ := fieldLength_of_isDecoded hv
  cases hfixed : codec.constraint.fixedLength with
  | some m =>
      obtain rfl := LengthConstraint.eq_of_fixedLength hfixed hallows
      rw [hfixed] at hlength
      rcases hwidth with rfl | rfl
      · exact .inl hlength
      · refine .inl ?_
        rw [hintedLength, keepsWidth, hfixed, Option.isNone_some, Bool.and_false, Bool.false_and,
          Bool.false_and, if_neg Bool.false_ne_true]
        exact hlength
  | none =>
      rw [hfixed] at hlength
      rcases hwidth with rfl | rfl
      · exact .inr ⟨rfl, rfl, hlength⟩
      · refine .inl ?_
        rw [hintedLength, keepsWidth, hv, hfixed, hallows, hfits]
        rfl

/-- A number that fits the width it was read from is forwarded, if it is written in the length
that its codec chooses where there is a choice. -/
theorem forwards_of_fits (hv : v.isDecoded) (hallows : codec.constraint.allows n)
    (hwidth : width = none ∨ width = some n) (hfits : codec.fits v n)
    (hwrites : (codec.write v n).Writes n)
    (hnatural : width = none → codec.constraint.fixedLength = none →
      ∃ m, codec.naturalLength v = .ok m ∧ (codec.write v m).Writes m) :
    codec.Forwards v width := by
  rcases hintedLength_of_width hv hallows hwidth hfits with hn | ⟨hnone, hfixed, hlength⟩
  · refine ⟨n, hn, ?_⟩
    rw [writeContent_of_isDecoded hv]
    exact hwrites
  · obtain ⟨m, hm, hwritesNatural⟩ := hnatural hnone hfixed
    refine ⟨m, hlength.trans hm, ?_⟩
    rw [writeContent_of_isDecoded hv]
    exact hwritesNatural

/-! ## Numbers, truth values and text -/

/-- Whatever a codec reads from an allowed number of bytes is forwarded, whether that number
is remembered or not, if it is sound. -/
def Passes (codec : Codec) (Sound : Value → Option Nat → Prop) : Prop :=
  ∀ n, n ≠ 0 → codec.constraint.allows n → (codec.read n).Yields fun v =>
    ∀ width, (width = none ∨ width = some n) → Sound v width → codec.Forwards v width

/-- Codecs that yield what they take. -/
theorem passes_of_takes {Sound : Value → Prop}
    (hread : ∀ n, (codec.read n).Yields fun v => Sound v → ∃ m, codec.Takes v m ∧
      ∀ k, codec.constraint.fixedLength = some k → k = m)
    (hkeeps : ∀ v m, codec.fits v m = false) : codec.Passes fun v _ => Sound v := by
  intro n _ _
  refine (hread n).imp fun v hv width _ hsound => ?_
  obtain ⟨m, htakes, hfixed⟩ := hv hsound
  exact htakes.forwards (hkeeps v) hfixed

theorem blob_passes (c : LengthConstraint) : (blob c).Passes fun _ _ => True :=
  fun _ _ _ => .after fun bytes => .pure fun _ _ _ => forwards_blob bytes

theorem uint_passes (c : LengthConstraint) : (uint c).Passes fun _ _ => True := by
  intro n _ hallows
  refine (Integer.readUnsigned_yields n).bind fun x hx => .pure fun width hwidth _ => ?_
  obtain ⟨hrange, hlt⟩ := hx
  have hle : Integer.unsignedWidth x ≤ n := Integer.unsignedWidth_le_iff.2 ⟨hrange.1, hlt⟩
  refine forwards_of_fits rfl hallows hwidth ?_
    (.ofExcept rfl (Integer.writeUnsigned_writes hrange hlt)) fun _ _ => ?_
  · show (_ && _) = true
    rw [Bool.and_eq_true, decide_eq_true_iff, decide_eq_true_iff]
    exact ⟨hle, hrange.2⟩
  · obtain ⟨hlow, hhigh⟩ := LengthConstraint.fit_le hallows hle
    obtain ⟨hpos, hlt⟩ := Integer.unsignedWidth_le_iff.1 hlow
    exact ⟨_, rfl, .ofExcept rfl
      (Integer.writeUnsigned_writes ⟨hpos, Nat.le_trans hhigh hrange.2⟩ hlt)⟩

theorem sint_passes (c : LengthConstraint) : (sint c).Passes fun _ _ => True := by
  intro n _ hallows
  refine (Integer.readSigned_yields n).bind fun x hx => .pure fun width hwidth _ => ?_
  obtain ⟨hrange, hle⟩ := hx
  refine forwards_of_fits rfl hallows hwidth ?_
    (.ofExcept rfl (Integer.writeSigned_writes hrange hle)) fun _ _ => ?_
  · show (_ && _) = true
    rw [Bool.and_eq_true, decide_eq_true_iff, decide_eq_true_iff]
    exact ⟨hle, hrange.2⟩
  · obtain ⟨hlow, hhigh⟩ := LengthConstraint.fit_le hallows hle
    obtain ⟨hpos, _⟩ := Integer.signedWidth_le_iff.1 hlow
    exact ⟨_, rfl, .ofExcept rfl
      (Integer.writeSigned_writes ⟨hpos, Nat.le_trans hhigh hrange.2⟩ hlow)⟩

theorem enumeration_passes (name : String) (c : LengthConstraint) (names : Names) :
    (enumeration name c names).Passes fun _ _ => True :=
  uint_passes c

theorem berOid_passes : berOid.Passes fun _ _ => True := by
  refine passes_of_takes (fun _ => ?_) fun _ _ => rfl
  exact Ber.readTag_yields.bind fun x hx => .pure fun _ =>
    ⟨_, ⟨rfl, rfl, .ofExcept rfl (Ber.writeTag_writes hx)⟩, fun _ h => nomatch h⟩

theorem bool_passes : bool.Passes fun _ _ => True := by
  refine passes_of_takes (fun _ => ?_) fun _ _ => rfl
  refine .after fun b => .pure fun _ => ⟨1, ⟨rfl, rfl, .ofExcept rfl (.emit _)⟩, fun k hk => ?_⟩
  injection hk with hk
  exact hk.symm

/-- A float that was read from some width keeps it. -/
theorem floatFits_of_read {x : Binary64} {n : Nat} (hfits : Floating.Fits x n)
    (hsingle : n = 4 → ∃ b, x = Binary64.ofSingleBits b) : floatFits (.float x) n := by
  rcases hfits with rfl | ⟨rfl, _⟩
  · rfl
  · obtain ⟨b, rfl⟩ := hsingle rfl
    show (_ || _) = true
    cases hnan : (Binary64.ofSingleBits b).isNaN with
    | true => rfl
    | false =>
        rw [Binary64.toSingleBits_ofSingleBits hnan]
        exact Binary64.equals_self hnan

theorem float_passes (c : LengthConstraint) :
    (float c).Passes fun v width => width = none → ∀ x, v.asFloat? = some x →
      c.fixedLength = none → Floating.Fits x (c.suggestedOr 8) := by
  intro n _ hallows
  refine (Floating.read_yields n).bind fun x hx => .pure fun width hwidth hsound => ?_
  refine forwards_of_fits rfl hallows hwidth (floatFits_of_read hx.1 hx.2)
    (.ofExcept rfl (Floating.write_writes hx.1)) fun hnone hfixed => ?_
  exact ⟨_, rfl, .ofExcept rfl (Floating.write_writes (hsound hnone x rfl hfixed))⟩

/-- A scaled number has to find back to an integer of the length that it is given, and no
integer has more than eight bytes. -/
theorem imap_passes (low high : Binary64) (c : LengthConstraint) :
    (imap low high c).Passes fun v width => ∀ m, (imap low high c).hintedLength v width = .ok m →
      m ≤ 8 ∧ Imap.Rescales low high m v := by
  intro n _ hallows
  refine (Imap.read_yields low high n).bind fun x hx => .pure fun width hwidth hsound => ?_
  obtain ⟨hdomain, x', hx', hroom⟩ := hx
  obtain ⟨hfinite, hpos, hle⟩ := checkDomain_eq_ok.1 hdomain
  have hv : (Value.ofImap x).isDecoded := by cases x <;> rfl
  have hfits : imapFits (Value.ofImap x) n := by
    unfold imapFits
    rw [hx']
    dsimp only
    rw [Bool.and_eq_true, decide_eq_true_iff, decide_eq_true_iff]
    exact ⟨hroom, hle⟩
  have hforwards : ∀ m, x'.minLength ≤ m →
      (imap low high c).hintedLength (.ofImap x) width = .ok m →
        (imap low high c).Forwards (.ofImap x) width := by
    intro m hm hlength
    obtain ⟨hsmall, hrescales⟩ := hsound m hlength
    refine ⟨m, hlength, ?_⟩
    rw [writeContent_of_isDecoded hv]
    refine Imap.write_writes ⟨?_, x', hx', hm⟩ hrescales
    exact checkDomain_eq_ok.2 ⟨hfinite, Nat.le_trans x'.minLength_pos hm, hsmall⟩
  have hallows' : (imap low high c).constraint.allows n := hallows
  rcases hintedLength_of_width hv hallows' hwidth hfits with hn | ⟨_, _, hlength⟩
  · exact hforwards n hroom hn
  · have hnatural : (imap low high c).naturalLength (.ofImap x) =
        .ok (max (c.suggestedOr 8) x'.minLength) := by
      refine except_bind_eq_ok.2 ⟨x', ?_, rfl⟩
      rw [Value.requireImap, hx']
      rfl
    exact hforwards _ (Nat.le_max_right _ _) (hlength.trans hnatural)

/-- A mapped number has to find back to an integer of the one length of its format. -/
theorem linear_passes (signed : Bool) (low high : Binary64) (c : LengthConstraint) :
    (linear signed low high c).Passes fun v _ => ∀ x, v.asFloat? = some x →
      Linear.Rescales signed low high (c.fixedOr 8) x := by
  intro n _ hallows
  have hread : ((linear signed low high c).read n).Yields fun v =>
      checkDomain low high n = .ok () ∧ ∃ x, v = .float x := by
    show (if signed then _ else _ : Reader Value).Yields _
    refine .ite (fun _ => ?_) fun _ => ?_
    · exact (Linear.readSigned_yields low high n).bind fun x hx => .pure ⟨hx, x, rfl⟩
    · exact (Linear.readUnsigned_yields low high n).bind fun x hx => .pure ⟨hx, x, rfl⟩
  refine hread.imp fun v hv width _ hsound => ?_
  obtain ⟨hdomain, x, rfl⟩ := hv
  have hrescales := hsound x rfl
  have hlength : (linear signed low high c).fieldLength (.float x) = .ok (c.fixedOr 8) := by
    have hconstraint : (linear signed low high c).constraint = c := rfl
    rw [fieldLength_of_isDecoded rfl, hconstraint, LengthConstraint.fixedOr]
    cases hfixed : c.fixedLength with
    | some m => rfl
    | none =>
        show Except.ok (c.fixedOr 8) = _
        rw [LengthConstraint.fixedOr, hfixed]
  have hdomain' : checkDomain low high (c.fixedOr 8) = .ok () := by
    obtain ⟨hfinite, hrange⟩ := checkDomain_eq_ok.1 hdomain
    refine checkDomain_eq_ok.2 ⟨hfinite, ?_⟩
    rw [LengthConstraint.fixedOr]
    cases hfixed : c.fixedLength with
    | none => exact ⟨Nat.le_of_ble_eq_true rfl, Nat.le_refl 8⟩
    | some m =>
        have hm := LengthConstraint.eq_of_fixedLength hfixed hallows
        rw [Option.getD_some, ← hm]
        exact hrange
  refine forwards_of_length rfl hlength (fun m _ hkept => ?_) (.ofExcept rfl ?_)
  · rw [keepsWidth_of_fits rfl] at hkept
    cases hkept
  · cases signed with
    | true => exact Linear.writeSigned_writes hdomain' hrescales
    | false => exact Linear.writeUnsigned_writes hdomain' hrescales

/-- A text has the length of its encoding, which is what it was read from. -/
theorem text_passes (encoding : Text.Encoding) (characters c : LengthConstraint) :
    (text encoding characters c).Passes fun _ _ => True := by
  intro n hn hallows cursor v after hread width _ _
  obtain ⟨hle, s, rfl, hs⟩ := text_read hn hread
  have hlength : (cursor.rest.take n).length = n := List.length_take_of_le hle
  generalize cursor.rest.take n = data at hs hlength
  subst hlength
  refine forwards_of_length rfl (text_fieldLength hallows hs) (fun m _ hkept => ?_) ?_
  · rw [keepsWidth_of_fits rfl] at hkept
    cases hkept
  · exact fun position => ⟨data, rfl, text_write hs position⟩

/-! ## Fields -/

theorem Passes.imp {Sound Sound' : Value → Option Nat → Prop} (h : codec.Passes Sound)
    (himp : ∀ v width, Sound' v width → Sound v width) : codec.Passes Sound' :=
  fun n hn hallows => (h n hn hallows).imp fun v hv width hwidth hsound =>
    hv width hwidth (himp v width hsound)

/-- Empty values and kept bytes ask for nothing. -/
theorem Passes.ofDecoded {Sound : Value → Option Nat → Prop} (h : codec.Passes Sound) :
    codec.Passes fun v width => v.isDecoded → Sound v width := by
  intro n hn hallows
  refine (h n hn hallows).imp fun v hv width hwidth hsound => ?_
  cases v with
  | empty => exact forwards_empty
  | blob bytes => exact forwards_blob bytes
  | _ => exact hv width hwidth (hsound rfl)

/-- What is read as a field is forwarded, if it is sound. -/
theorem Passes.readField {Sound : Value → Option Nat → Prop} (h : codec.Passes Sound) (n : Nat) :
    (codec.readField n).Yields fun v => ∀ width, (width = none ∨ width = some n) →
      Sound v width → codec.Forwards v width :=
  readField_yields (fun _ _ _ => forwards_empty) (fun _ _ _ _ => forwards_blob _) (h n)

end Codec

end MotionMetadata
