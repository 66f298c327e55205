import MotionMetadata.Proofs.Packs
import MotionMetadata.Proofs.Restoring

/-!
# How long a value is written

A length is worked out before anything is written, by code that shares nothing with the
writer but the value. Most formats leave no room for a difference: a number is written in the
length it is given or not at all, and arrays are measured by being written. What is left are
the packs, whose parts may be absent or vary in width, and each of them is a walk along its
writer with the sum of the widths beside it.

`Encoder.Fills` is the contract for such a walk. It asks nothing of an encoder that fails, so a
value may be measured and still be refused.
-/

namespace MotionMetadata

namespace Encoder

variable {α β : Type} {m n : Nat}

/-- Where the encoder succeeds, it adds so many bytes. -/
def Fills (x : Encoder α) (n : Nat) : Prop :=
  ∀ position a bytes, x position = .ok (a, bytes) → bytes.length = n

theorem Writes.fills {x : Encoder Unit} (h : x.Writes n) : x.Fills n := by
  intro position _ bytes hx
  obtain ⟨_, hlength, hok⟩ := h position
  rw [hx] at hok
  injection hok with hok
  injection hok with _ hbytes
  rw [hbytes, hlength]

namespace Fills

theorem pure (a : α) : (Pure.pure a : Encoder α).Fills 0 := by
  intro position _ bytes hx
  injection hx with hx
  injection hx with _ hbytes
  rw [← hbytes, List.length_nil]

theorem emit (bytes : Bytes) : (emit bytes).Fills bytes.length := (Writes.emit bytes).fills

theorem raise (fault : Fault) : (raise fault : Encoder α).Fills n := fun _ _ _ hx => nomatch hx

theorem bind {x : Encoder α} {f : α → Encoder β} (hx : x.Fills m) (hf : ∀ a, (f a).Fills n) :
    (x >>= f).Fills (m + n) := by
  intro position b bytes hbytes
  obtain ⟨a, first, second, hfirst, hsecond, rfl⟩ := bind_eq_ok.1 hbytes
  rw [List.length_append, hx _ _ _ hfirst, hf a _ _ _ hsecond]

/-- What is worked out before writing takes no bytes. -/
theorem after {x : Except Error α} {f : α → Encoder β} (hf : ∀ a, x = .ok a → (f a).Fills n) :
    (Encoder.ofExcept x >>= f).Fills n := by
  intro position b bytes hbytes
  obtain ⟨a, ha, hbytes⟩ := ofExcept_bind_eq_ok.1 hbytes
  exact hf a ha _ _ _ hbytes

theorem ofExcept {x : Except Error α} {f : α → Encoder β} {a : α} (hx : x = .ok a)
    (hf : (f a).Fills n) : (Encoder.ofExcept x >>= f).Fills n := by
  subst hx
  refine after fun a' ha' => ?_
  injection ha' with ha'
  exact ha' ▸ hf

theorem ite {p : Prop} [Decidable p] {x y : Encoder α} (hx : p → x.Fills n)
    (hy : ¬ p → y.Fills n) : (if p then x else y).Fills n := by
  split
  · next hp => exact hx hp
  · next hp => exact hy hp

/-- A sequence that does not go on under a condition. -/
theorem refuse {p : Prop} [Decidable p] {x : Encoder α} {fault : Fault}
    (hx : ¬ p → x.Fills n) :
    (if p then MotionMetadata.raise fault >>= fun (_ : Unit) => x else x).Fills n :=
  .ite (fun _ _ _ _ hbytes => nomatch hbytes) hx

/-- A sequence that goes on only under a condition. -/
theorem require {p : Prop} [Decidable p] {x : Encoder α} {fault : Fault}
    (hx : p → x.Fills n) :
    (if p then x else MotionMetadata.raise fault >>= fun (_ : Unit) => x).Fills n :=
  .ite hx fun _ _ _ _ hbytes => nomatch hbytes

theorem mapError {x : Encoder α} {f : Error → Error} (hx : x.Fills n) :
    (mapError f x).Fills n :=
  fun position a bytes hbytes => hx position a bytes (mapError_eq_ok.1 hbytes)

theorem each {write : α → Encoder Unit} {width : α → Nat} {items : List α}
    (h : ∀ item ∈ items, (write item).Fills (width item)) :
    (each write items).Fills (items.map width).sum := by
  induction items with
  | nil => exact .pure ()
  | cons item rest ih =>
      obtain ⟨hitem, hrest⟩ := List.forall_mem_cons.1 h
      exact hitem.bind fun _ => ih hrest

end Fills

end Encoder

open Encoder

/-! ## Numbers and texts -/

theorem Ber.writeTag_fills (v : UInt64) : (Ber.writeTag v).Fills (Ber.tagWidth v) := by
  intro position _ bytes h
  rw [(Ber.writeTag_eq_ok.1 h).2, Ber.length_tagBytes]

theorem Integer.writeUnsigned_fills (v : UInt64) (width : Nat) :
    (Integer.writeUnsigned v width).Fills width := by
  intro position _ bytes h
  rw [(Integer.writeUnsigned_eq_ok.1 h).2.2, BigEndian.length_bytes]

theorem Integer.writeSigned_fills (v : Int64) (width : Nat) :
    (Integer.writeSigned v width).Fills width := by
  intro position _ bytes h
  rw [(Integer.writeSigned_eq_ok.1 h).2.2, BigEndian.length_bytes]

theorem Floating.write_fills (x : Binary64) (width : Nat) :
    (Floating.write x width).Fills width := by
  have hbytes : ∀ n m : Nat, (emit (BigEndian.bytes n m)).Fills n := by
    intro n m
    have h := Fills.emit (BigEndian.bytes n m)
    rwa [BigEndian.length_bytes] at h
  unfold Floating.write
  split
  · exact .refuse fun _ => hbytes 4 _
  · exact hbytes 8 _
  · exact .raise _

theorem Imap.write_fills (v : Imap) (low high : Binary64) (width : Nat) :
    (Imap.write v low high width).Fills width := by
  rw [Imap.write]
  split
  · exact .raise _
  · refine .require fun _ => ?_
    split
    · exact .ite (fun _ => Integer.writeUnsigned_fills _ _) fun _ =>
        Integer.writeUnsigned_fills _ _
    · exact Integer.writeUnsigned_fills _ _

theorem Linear.writeUnsigned_fills (x low high : Binary64) (width : Nat) :
    (Linear.writeUnsigned x low high width).Fills width := by
  rw [Linear.writeUnsigned]
  split
  · exact .raise _
  · exact Integer.writeUnsigned_fills _ _

theorem Linear.writeSigned_fills (x low high : Binary64) (width : Nat) :
    (Linear.writeSigned x low high width).Fills width := by
  rw [Linear.writeSigned]
  split
  · exact .raise _
  · refine .ite (fun _ => Integer.writeSigned_fills _ _) fun _ => ?_
    split
    · exact .raise _
    · exact Integer.writeSigned_fills _ _

namespace Codec

variable {codec : Codec} {v : Value} {width : Option Nat} {n : Nat}

theorem writeField_fills (codec : Codec) (v : Value) (n : Nat) :
    (codec.writeField v n).Fills n :=
  fun _ _ _ h => (writeField_eq_ok.1 h).2

/-! ## What a codec has to keep

A value that was interpreted, is measured and is written by its codec. -/

/-- The value takes as many bytes as it is measured to take, if it can be written in them. -/
def Exact (codec : Codec) (v : Value) (width : Option Nat) : Prop :=
  ∀ n, codec.hintedLength v width = .ok n → (codec.write v n).Fills n

/-- A width is kept for what fits it. All else is measured. -/
theorem hintedLength_eq_ok (h : codec.hintedLength v width = .ok n) :
    codec.keepsWidth v n ∨ codec.fieldLength v = .ok n := by
  cases width with
  | none => exact .inr h
  | some m =>
      rw [hintedLength] at h
      split at h
      · next hkeeps =>
          injection h with h
          exact .inl (h ▸ hkeeps)
      · exact .inr h

/-- What is written in any length it is given. -/
theorem exact_of_sized (h : ∀ n, (codec.write v n).Fills n) : codec.Exact v width :=
  fun n _ => h n

/-- What has just one length. -/
theorem exact_of_fixed {fixed : Nat} (hv : v.isDecoded)
    (hfixed : codec.constraint.fixedLength = some fixed)
    (hwrite : ∀ n, (codec.write v n).Fills fixed) : codec.Exact v width := by
  intro n hn
  rcases hintedLength_eq_ok hn with hkeeps | hlength
  · simp [keepsWidth, hfixed] at hkeeps
  · rw [fieldLength_of_isDecoded hv, hfixed] at hlength
    injection hlength with hlength
    exact hlength ▸ hwrite n

/-- What leaves no choice of a width is measured. -/
theorem exact_of_natural (hv : v.isDecoded) (hfree : codec.constraint.fixedLength = none)
    (hfits : ∀ m, codec.fits v m = false)
    (hwrite : ∀ n, codec.naturalLength v = .ok n → ∀ m, (codec.write v m).Fills n) :
    codec.Exact v width := by
  intro n hn
  rcases hintedLength_eq_ok hn with hkeeps | hlength
  · simp [keepsWidth, hfits] at hkeeps
  · rw [fieldLength_of_isDecoded hv, hfree] at hlength
    exact hwrite n hlength n

/-- What is measured by being written. -/
theorem exact_of_bytes {x : Except Error Bytes} (hv : v.isDecoded)
    (hfree : codec.constraint.fixedLength = none) (hfits : ∀ m, codec.fits v m = false)
    (hlength : codec.naturalLength v = x.map List.length)
    (hwrite : ∀ n, codec.write v n = (do Encoder.emit (← Encoder.ofExcept x))) :
    codec.Exact v width := by
  refine exact_of_natural hv hfree hfits fun n hn m => ?_
  rw [hlength] at hn
  cases x with
  | error e => cases hn
  | ok bytes =>
      injection hn with hn
      rw [hwrite, ← hn]
      exact .ofExcept rfl (.emit bytes)

/-! ## Single values -/

theorem uint_exact (c : LengthConstraint) : (uint c).Exact v width :=
  exact_of_sized fun n => .after fun _ _ => Integer.writeUnsigned_fills _ n

theorem sint_exact (c : LengthConstraint) : (sint c).Exact v width :=
  exact_of_sized fun n => .after fun _ _ => Integer.writeSigned_fills _ n

theorem float_exact (c : LengthConstraint) : (float c).Exact v width :=
  exact_of_sized fun n => .after fun _ _ => Floating.write_fills _ n

theorem imap_exact (low high : Binary64) (c : LengthConstraint) :
    (imap low high c).Exact v width :=
  exact_of_sized fun n => .after fun _ _ => Imap.write_fills _ low high n

theorem linear_exact (signed : Bool) (low high : Binary64) (c : LengthConstraint) :
    (linear signed low high c).Exact v width :=
  exact_of_sized fun n => .after fun x _ => .ite
    (fun _ => Linear.writeSigned_fills x low high n)
    fun _ => Linear.writeUnsigned_fills x low high n

theorem berOid_exact (hv : v.isDecoded) : berOid.Exact v width := by
  refine exact_of_natural hv rfl (fun _ => rfl) fun n hn _ => ?_
  obtain ⟨u, hu, hn⟩ := except_bind_eq_ok.1 hn
  injection hn with hn
  exact hn ▸ .ofExcept hu (Ber.writeTag_fills u)

theorem bool_exact (hv : v.isDecoded) : bool.Exact v width :=
  exact_of_fixed hv rfl fun _ => .after fun b _ => .emit [if b then 1 else 0]

/-- A text has its own length, unless a format gives it one. -/
theorem text_exact {encoding : Text.Encoding} {characters c : LengthConstraint}
    (hv : v.isDecoded) (hfree : c.fixedLength = none) :
    (text encoding characters c).Exact v width := by
  refine exact_of_natural hv hfree (fun _ => rfl) fun n hn _ => ?_
  obtain ⟨s, hs, hn⟩ := except_bind_eq_ok.1 hn
  injection hn with hn
  refine .ofExcept hs (.ite (fun hempty => ?_) fun hempty => .after fun bytes hbytes => ?_)
  · rw [← hn, if_pos hempty]
    exact .emit _
  · rw [← hn, if_neg hempty, Text.Encoding.length_encode hbytes]
    exact .emit bytes

/-! ## Arrays -/

theorem grid_exact (element : GridElement) (hv : v.isDecoded) :
    (grid element).Exact v width := by
  refine exact_of_bytes (x := do (← Grid.ofValue v).encode element) hv rfl (fun _ => rfl) ?_
    fun _ => rfl
  show (do return (← (← Grid.ofValue v).encode element).length) = _
  cases Grid.ofValue v <;> rfl

theorem rowArray_exact (a : RowArray) (hv : v.isDecoded) : (rowArray a).Exact v width :=
  exact_of_bytes (x := a.encode v) hv rfl (fun _ => rfl) rfl fun _ => rfl

theorem correlation_exact (preceding : List Tag) (hv : v.isDecoded) :
    (correlation preceding).Exact v width := by
  refine exact_of_bytes (x := do (← Correlation.ofValue v).encode) hv rfl (fun _ => rfl) ?_
    fun _ => rfl
  show (do return (← (← Correlation.ofValue v).encode).length) = _
  cases Correlation.ofValue v <;> rfl

/-! ## Packs of whole numbers -/

theorem metricPeriod_exact (hv : v.isDecoded) : metricPeriod.Exact v width :=
  exact_of_fixed hv rfl fun _ => .after fun timestamp _ =>
    (Integer.writeUnsigned_fills timestamp MetricPeriod.timestampWidth).bind fun _ =>
      .after fun offset _ => Integer.writeUnsigned_fills offset MetricPeriod.offsetWidth

theorem userData_exact (hv : v.isDecoded) : userData.Exact v width :=
  exact_of_fixed hv rfl fun _ => .after fun _ _ => .after fun _ _ => .refuse fun _ =>
    Integer.writeUnsigned_fills _ 1

theorem detectorIndex_exact (hv : v.isDecoded) : detectorIndex.Exact v width :=
  exact_of_fixed hv rfl fun _ => .after fun row _ =>
    (Integer.writeUnsigned_fills row 1).bind fun _ => .after fun column _ =>
      Integer.writeUnsigned_fills column 1

/-- Numbers that pass the check make a tag of one byte. -/
theorem rangeEnumerations_exact (hv : v.isDecoded) : rangeEnumerations.Exact v width := by
  refine exact_of_fixed hv rfl fun _ => .after fun compression _ => .after fun dataType _ =>
    .after fun source _ => .refuse fun hsmall => ?_
  simp only [UInt64.lt_iff_toNat_lt, UInt64.reduceToNat, not_or, Nat.not_lt] at hsmall
  have hsum : (source * 64 + dataType * 8 + compression).toNat < 2 ^ 7 := by
    simp only [UInt64.toNat_add, UInt64.toNat_mul, UInt64.reduceToNat]
    omega
  have hfills := Ber.writeTag_fills (source * 64 + dataType * 8 + compression)
  rwa [Nat.le_antisymm (Ber.tagWidth_le_iff.2 ⟨Nat.le_refl 1, hsum⟩) (Nat.le_max_left ..)]
    at hfills

end Codec

/-! ## Packs of parts that vary -/

/-- Corners are summed up from the first, and written from the first. -/
theorem WindowCorners.write_fills {value : Value} {names : List String} {total n : Nat}
    (h : names.foldlM (fun total name => return total + Ber.tagWidth (← value.uintField name))
      total = (.ok n : Except Error Nat)) :
    ∃ m, n = total + m ∧ (each (fun name => do
      Ber.writeTag (← Encoder.ofExcept (value.uintField name))) names).Fills m := by
  induction names generalizing total with
  | nil =>
      injection h with h
      exact ⟨0, h.symm, .pure ()⟩
  | cons name rest ih =>
      rw [List.foldlM_cons] at h
      obtain ⟨subtotal, hsubtotal, h⟩ := except_bind_eq_ok.1 h
      obtain ⟨corner, hcorner, hsum⟩ := except_bind_eq_ok.1 hsubtotal
      injection hsum with hsum
      obtain ⟨m, rfl, hfills⟩ := ih h
      refine ⟨Ber.tagWidth corner + m, by omega, ?_⟩
      exact (Fills.ofExcept hcorner (Ber.writeTag_fills corner)).bind fun _ => hfills

namespace ScaledField

theorem write_fills (value : Value) (f : ScaledField) : (f.write value).Fills f.width :=
  .after fun _ _ => Imap.write_fills _ f.low f.high f.width

end ScaledField

namespace Position

/-- Three more numbers take six bytes, and none take none. -/
theorem writeTriple_fills {fields : List ScaledField} {triple : Option Value} {n : Nat}
    (hwidths : (fields.map (·.width)).sum = tripleLength)
    (h : lengthOfTriple fields triple = .ok n) : (writeTriple fields triple).Fills n := by
  cases triple with
  | none =>
      injection h with h
      exact h ▸ .pure ()
  | some value =>
      obtain ⟨_, _, h⟩ := except_bind_eq_ok.1 h
      injection h with h
      rw [← h, ← hwidths]
      exact .each fun f _ => f.write_fills value

theorem write_fills {p : Position} {v : Value} {n : Nat} (h : p.naturalLength v = .ok n) :
    (p.write v).Fills n := by
  obtain ⟨_, _, h⟩ := except_bind_eq_ok.1 h
  obtain ⟨⟨deviations, correlations⟩, htriples, h⟩ := except_bind_eq_ok.1 h
  obtain ⟨first, hfirst, h⟩ := except_bind_eq_ok.1 h
  obtain ⟨second, hsecond, h⟩ := except_bind_eq_ok.1 h
  injection h with h
  have hhead : (p.head.map (·.width)).sum = p.headLength := by cases p <;> rfl
  rw [← h, ← hhead, Nat.add_assoc]
  refine (Fills.each fun f _ => f.write_fills v).bind fun _ => .ofExcept htriples ?_
  exact (writeTriple_fills rfl hfirst).bind fun _ => writeTriple_fills rfl hsecond

end Position

namespace Identity

/-- Identifiers are all of one length. -/
theorem length_of_idOf {value : Value} {name : String} {id : Option Bytes}
    (h : idOf value name = .ok id) : ∀ bytes ∈ id, bytes.length = uuidLength := by
  obtain ⟨field, _, h⟩ := except_bind_eq_ok.1 h
  split at h
  · injection h with h
    subst h
    exact nofun
  · next bytes =>
      split at h
      · next hlength =>
          injection h with h
          subst h
          exact fun _ hbytes => Option.some.inj hbytes ▸ hlength
      · cases h
  · cases h

theorem length_of_idsOf {value : Value} {ids : List (Option Bytes)}
    (h : idsOf value = .ok ids) : ∀ bytes ∈ ids.filterMap id, bytes.length = uuidLength := by
  have hids : ∀ found ∈ ids, ∀ bytes ∈ found, bytes.length = uuidLength := by
    rw [idsOf, except_mapM_eq_ok] at h
    generalize idFields = names at h
    induction h with
    | nil => exact List.forall_mem_nil _
    | cons hname _ ih => exact List.forall_mem_cons.2 ⟨length_of_idOf hname, ih⟩
  intro bytes hbytes
  obtain ⟨found, hfound, hbytes⟩ := List.mem_filterMap.1 hbytes
  exact hids found hfound bytes hbytes

theorem write_fills {value : Value} {n : Nat} (h : naturalLength value = .ok n) :
    (write value).Fills n := by
  obtain ⟨ids, hids, h⟩ := except_bind_eq_ok.1 h
  injection h with h
  have hlengths : ((ids.filterMap id).map List.length).sum =
      (ids.filterMap id).length * uuidLength := by
    rw [List.map_congr_left (length_of_idsOf hids), List.map_const', List.sum_replicate_nat]
  have hsplit : n = 1 + (1 + ((ids.filterMap id).map List.length).sum) := by
    rw [hlengths]
    omega
  rw [hsplit]
  refine .after fun sensor _ => .after fun platform _ => .refuse fun _ => .ofExcept hids ?_
  refine .after fun _ _ => .after fun version _ => ?_
  exact (Integer.writeUnsigned_fills version 1).bind fun _ =>
    (Fills.emit [usageByte sensor platform ids]).bind fun _ => .each fun id _ => .emit id

end Identity

/-- The separator is there with the subgroup. -/
theorem MetricImplementer.write_fills {value : Value} {n : Nat}
    (h : naturalLength value = .ok n) : (write value).Fills n := by
  obtain ⟨subgroup, hsubgroup, h⟩ := except_bind_eq_ok.1 h
  obtain ⟨organization, horganization, h⟩ := except_bind_eq_ok.1 h
  injection h with h
  rw [← h]
  refine .ofExcept horganization ((Fills.emit _).bind fun _ => .ofExcept hsubgroup ?_)
  cases subgroup with
  | none => exact .pure ()
  | some s =>
      dsimp only
      rw [Nat.add_comm]
      exact .emit _

namespace RangeSection

variable {codec : Codec} {v : Value} {n : Nat}

/-- A part is written in the length it is announced with, or not at all. -/
theorem writePart_fills (h : partLength codec v = .ok n) : (writePart codec v).Fills n := by
  obtain ⟨length, hlength, h⟩ := except_bind_eq_ok.1 h
  injection h with h
  rw [← h]
  exact .ofExcept hlength ((Ber.writeLength_writes length).fills.bind fun _ =>
    codec.writeField_fills v length)

theorem writeParts_fills {parts : List (Codec × Value)} {lengths : List Nat}
    (h : parts.mapM (fun part => partLength part.1 part.2) = .ok lengths) :
    (each (fun part => writePart part.1 part.2) parts).Fills lengths.sum := by
  rw [except_mapM_eq_ok] at h
  induction h with
  | nil => exact .pure ()
  | cons hpart _ ih =>
      rw [List.sum_cons]
      exact (writePart_fills hpart).bind fun _ => ih

theorem write_fills (h : naturalLength v = .ok n) : (write v).Fills n := by
  obtain ⟨x, hx, h⟩ := except_bind_eq_ok.1 h
  obtain ⟨xLength, hxLength, h⟩ := except_bind_eq_ok.1 h
  obtain ⟨y, hy, h⟩ := except_bind_eq_ok.1 h
  obtain ⟨yLength, hyLength, h⟩ := except_bind_eq_ok.1 h
  obtain ⟨measurements, hmeasurements, h⟩ := except_bind_eq_ok.1 h
  obtain ⟨dataLength, hdataLength, h⟩ := except_bind_eq_ok.1 h
  obtain ⟨parts, hparts, h⟩ := except_bind_eq_ok.1 h
  obtain ⟨lengths, hlengths, h⟩ := except_bind_eq_ok.1 h
  injection h with h
  have hsum : n = xLength + (yLength + (dataLength + lengths.sum)) := by
    rw [← h, List.sum_eq_foldr, Nat.add_assoc, Nat.add_assoc]
  rw [hsum]
  refine .ofExcept hx ((writePart_fills hxLength).bind fun _ => .ofExcept hy ?_)
  refine (writePart_fills hyLength).bind fun _ => .ofExcept hmeasurements ?_
  exact (writePart_fills hdataLength).bind fun _ => .ofExcept hparts (writeParts_fills hlengths)

end RangeSection

namespace Codec

variable {v : Value} {width : Option Nat}

theorem windowCorners_exact (hv : v.isDecoded) : windowCorners.Exact v width := by
  refine exact_of_natural hv rfl (fun _ => rfl) fun n hn _ => ?_
  obtain ⟨m, hm, hfills⟩ := WindowCorners.write_fills hn
  rw [Nat.zero_add] at hm
  exact hm ▸ hfills

theorem metricImplementer_exact (hv : v.isDecoded) : metricImplementer.Exact v width :=
  exact_of_natural hv rfl (fun _ => rfl) fun _ hn _ => MetricImplementer.write_fills hn

theorem position_exact (p : Position) (hv : v.isDecoded) : (position p).Exact v width :=
  exact_of_natural hv rfl (fun _ => rfl) fun _ hn _ => Position.write_fills hn

theorem identity_exact (hv : v.isDecoded) : identity.Exact v width :=
  exact_of_natural hv rfl (fun _ => rfl) fun _ hn _ => Identity.write_fills hn

theorem rangeSection_exact (hv : v.isDecoded) : rangeSection.Exact v width :=
  exact_of_natural hv rfl (fun _ => rfl) fun _ hn _ => RangeSection.write_fills hn

end Codec

end MotionMetadata
