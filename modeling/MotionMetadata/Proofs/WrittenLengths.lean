import MotionMetadata.Proofs.Lengths
import MotionMetadata.Proofs.Reencoding
import MotionMetadata.Proofs.Segments
import MotionMetadata.Proofs.Spellings

/-!
# Measured and written

What nests is measured by adding up its parts, and written part by part, each with a check
that it came out as it was measured. So the sum is right as far as the parts were checked, and
that they are is no accident: no value is refused for having been measured wrongly. Only the
order of a set can upset this, which is a matter of the packs that describe other entries: an
entry that the order leaves out or puts down twice is measured once.
-/

namespace MotionMetadata

open Encoder

/-- Where no level is left, nothing is measured. -/
theorem except_descend_bind_eq_ok {α γ : Type} {inner : Option γ} {k : γ → Except Error α} {a : α} :
    (descend inner >>= k) = .ok a ↔ ∃ c, inner = some c ∧ k c = .ok a := by
  cases inner with
  | none => exact ⟨nofun, nofun⟩
  | some c => exact ⟨fun h => ⟨c, rfl, h⟩, fun ⟨_, hc, h⟩ => Option.some.inj hc ▸ h⟩

namespace Encoder.Fills

/-- What lies a level further in. -/
theorem descend {γ : Type} {c : γ} {k : γ → Encoder Unit} {n : Nat} (hk : (k c).Fills n) :
    (MotionMetadata.descend (some c) >>= k).Fills n :=
  .ofExcept (x := .ok c) rfl hk

end Encoder.Fills

namespace FieldSet

variable {κ : Type} [SetKey κ] [ReadableKey κ] {table : Table} {inner : Format → Codec}
variable {set : FieldSet κ} {n : Nat}

/-- An entry takes its key, its length and that many bytes, whatever entries are before it. -/
theorem writeEntry_fills
    (hafter : ∀ (f : Format) tags v width,
      (inner (f.after tags)).hintedLength v width = (inner f).hintedLength v width)
    {e : Entry κ Value}
    (h : (inner (SetKey.entry table e.key).format).hintedLength e.value e.width = .ok n)
    (earlier : List Tag) :
    (writeEntry table inner earlier e).Fills
      (SetKey.width e.key + (Ber.widthOfLength n + n)) := by
  have hkey : (SetKey.write e.key).Fills (SetKey.width e.key) :=
    fun _ _ _ hwrite => (ReadableKey.of_write hwrite).2.symm
  rw [← hafter _ earlier.reverse] at h
  exact .mapError (.ofExcept h (hkey.bind fun _ =>
    (Ber.writeLength_writes n).fills.bind fun _ => Codec.writeField_fills _ e.value n))

theorem writeEntries_fills
    (hafter : ∀ (f : Format) tags v width,
      (inner (f.after tags)).hintedLength v width = (inner f).hintedLength v width)
    (h : entriesLength table inner set = .ok n) (earlier : List Tag) :
    (writeEntries table inner earlier set).Fills n := by
  induction set generalizing n earlier with
  | nil =>
      injection h with h
      exact h ▸ .pure ()
  | cons e rest ih =>
      rw [entriesLength] at h
      obtain ⟨length, hlength, h⟩ := except_bind_eq_ok.1 h
      obtain ⟨more, hmore, h⟩ := except_bind_eq_ok.1 h
      injection h with h
      rw [← h, Nat.add_assoc (SetKey.width e.key)]
      exact (writeEntry_fills hafter hlength earlier).bind fun _ => ih hmore _

/-- A set that describes nothing is written in the order it is measured in. -/
theorem write_fills {inner : Option (Format → Codec)}
    (hafter : ∀ codecs, inner = some codecs → ∀ (f : Format) tags v width,
      (codecs (f.after tags)).hintedLength v width = (codecs f).hintedLength v width)
    (hplain : Plain table set)
    (h : encodedLength table inner set = .ok n) : (write table inner set).Fills n := by
  obtain ⟨codecs, rfl, hentries⟩ := except_descend_bind_eq_ok.1 h
  rw [writeOrder_of_plain hplain] at hentries
  exact .descend (.ofExcept (writeOrder_of_plain hplain)
    (writeEntries_fills (hafter codecs rfl) hentries []))

end FieldSet

namespace Series

theorem writeItems_fills {element : Codec} {items : List Value} {n : Nat}
    (h : itemsLength element items = .ok n) : (each (writeItem element) items).Fills n := by
  induction items generalizing n with
  | nil =>
      injection h with h
      exact h ▸ .pure ()
  | cons item rest ih =>
      rw [itemsLength] at h
      obtain ⟨length, hlength, h⟩ := except_bind_eq_ok.1 h
      obtain ⟨more, hmore, h⟩ := except_bind_eq_ok.1 h
      injection h with h
      rw [← h]
      have hitem : (writeItem element item).Fills (Ber.widthOfLength length + length) :=
        .ofExcept hlength ((Ber.writeLength_writes length).fills.bind fun _ =>
          Codec.writeField_fills element item length)
      exact hitem.bind fun _ => ih hmore

end Series

theorem IdPack.write_fills {set : Codec} {value : Value} {n : Nat}
    (h : encodedLength set value = .ok n) : (write set value).Fills n := by
  obtain ⟨id, hid, h⟩ := except_bind_eq_ok.1 h
  obtain ⟨content, hcontent, h⟩ := except_bind_eq_ok.1 h
  obtain ⟨length, hlength, h⟩ := except_bind_eq_ok.1 h
  injection h with h
  rw [← h]
  exact .ofExcept hid ((Ber.writeTag_fills id).bind fun _ => .ofExcept hcontent
    (.ofExcept hlength (set.writeField_fills content length)))

/-! ## Formats -/

namespace Codec

variable {codec : Codec} {v : Value} {width : Option Nat} {n : Nat}

/-- What is written for a value, be it interpreted or kept, has the length it was measured
to have. -/
theorem writeContent_fills (h : codec.Exact v width) (hn : codec.hintedLength v width = .ok n) :
    (codec.writeContent v n).Fills n := by
  have hkept : v.isDecoded = false → codec.fieldLength v = .ok n := fun hv =>
    (hintedLength_eq_ok hn).resolve_left (by simp [keepsWidth, hv])
  cases v with
  | empty =>
      injection hkept rfl with hlength
      exact hlength ▸ .pure ()
  | blob bytes =>
      injection hkept rfl with hlength
      exact hlength ▸ .emit bytes
  | _ => exact h n hn

/-- The check of a field never strikes where the length is right. -/
theorem writeField_of_fills (h : (codec.writeContent v n).Fills n) :
    codec.writeField v n = codec.writeContent v n := by
  funext position
  cases hwrite : codec.writeContent v n position with
  | ok r => exact writeField_eq_ok.2 ⟨hwrite, h position r.1 r.2 hwrite⟩
  | error e =>
      refine bind_of_error ?_
      rw [captured, hwrite]

end Codec

namespace Codec

variable {v : Value} {width : Option Nat}

theorem series_exact (description : String) (element : Option Codec) (hv : v.isDecoded) :
    (series description element).Exact v width := by
  refine exact_of_natural hv rfl (fun _ => rfl) fun n hn _ => ?_
  obtain ⟨codec, rfl, hseries⟩ := except_descend_bind_eq_ok.1 hn
  obtain ⟨items, hitems, hlength⟩ := except_bind_eq_ok.1 hseries
  exact .descend (.ofExcept hitems (Series.writeItems_fills hlength))

theorem idPack_exact (description : String) (set : Option Codec) (shown : Codec)
    (hv : v.isDecoded) : (idPack description set shown).Exact v width := by
  refine exact_of_natural hv rfl (fun _ => rfl) fun n hn _ => ?_
  obtain ⟨codec, rfl, hlength⟩ := except_descend_bind_eq_ok.1 hn
  exact .descend (IdPack.write_fills hlength)

section Sets

variable {table : Table} {inner : Option (Format → Codec)}

theorem localSet_exact (description : String)
    (hafter : ∀ codecs, inner = some codecs → ∀ (f : Format) tags v width,
      (codecs (f.after tags)).hintedLength v width = (codecs f).hintedLength v width)
    (hv : v.isDecoded)
    (hplain : ∀ set, v = .localSet set → FieldSet.Plain table set) :
    (localSet description table inner).Exact v width := by
  refine exact_of_natural hv rfl (fun _ => rfl) fun n hn _ => ?_
  obtain ⟨set, hset, hn⟩ := except_bind_eq_ok.1 hn
  have hv : v = .localSet set := by
    cases v <;> cases hset
    rfl
  exact .ofExcept hset (FieldSet.write_fills hafter (hplain set hv) hn)

theorem universalSet_exact (description : String)
    (hafter : ∀ codecs, inner = some codecs → ∀ (f : Format) tags v width,
      (codecs (f.after tags)).hintedLength v width = (codecs f).hintedLength v width)
    (hv : v.isDecoded)
    (hplain : ∀ set, v = .universalSet set → FieldSet.Plain table set) :
    (universalSet description table inner).Exact v width := by
  refine exact_of_natural hv rfl (fun _ => rfl) fun n hn _ => ?_
  obtain ⟨set, hset, hn⟩ := except_bind_eq_ok.1 hn
  have hv : v = .universalSet set := by
    cases v <;> cases hset
    rfl
  exact .ofExcept hset (FieldSet.write_fills hafter (hplain set hv) hn)

end Sets

end Codec

/-- Formats of texts whose length is given. A text that has another length is refused, but its
codec would write it. -/
def Format.IsFixedText : Format → Prop
  | .plain (.text _ _ c) => c.fixedLength ≠ none
  | _ => False

/-- The set that stands in this place, if one does, has no entry that describes others. -/
def Placed.DescribesNone (registry : Registry) (part : Placed) : Prop :=
  match part.format with
  | .localSet standard _ => ∀ set, part.value = .localSet set →
      FieldSet.Plain (registry.table standard) set
  | .universalSet standard => ∀ set, part.value = .universalSet set →
      FieldSet.Plain (registry.table standard) set
  | _ => True

/-- A codec writes what was interpreted and nothing else. -/
theorem PlainFormat.write_kept (f : PlainFormat) {v : Value} (hv : v.isDecoded = false)
    (m n : Nat) : (f.codec.write v m).Fills n := by
  intro position _ bytes h
  cases v with
  | empty =>
      cases f with
      | position p => cases p <;> cases h
      | _ => cases h
  | blob kept =>
      cases f with
      | position p => cases p <;> cases h
      | _ => cases h
  | _ => cases hv

theorem PlainFormat.exact {f : PlainFormat} {v : Value} (htext : ¬ (Format.plain f).IsFixedText)
    (hv : v.isDecoded) (width : Option Nat) : f.codec.Exact v width := by
  cases f with
  | blob c => exact Codec.exact_of_sized fun n _ _ _ h => nomatch h
  | uint c => exact Codec.uint_exact c
  | sint c => exact Codec.sint_exact c
  | berOid => exact Codec.berOid_exact hv
  | enumeration name c names => exact Codec.uint_exact c
  | bool => exact Codec.bool_exact hv
  | float c => exact Codec.float_exact c
  | imap low high c => exact Codec.imap_exact low high c
  | linear signed low high c => exact Codec.linear_exact signed low high c
  | text encoding characters c => exact Codec.text_exact hv (not_not.1 htext)
  | grid element => exact Codec.grid_exact element hv
  | rowArray a => exact Codec.rowArray_exact a hv
  | correlation preceding => exact Codec.correlation_exact preceding hv
  | position p => exact Codec.position_exact p hv
  | identity => exact Codec.identity_exact hv
  | metricPeriod => exact Codec.metricPeriod_exact hv
  | windowCorners => exact Codec.windowCorners_exact hv
  | metricImplementer => exact Codec.metricImplementer_exact hv
  | rangeEnumerations => exact Codec.rangeEnumerations_exact hv
  | rangeSection => exact Codec.rangeSection_exact hv
  | userData => exact Codec.userData_exact hv
  | detectorIndex => exact Codec.detectorIndex_exact hv

namespace Format

variable {registry : Registry}

theorem write_kept (inner : Option (Format → Codec)) (f : Format) {v : Value}
    (hv : v.isDecoded = false) (m n : Nat) : ((layer registry inner f).write v m).Fills n := by
  cases f with
  | plain p => exact p.write_kept hv m n
  | _ =>
      intro position _ bytes h
      cases inner <;> cases v <;> first | cases h | cases hv

/-- A format is exact at every level, as far as its sets describe nothing. What is further in
need not be exact for this, since it is checked where it is written. -/
theorem codec_exact {f : Format} {v : Value} {width : Option Nat} (levels : Nat)
    (hset : Placed.DescribesNone registry ⟨f, v, width⟩) (htext : ¬ f.IsFixedText) :
    (f.codec registry levels).Exact v width := by
  have hlayer : f.codec registry levels = layer registry (inward registry levels) f := by
    cases levels <;> rfl
  have hafter : ∀ codecs, inward registry levels = some codecs →
      ∀ (f : Format) tags v width,
        (codecs (f.after tags)).hintedLength v width = (codecs f).hintedLength v width := by
    intro codecs hcodecs
    cases levels with
    | zero => cases hcodecs
    | succ levels => exact Option.some.inj hcodecs ▸ (codec_carries registry levels).length
  rw [hlayer]
  cases hv : v.isDecoded with
  | false => exact fun n _ => write_kept _ f hv n n
  | true =>
      cases f with
      | plain p => exact p.exact htext hv width
      | series element => exact Codec.series_exact _ _ hv
      | localSet standard trailer => exact Codec.localSet_exact _ hafter hv hset
      | universalSet standard => exact Codec.universalSet_exact _ hafter hv hset
      | idPack pack => exact Codec.idPack_exact _ _ _ hv

/-- Only a correlation pack looks at what is before it, and it is one before and after. -/
theorem describesNone_after {f : Format} {v : Value} {width : Option Nat}
    (h : Placed.DescribesNone registry ⟨f, v, width⟩) (tags : List Tag) :
    Placed.DescribesNone registry ⟨f.after tags, v, width⟩ := by
  cases f with
  | plain p => cases p <;> trivial
  | _ => exact h

theorem isFixedText_after {f : Format} {tags : List Tag} :
    (f.after tags).IsFixedText ↔ f.IsFixedText := by
  cases f with
  | plain p => cases p <;> rfl
  | _ => rfl

/-- A value whose sets describe no entries is written in the length it is measured to have, and
so is every value inside it: whatever the number of levels left and the tags before it, its
codec adds as many bytes as were worked out, and the check that compares the two changes
nothing. Where no width is remembered, as at the top, the length worked out is that of
`fieldLength`. The exception are texts of a fixed length. -/
theorem written_as_measured {f : Format} {v : Value} {width : Option Nat}
    (hsets : ∀ part, Inside registry ⟨f, v, width⟩ part → part.DescribesNone registry) :
    ∀ part, Inside registry ⟨f, v, width⟩ part → ¬ part.format.IsFixedText →
      ∀ levels tags n,
        ((part.format.after tags).codec registry levels).hintedLength part.value part.width =
          .ok n →
        (∀ position bytes,
          ((part.format.after tags).codec registry levels).write part.value n position =
            .ok ((), bytes) → bytes.length = n) ∧
        ∀ position, ((part.format.after tags).codec registry levels).writeField part.value n
            position =
          ((part.format.after tags).codec registry levels).writeContent part.value n position := by
  intro part hpart htext levels tags n hn
  have hexact := codec_exact levels (describesNone_after (hsets part hpart) tags)
    (isFixedText_after.not.2 htext)
  refine ⟨fun position bytes h => hexact n hn position () bytes h, fun position => ?_⟩
  rw [Codec.writeField_of_fills (Codec.writeContent_fills hexact hn)]

/-- A target with a number of two bytes, and a set about it. -/
def distantTarget : Value :=
  .record [("id", .uint 300), ("set", .localSet [⟨1, .uint 5, none⟩])]

/-- A version that came in two bytes, and one target. -/
def oneTarget : FieldSet Tag :=
  [⟨4, .uint 19, some 2⟩, ⟨101, .series [distantTarget], none⟩]

/-- The set with the target takes twelve bytes. -/
theorem oneTarget_as_measured :
    (∀ part,
      Inside Registry.published ⟨.localSet .movingTarget none, .localSet oneTarget, none⟩ part →
        part.DescribesNone Registry.published) ∧
    (((localSet .movingTarget none).codec Registry.published 4).fieldLength
        (.localSet oneTarget) = .ok 12 ∧
    ∀ position,
      ((localSet .movingTarget none).codec Registry.published 4).writeField
          (.localSet oneTarget) 12 position =
        ((localSet .movingTarget none).codec Registry.published 4).writeContent
          (.localSet oneTarget) 12 position) := by
  have hsets : ∀ part,
      Inside Registry.published ⟨.localSet .movingTarget none, .localSet oneTarget, none⟩ part →
        part.DescribesNone Registry.published := by
    have htarget : ∀ part, Inside Registry.published
        ⟨.idPack .target, distantTarget, none⟩ part → part.DescribesNone Registry.published := by
      intro part hpart
      cases hpart with
      | here => trivial
      | content hcontent hinner =>
          injection hcontent with hcontent
          subst hcontent
          cases hinner with
          | here =>
              intro set hset
              injection hset with hset
              exact hset ▸ List.forall_mem_singleton.2 rfl
          | localEntry he hentry =>
              rw [List.mem_singleton.1 he] at hentry
              rw [hentry.eq_of_plain]
              trivial
    have hentries : ∀ e ∈ oneTarget, ∀ part, Inside Registry.published
        ⟨(Table.movingTarget.byTag e.key).format, e.value, e.width⟩ part →
          part.DescribesNone Registry.published := by
      refine List.forall_mem_cons.2 ⟨fun part hpart => ?_,
        List.forall_mem_singleton.2 fun part hpart => ?_⟩
      · rw [hpart.eq_of_plain]
        trivial
      · cases hpart with
        | here => trivial
        | item hitem hinner =>
            rw [List.mem_singleton.1 hitem] at hinner
            exact htarget part hinner
    intro part hpart
    cases hpart with
    | here =>
        intro set hset
        injection hset with hset
        exact hset ▸ List.forall_mem_cons.2 ⟨rfl, List.forall_mem_singleton.2 rfl⟩
    | localEntry he hentry => exact hentries _ he part hentry
  have hlength :
      ((localSet .movingTarget none).codec Registry.published 4).fieldLength
        (.localSet oneTarget) = .ok 12 :=
    rfl
  exact ⟨hsets, hlength, (written_as_measured hsets _ (.here _) id 4 [] 12 hlength).2⟩

end Format

end MotionMetadata
