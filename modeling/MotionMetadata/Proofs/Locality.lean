import MotionMetadata.Format.Codec
import MotionMetadata.Proofs.Ber

/-!
# Fields mean the same wherever they stand

No codec looks at its position except to report it, to measure what it has read, or to know
where its own field ends. So each of them is local, by one step after another, and the codecs
of formats are so by induction on the levels of nesting.
-/

namespace MotionMetadata

open Reader

variable {shift : Nat}

/-! ## Numbers -/

theorem Integer.readUnsigned_alike (width : Nat) :
    Alike shift (readUnsigned width) (readUnsigned width) := by
  rw [readUnsigned]
  refine .ite ((Alike.take width).bind fun _ => .pure rfl) (.position_bind fun _ => ?_)
  exact AlikeBy.bind (R := Eq) (.raiseAt _ _ _) fun _ _ _ =>
    (Alike.take width).bind fun _ => .pure rfl

theorem Integer.readSigned_alike (width : Nat) :
    Alike shift (readSigned width) (readSigned width) :=
  (readUnsigned_alike width).bind fun _ => .pure rfl

theorem Ber.readLength_alike : Alike shift readLength readLength := by
  rw [readLength]
  refine .restoring (.position_bind fun _ => Alike.byte.bind fun lead => ?_)
  refine .ite (.pure rfl) ?_
  dsimp only
  generalize lead.toNat - 0x80 = count
  exact .require (Integer.readUnsigned_alike count)

theorem Ber.readTag_alike : Alike shift readTag readTag := by
  intro c c' hrest _
  rw [readTag, bind_of_ok (get_apply c), bind_of_ok (get_apply c'), hrest, Cursor.remaining,
    Cursor.remaining, hrest]
  cases hscan : scanTag maxTagWidth 0 c.rest with
  | none => exact .refl_error rfl
  | some found =>
      obtain ⟨value, width⟩ := found
      obtain ⟨front, last, rest, hdata, hwidth, _⟩ := scanTag_eq_some hscan
      refine ⟨rfl, width, ?_, rfl, rfl⟩
      rw [hdata, hwidth, List.length_append, List.length_cons]
      omega

theorem UniversalKey.read_alike : Alike shift read read := by
  rw [read]
  refine .position_bind fun _ => (Alike.take 16).bind fun bytes => ?_
  cases ofBytes? bytes with
  | none => exact .raiseAt _ _ _
  | some key => exact .pure rfl

theorem Floating.read_alike (width : Nat) : Alike shift (read width) (read width) := by
  rw [read]
  refine .position_bind fun _ => ?_
  split
  · exact (Integer.readUnsigned_alike 4).bind fun _ => .pure rfl
  · exact (Integer.readUnsigned_alike 8).bind fun _ => .pure rfl
  · exact .raiseAt _ _ _

theorem Imap.read_alike (low high : Binary64) (width : Nat) :
    Alike shift (read low high width) (read low high width) := by
  rw [read]
  refine .position_bind fun _ => ?_
  cases checkDomain low high width with
  | error f => exact .raiseAt _ _ _
  | ok _ =>
      refine (Integer.readUnsigned_alike width).bind fun raw => ?_
      dsimp only
      cases (if isSpecial width raw.toNat then specialOf width raw.toNat
        else (numberOf low high width raw).map .normal) with
      | error f => exact .raiseAt _ _ _
      | ok value => exact .pure rfl

theorem Linear.readUnsigned_alike (low high : Binary64) (width : Nat) :
    Alike shift (readUnsigned low high width) (readUnsigned low high width) := by
  rw [readUnsigned]
  refine .position_bind fun _ => ?_
  cases checkDomain low high width with
  | error f => exact .raiseAt _ _ _
  | ok _ => exact (Integer.readUnsigned_alike width).bind fun _ => .pure rfl

theorem Linear.readSigned_alike (low high : Binary64) (width : Nat) :
    Alike shift (readSigned low high width) (readSigned low high width) := by
  rw [readSigned]
  refine .position_bind fun _ => ?_
  cases checkDomain low high width with
  | error f => exact .raiseAt _ _ _
  | ok _ =>
      refine (Integer.readSigned_alike width).bind fun raw => ?_
      exact .ite (.pure rfl) (.pure rfl)

/-! ## Arrays -/

theorem GridElement.read_alike (element : GridElement) (width : Nat) :
    Alike shift (element.read width) (element.read width) := by
  cases element with
  | uint => exact (Integer.readUnsigned_alike width).bind fun _ => .pure rfl
  | sint => exact (Integer.readSigned_alike width).bind fun _ => .pure rfl
  | float => exact (Floating.read_alike width).bind fun _ => .pure rfl
  | imap low high => exact (Imap.read_alike low high width).bind fun _ => .pure rfl
  | bool =>
      rw [read]
      exact .ite (Alike.bool.bind fun _ => .pure rfl) (.position_bind fun _ => .raiseAt _ _ _)

namespace Grid

theorem readSize_alike : Alike shift readSize readSize := by
  rw [readSize]
  refine .position_bind fun _ => Ber.readTag_alike.bind fun size => ?_
  dsimp only
  exact .refuse (.pure rfl)

/-- Headers that only differ in where the byte of the processing stands. -/
def Header.Shifted (shift : Nat) (h h' : Header) : Prop :=
  h' = { h with offset := h.offset + shift }

theorem readHeader_alike (element : GridElement) :
    AlikeBy (Header.Shifted shift) shift (readHeader element) (readHeader element) := by
  rw [readHeader]
  refine .position_bind fun _ => Ber.readTag_alike.bind fun dimensions => ?_
  dsimp only
  refine .refuse (Alike.bind (Alike.times readSize_alike _) fun sizes => ?_)
  refine .require (Alike.bind Ber.readTag_alike fun elementSize => ?_)
  refine .position_bind fun offset => Alike.byte.bind fun b => ?_
  cases Processing.ofCode? b.toUInt64 with
  | none => exact .raiseAt _ _ _
  | some processing => exact .require (.pure rfl)

theorem readDifference_alike (bias : UInt64) :
    Alike shift (readDifference bias) (readDifference bias) := by
  rw [readDifference]
  exact .position_bind fun _ => Ber.readTag_alike.bind fun _ => .require (.pure rfl)

theorem readBox_alike (element : GridElement) (sizes : List Nat) (elementSize : Nat) :
    Alike shift (readBox element sizes elementSize) (readBox element sizes elementSize) := by
  rw [readBox]
  refine .position_bind fun _ => (element.read_alike elementSize).bind fun value => ?_
  refine (Ber.readTag_alike.times sizes.length).bind fun start => ?_
  refine (Ber.readTag_alike.times sizes.length).bind fun extent => ?_
  dsimp only
  exact .require (.pure rfl)

/-- Boxes are read up to where the field ends, which is `shift` bytes further on too. -/
theorem readBoxes_alike {readOne : Reader Box} (hone : Alike shift readOne readOne)
    (stop fuel : Nat) :
    Alike shift (readBoxes readOne stop fuel) (readBoxes readOne (stop + shift) fuel) := by
  induction fuel with
  | zero => exact .pure rfl
  | succ fuel ih =>
      rw [readBoxes, readBoxes]
      refine .position_bind fun p => ?_
      simp only [Nat.add_lt_add_iff_right]
      exact .ite (hone.bind fun _ => ih.bind fun _ => .pure rfl) (.pure rfl)

theorem read_alike (element : GridElement) (length : Nat) :
    Alike shift (read element length) (read element length) := by
  rw [read]
  refine .position_bind fun start => (readHeader_alike element).bind fun header header' hh => ?_
  rw [Header.Shifted] at hh
  subst hh
  refine .position_bind fun stop => ?_
  dsimp only
  rw [Nat.add_sub_add_right, Nat.add_right_comm start shift length]
  refine .require ?_
  rw [readElements, readElements]
  cases header.processing with
  | natural =>
      exact .require (Alike.bind ((element.read_alike _).times _) fun _ => .pure rfl)
  | scaled =>
      refine .require (Alike.bind (Floating.read_alike _) fun low => ?_)
      refine (Floating.read_alike _).bind fun high => ?_
      exact ((Imap.read_alike low high _).times _).bind fun _ => .pure rfl
  | boolean => exact (Alike.take _).bind fun _ => .pure rfl
  | biased =>
      refine Ber.readTag_alike.bind fun bias => ?_
      exact ((readDifference_alike bias).times _).bind fun _ => .pure rfl
  | runs =>
      refine (element.read_alike _).bind fun common => Alike.remaining.bind fun left => ?_
      exact (readBoxes_alike (readBox_alike element _ _) _ _).bind fun _ => .pure rfl

end Grid

theorem RowArray.read_alike (a : RowArray) (length : Nat) :
    Alike shift (a.read length) (a.read length) := by
  rw [read]
  refine (Grid.read_alike _ _).bind fun g => ?_
  cases a.mapRows (scaledElement g.elementSize) g with
  | error e => exact .throw rfl
  | ok scaled => exact .pure rfl

/-! ## Packs -/

namespace Correlation

/-- Which coefficients are there. -/
def readPresence (c : Correlation) : Reader (List Bool) :=
  if c.sparse then
    return (Grid.bitsOfBytes (← Reader.take (ceilDiv c.coefficientCount 8))).take
      c.coefficientCount
  else return List.replicate c.coefficientCount true

def readSigma (c : Correlation) (n : Nat) : Reader (List Value) :=
  if 0 < c.sigmaLength then Reader.times n (Value.float <$> Floating.read c.sigmaLength)
  else return []

def readRho (c : Correlation) (present : List Bool) : Reader (List Value) :=
  if 0 < c.rhoLength then readCoefficients (readCoefficient c.rhoScaled c.rhoLength) present
  else return []

/-- Reads the deviations and coefficients that the parse control announces. -/
def readValues (c : Correlation) (n : Nat) : Reader Correlation := do
  let present ← c.readPresence
  let sigma ← c.readSigma n
  let rho ← c.readRho present
  return { c with sigma, rho }

/-- Reading a pack, its parts by name. -/
theorem read_eq (preceding : List Tag) :
    read preceding = (do
      let start ← Reader.position
      let n ← Ber.readTag
      unless n.toNat ≤ preceding.length do
        raiseAt start (.describesTooMany preceding.length)
      let start ← Reader.position
      let control ← Ber.readTag
      let stop ← Reader.position
      unless stop - start = 1 ∨ stop - start = 2 do
        raiseAt start (.parseControlWidth (stop - start))
      let c := ofControl (preceding.drop (preceding.length - n.toNat)) (stop - start == 2)
        control.toNat
      if 0 < c.sigmaLength ∧ c.sigmaScaled then
        raiseAt start .scaledDeviations
      readValues c n.toNat) := by
  have hvalues : ∀ (c : Correlation) (n : Nat), readValues c n = (do
      let present ←
        if c.sparse then
          pure ((Grid.bitsOfBytes (← Reader.take (ceilDiv c.coefficientCount 8))).take
            c.coefficientCount)
        else pure (List.replicate c.coefficientCount true)
      let sigma ←
        if 0 < c.sigmaLength then Reader.times n (Value.float <$> Floating.read c.sigmaLength)
        else pure []
      let rho ←
        if 0 < c.rhoLength then
          readCoefficients (readCoefficient c.rhoScaled c.rhoLength) present
        else pure []
      return { c with sigma, rho }) := by
    intro c n
    rw [readValues, readPresence]
    simp only [readSigma, readRho]
    split
    · rw [bind_assoc]
      split <;> split <;> rfl
    · split <;> split <;> rfl
  rw [read]
  simp only [hvalues]

theorem readCoefficient_alike (scaled : Bool) (width : Nat) :
    Alike shift (readCoefficient scaled width) (readCoefficient scaled width) := by
  rw [readCoefficient]
  exact .ite ((Imap.read_alike _ _ _).bind fun _ => .pure rfl)
    ((Floating.read_alike _).bind fun _ => .pure rfl)

theorem readCoefficients_alike {one : Reader Value} (hone : Alike shift one one)
    (present : List Bool) :
    Alike shift (readCoefficients one present) (readCoefficients one present) := by
  induction present with
  | nil => exact .pure rfl
  | cons b rest ih =>
      rw [readCoefficients]
      refine .ite (hone.bind fun _ => ih.bind fun _ => .pure rfl) ?_
      exact ih.bind fun _ => .pure rfl

theorem readValues_alike (c : Correlation) (n : Nat) :
    Alike shift (readValues c n) (readValues c n) := by
  rw [readValues]
  have hpresence : Alike shift c.readPresence c.readPresence :=
    .ite ((Alike.take _).bind fun _ => .pure rfl) (.pure rfl)
  have hsigma : Alike shift (c.readSigma n) (c.readSigma n) :=
    .ite (((Floating.read_alike _).map _).times n) (.pure rfl)
  have hrho : ∀ present, Alike shift (c.readRho present) (c.readRho present) := fun present =>
    .ite (readCoefficients_alike (readCoefficient_alike _ _) present) (.pure rfl)
  exact hpresence.bind fun present => hsigma.bind fun _ => (hrho present).bind fun _ => .pure rfl

theorem read_alike (preceding : List Tag) :
    Alike shift (read preceding) (read preceding) := by
  rw [read_eq]
  refine .position_bind fun _ => Ber.readTag_alike.bind fun n => ?_
  dsimp only
  refine .require (.position_bind fun start => Alike.bind Ber.readTag_alike fun control => ?_)
  refine .position_bind fun stop => ?_
  rw [Nat.add_sub_add_right]
  exact .require (.refuse (readValues_alike _ _))

end Correlation

theorem ScaledField.readAll_alike (fields : List ScaledField) :
    Alike shift (readAll fields) (readAll fields) := by
  induction fields with
  | nil => exact .pure rfl
  | cons f rest ih =>
      have hone : Alike shift f.read f.read :=
        (Imap.read_alike _ _ _).bind fun _ => .pure rfl
      exact hone.bind fun _ => ih.bind fun _ => .pure rfl

theorem Position.read_alike (p : Position) : Alike shift p.read p.read := by
  have htriple : ∀ fields, Alike shift (readTriple fields) (readTriple fields) := fun fields =>
    Alike.remaining.bind fun _ =>
      .ite ((ScaledField.readAll_alike fields).bind fun _ => .pure rfl) (.pure rfl)
  exact (ScaledField.readAll_alike p.head).bind fun _ =>
    (htriple sigma).bind fun _ => (htriple rho).bind fun _ => .pure rfl

theorem Identity.readIds_alike (fields : List (String × Bool)) :
    Alike shift (readIds fields) (readIds fields) := by
  induction fields with
  | nil => exact .pure rfl
  | cons f rest ih =>
      obtain ⟨name, present⟩ := f
      rw [readIds]
      refine .ite (((Alike.take _).map _).bind fun _ => ih.bind fun _ => .pure rfl) ?_
      exact ih.bind fun _ => .pure rfl

theorem Identity.read_alike : Alike shift read read :=
  Alike.byte.bind fun _ => Alike.byte.bind fun _ =>
    (readIds_alike _).bind fun _ => .pure rfl

theorem MetricPeriod.read_alike : Alike shift read read :=
  (Integer.readUnsigned_alike _).bind fun _ =>
    (Integer.readUnsigned_alike _).bind fun _ => .pure rfl

theorem WindowCorners.readCorners_alike (names : List String) :
    Alike shift (readCorners names) (readCorners names) := by
  induction names with
  | nil => exact .pure rfl
  | cons name rest ih =>
      have hone : Alike shift (readCorner name) (readCorner name) := by
        rw [readCorner]
        refine .position_bind fun _ => Ber.readTag_alike.bind fun v => ?_
        dsimp only
        exact .refuse (.pure rfl)
      exact hone.bind fun _ => ih.bind fun _ => .pure rfl

theorem MetricImplementer.read_alike (length : Nat) :
    Alike shift (read length) (read length) := by
  rw [read]
  refine .position_bind fun _ => (Alike.take length).bind fun bytes => ?_
  cases Text.Utf8.decode bytes with
  | error f => exact .raiseAt _ _ _
  | ok text => exact .pure rfl

theorem UserData.read_alike : Alike shift read read :=
  Alike.byte.bind fun _ => .pure rfl

theorem DetectorIndex.read_alike : Alike shift read read :=
  Alike.byte.bind fun _ => Alike.byte.bind fun _ => .pure rfl

theorem RangeEnumerations.read_alike : Alike shift read read :=
  Ber.readTag_alike.bind fun _ => .pure rfl

theorem RangeSection.readPart_alike {codec : Codec}
    (hcodec : ∀ n, Alike shift (codec.read n) (codec.read n)) :
    Alike shift (readPart codec) (readPart codec) := by
  rw [readPart]
  refine .position_bind fun _ => Ber.readLength_alike.bind fun length => ?_
  refine Alike.remaining.bind fun left => ?_
  dsimp only
  refine .require (.ite (.pure rfl) (.enter_bind _ fun d d' hrest hpos _ _ _ => ?_))
  have h := hcodec length.toNat d d' hrest hpos
  match codec.read length.toNat d, codec.read length.toNat d', h with
  | .error e _, .error e' _, ⟨he, _⟩ => exact .throw he
  | .ok v after, .ok v' after', ⟨hv, n, _, hd, hd'⟩ =>
      have hafter : after'.rest = after.rest := by
        rw [hd, hd', Cursor.rest_advance, Cursor.rest_advance, hrest]
      dsimp only
      rw [Cursor.isEmpty, Cursor.isEmpty, Cursor.remaining, Cursor.remaining, hafter, hv]
      exact .require (.pure rfl)

theorem RangeSection.readPartIfAny_alike {codec : Codec}
    (hcodec : ∀ n, Alike shift (codec.read n) (codec.read n)) :
    Alike shift (readPartIfAny codec) (readPartIfAny codec) := by
  have h : Alike shift (do if ← Reader.atEnd then return .empty else readPart codec)
      (do if ← Reader.atEnd then return .empty else readPart codec) :=
    Alike.atEnd.bind fun _ => .ite (.pure rfl) (readPart_alike hcodec)
  exact h

theorem RangeSection.readCoefficients_alike (names : List String) :
    Alike shift (readCoefficients names) (readCoefficients names) := by
  induction names with
  | nil => exact .pure rfl
  | cons name rest ih =>
      have hone : Alike shift (readPartIfAny coefficient) (readPartIfAny coefficient) :=
        readPartIfAny_alike fun n => (Floating.read_alike n).bind fun _ => .pure rfl
      exact hone.bind fun _ => ih.bind fun _ => .pure rfl

theorem RangeSection.read_alike : Alike shift read read := by
  have hindex : Alike shift (readPart index) (readPart index) :=
    readPart_alike fun _ => Ber.readTag_alike.bind fun _ => .pure rfl
  have harray : ∀ n, Alike shift (array.read n) (array.read n) := fun n =>
    (Grid.read_alike _ n).bind fun _ => .pure rfl
  exact hindex.bind fun _ => hindex.bind fun _ => (readPart_alike harray).bind fun _ =>
    (readPartIfAny_alike harray).bind fun _ => (readCoefficients_alike _).bind fun _ => .pure rfl

/-! ## Fields and what they are in -/

theorem descend_bind_alike {β γ : Type} {R : β → β → Prop} {inner : Option γ}
    {k k' : γ → Reader β}
    (hk : ∀ a, inner = some a → AlikeBy R shift (k a) (k' a)) :
    AlikeBy R shift (descend inner >>= k) (descend inner >>= k') := by
  cases inner with
  | none => exact fun _ _ _ _ => .refl_error rfl
  | some a => exact hk a rfl

theorem Codec.readField_alike {codec : Codec} {length : Nat}
    (hcodec : Alike shift (codec.read length) (codec.read length)) :
    Alike shift (codec.readField length) (codec.readField length) := by
  rw [readField]
  refine .ite (.pure rfl) (.enter_bind _ fun d d' hrest hpos hconsumed hconsumed' _ => ?_)
  refine .ite ?_ (by rw [hrest]; exact .pure rfl)
  have h := hcodec d d' hrest hpos
  rw [hrest]
  match codec.read length d, codec.read length d', h with
  | .error e _, .error e' _, ⟨he, _⟩ =>
      rw [settle, settle, Error.kind, Error.kind, he]
      by_cases hdepth : e'.fault.kind = .depth
      · rw [if_pos hdepth, if_pos hdepth]
        exact .throw he
      · rw [if_neg hdepth, if_neg hdepth]
        exact .pure rfl
  | .ok v after, .ok v' after', ⟨hv, n, _, hafter, hafter'⟩ =>
      rw [settle, settle, hv, hafter, hafter', Cursor.consumed_advance, Cursor.consumed_advance,
        hconsumed, hconsumed']
      exact .pure rfl

theorem PlainFormat.read_alike (f : PlainFormat) (length : Nat) :
    Alike shift (f.codec.read length) (f.codec.read length) := by
  cases f with
  | blob c => exact (Alike.take length).bind fun _ => .pure rfl
  | uint c => exact (Integer.readUnsigned_alike length).bind fun _ => .pure rfl
  | sint c => exact (Integer.readSigned_alike length).bind fun _ => .pure rfl
  | berOid => exact Ber.readTag_alike.bind fun _ => .pure rfl
  | enumeration name c names =>
      exact (Integer.readUnsigned_alike length).bind fun _ => .pure rfl
  | bool => exact Alike.bool.bind fun _ => .pure rfl
  | float c => exact (Floating.read_alike length).bind fun _ => .pure rfl
  | imap low high c => exact (Imap.read_alike low high length).bind fun _ => .pure rfl
  | linear signed low high c =>
      exact .ite ((Linear.readSigned_alike low high length).bind fun _ => .pure rfl)
        ((Linear.readUnsigned_alike low high length).bind fun _ => .pure rfl)
  | text encoding characters c =>
      refine .position_bind fun _ => (Alike.take length).bind fun bytes => ?_
      refine .ite (.pure rfl) ?_
      cases encoding.decode bytes with
      | error e => exact .throw rfl
      | ok text => exact .pure rfl
  | grid element => exact (Grid.read_alike element length).bind fun _ => .pure rfl
  | rowArray a => exact a.read_alike length
  | correlation preceding => exact (Correlation.read_alike preceding).bind fun _ => .pure rfl
  | position p => exact p.read_alike
  | identity => exact Identity.read_alike
  | metricPeriod => exact MetricPeriod.read_alike
  | windowCorners => exact (WindowCorners.readCorners_alike _).bind fun _ => .pure rfl
  | metricImplementer => exact MetricImplementer.read_alike length
  | rangeEnumerations => exact RangeEnumerations.read_alike
  | rangeSection => exact RangeSection.read_alike
  | userData => exact UserData.read_alike
  | detectorIndex => exact DetectorIndex.read_alike

theorem Series.readItems_alike {element : Codec}
    (helement : ∀ n, Alike shift (element.read n) (element.read n)) (fuel : Nat) :
    Alike shift (readItems element fuel) (readItems element fuel) := by
  have hitem : Alike shift (readItem element) (readItem element) := by
    rw [readItem]
    refine .position_bind fun _ => Ber.readLength_alike.bind fun length => ?_
    refine Alike.remaining.bind fun left => ?_
    exact .require (Codec.readField_alike (helement _))
  induction fuel with
  | zero => exact .pure rfl
  | succ fuel ih =>
      rw [readItems]
      exact Alike.atEnd.bind fun _ =>
        .ite (.pure rfl) (hitem.bind fun _ => ih.bind fun _ => .pure rfl)

namespace FieldSet

variable {κ : Type} [SetKey κ]

/-- The keys of a set mean the same wherever they stand. -/
class LocalKey (κ : Type) [SetKey κ] : Prop where
  read_alike : ∀ shift, Alike shift (SetKey.read (κ := κ)) SetKey.read

instance : LocalKey Tag := ⟨fun _ => Ber.readTag_alike⟩

instance : LocalKey UniversalKey := ⟨fun _ => UniversalKey.read_alike⟩

variable [LocalKey κ] {table : Table} {inner : Format → Codec}

theorem readEntry_alike (hinner : ∀ f n, Alike shift ((inner f).read n) ((inner f).read n))
    (earlier : List Tag) :
    Alike shift (readEntry (κ := κ) table inner earlier) (readEntry table inner earlier) := by
  rw [readEntry]
  refine (AlikeBy.within (LocalKey.read_alike shift)).bind fun _ key hkey => ?_
  subst hkey
  refine .position_bind fun _ => ?_
  refine (AlikeBy.within Ber.readLength_alike).bind fun _ length hlength => ?_
  subst hlength
  refine Alike.remaining.bind fun left => ?_
  dsimp only
  refine .require ?_
  refine (AlikeBy.within (Codec.readField_alike (hinner _ _))).bind fun _ value hvalue => ?_
  subst hvalue
  exact .pure rfl

theorem read_alike {inner : Option (Format → Codec)}
    (hinner : ∀ codecs, inner = some codecs →
      ∀ f n, Alike shift ((codecs f).read n) ((codecs f).read n)) (length : Nat) :
    Alike shift (read (κ := κ) table inner length) (read table inner length) := by
  refine descend_bind_alike fun codecs hcodecs => ?_
  have hentries : ∀ fuel earlier, Alike shift (readEntries (κ := κ) table codecs fuel earlier)
      (readEntries table codecs fuel earlier) := by
    intro fuel
    induction fuel with
    | zero => exact fun _ => .pure rfl
    | succ fuel ih =>
        intro earlier
        rw [readEntries]
        refine Alike.atEnd.bind fun _ => .ite (.pure rfl) ?_
        exact (readEntry_alike (hinner codecs hcodecs) earlier).bind fun _ =>
          (ih _).bind fun _ => .pure rfl
  exact .inField (hentries length []) length

end FieldSet

/-! ## Formats -/

/-- A layer of codecs is local if the layer inside is. -/
theorem Format.layer_alike {registry : Registry} (inner : Option (Format → Codec))
    (hinner : ∀ codecs, inner = some codecs →
      ∀ f n, Alike shift ((codecs f).read n) ((codecs f).read n)) (f : Format) (n : Nat) :
    Alike shift ((layer registry inner f).read n) ((layer registry inner f).read n) := by
  cases f with
  | plain p => exact p.read_alike n
  | series element =>
      refine descend_bind_alike fun codec hcodec => ?_
      obtain ⟨codecs, hcodecs, rfl⟩ := Option.map_eq_some_iff.1 hcodec
      have hitems := Series.readItems_alike (hinner codecs hcodecs element) n
      exact (AlikeBy.inField hitems n).bind fun _ _ h => h ▸ .pure rfl
  | localSet standard trailer =>
      exact (FieldSet.read_alike hinner n).bind fun _ => .pure rfl
  | universalSet standard =>
      exact (FieldSet.read_alike hinner n).bind fun _ => .pure rfl
  | idPack pack =>
      refine descend_bind_alike fun codec hcodec => ?_
      obtain ⟨codecs, hcodecs, rfl⟩ := Option.map_eq_some_iff.1 hcodec
      refine Ber.readTag_alike.bind fun id => Alike.remaining.bind fun left => ?_
      exact (Codec.readField_alike (hinner codecs hcodecs _ _)).bind fun _ => .pure rfl

/-- What passes from the codecs inside to a layer around them holds at every level. -/
theorem Format.codec_of_layer {registry : Registry} {P : (Format → Codec) → Prop}
    (h : ∀ inner, (∀ codecs, inner = some codecs → P codecs) → P (layer registry inner))
    (levels : Nat) : P (codec registry levels) := by
  induction levels with
  | zero => exact h none nofun
  | succ levels ih => exact h _ fun _ hcodecs => Option.some.inj hcodecs ▸ ih

theorem Format.codec_alike (registry : Registry) (levels : Nat) (f : Format) (n : Nat) :
    Alike shift ((f.codec registry levels).read n) ((f.codec registry levels).read n) :=
  codec_of_layer (P := fun codecs => ∀ f n, Alike shift ((codecs f).read n) ((codecs f).read n))
    layer_alike levels f n

end MotionMetadata
