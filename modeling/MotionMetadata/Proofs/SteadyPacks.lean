import MotionMetadata.Proofs.SteadyNumbers

/-!
# Arrays and packs are steady

Every format that has no other formats inside writes the same wherever it stands, and neither
reading nor writing refuses anything for its depth. Nothing has to be known of the bytes or the
value for this, so the packs are followed step by step, and each step is one of the few that
there are.
-/

namespace MotionMetadata

open Encoder Value

variable {deep : Prop}

/-! ## Reading arrays -/

theorem GridElement.read_shallow (element : GridElement) (width : Nat) :
    (element.read width).Shallow deep := by
  cases element with
  | uint => exact .bind (Integer.readUnsigned_shallow width) fun _ => .pure _
  | sint => exact .bind (Integer.readSigned_shallow width) fun _ => .pure _
  | float => exact .bind (Floating.read_shallow width) fun _ => .pure _
  | imap low high => exact .bind (Imap.read_shallow low high width) fun _ => .pure _
  | bool =>
      rw [read]
      exact .ite (fun _ => .bind .bool fun _ => .pure _)
        fun _ => .bind .position fun _ => .raiseAt rfl

namespace Grid

theorem readSize_shallow : readSize.Shallow deep := by
  rw [readSize]
  exact .bind .position fun _ => .bind Ber.readTag_shallow fun _ => .refuse rfl (.pure _)

theorem readHeader_shallow (element : GridElement) : (readHeader element).Shallow deep := by
  rw [readHeader]
  refine .bind .position fun _ => .bind Ber.readTag_shallow fun dimensions => ?_
  dsimp only
  refine .refuse rfl (.bind (readSize_shallow.times _) fun sizes => ?_)
  refine .require rfl (.bind Ber.readTag_shallow fun elementSize => ?_)
  refine .bind .position fun _ => .bind .byte fun b => ?_
  cases Processing.ofCode? b.toUInt64 with
  | none => exact .raiseAt rfl
  | some processing => exact .require rfl (.pure _)

theorem readBox_shallow (element : GridElement) (sizes : List Nat) (elementSize : Nat) :
    (readBox element sizes elementSize).Shallow deep := by
  rw [readBox]
  refine .bind .position fun _ => .bind (element.read_shallow elementSize) fun value => ?_
  refine .bind (Ber.readTag_shallow.times _) fun start => ?_
  exact .bind (Ber.readTag_shallow.times _) fun extent => .require rfl (.pure _)

theorem readBoxes_shallow {readOne : Reader Box} (hone : readOne.Shallow deep)
    (stop fuel : Nat) : (readBoxes readOne stop fuel).Shallow deep := by
  induction fuel with
  | zero => exact .pure _
  | succ fuel ih =>
      rw [readBoxes]
      refine .bind .position fun _ => .ite (fun _ => ?_) fun _ => .pure _
      exact .bind hone fun _ => .bind ih fun _ => .pure _

theorem read_shallow (element : GridElement) (length : Nat) :
    (read element length).Shallow deep := by
  rw [read]
  refine .bind .position fun start => .bind (readHeader_shallow element) fun header => ?_
  refine .bind .position fun stop => ?_
  dsimp only
  refine .require rfl ?_
  rw [readElements]
  cases header.processing with
  | natural =>
      exact .require rfl (.bind ((element.read_shallow _).times _) fun _ => .pure _)
  | scaled =>
      refine .require rfl (.bind (Floating.read_shallow _) fun low => ?_)
      refine .bind (Floating.read_shallow _) fun high => ?_
      exact .bind ((Imap.read_shallow low high _).times _) fun _ => .pure _
  | boolean => exact .bind (.take _) fun _ => .pure _
  | biased =>
      refine .bind Ber.readTag_shallow fun bias => .bind (.times ?_ _) fun _ => .pure _
      exact .bind .position fun _ => .bind Ber.readTag_shallow fun _ => .require rfl (.pure _)
  | runs =>
      refine .bind (element.read_shallow _) fun common => .bind .remaining fun left => ?_
      exact .bind (readBoxes_shallow (readBox_shallow element _ _) _ _) fun _ => .pure _

end Grid

namespace RowArray

theorem mapRows_shallow {convert : Value → Binary64 × Binary64 → Except Error Value}
    (h : ∀ e domain, MotionMetadata.Shallow deep (convert e domain)) (a : RowArray) (g : Grid) :
    MotionMetadata.Shallow deep (a.mapRows convert g) := by
  refine .bind ?_ fun columns => .bind (.mapM fun e _ => h _ _) fun elements => .ok _
  rw [checkShape.eq_def]
  split
  · exact .ite (fun _ => .ite (fun _ => .ok _) fun _ => .raise rfl) fun _ => .raise rfl
  · exact .raise rfl

theorem scaledElement_shallow (width : Nat) (element : Value) (domain : Binary64 × Binary64) :
    MotionMetadata.Shallow deep (scaledElement width element domain) := by
  refine .bind element.requireUint_shallow fun v => ?_
  refine .bind (Integer.writeUnsigned_steady v width).bytes fun bytes => ?_
  exact .bind ((Imap.read_shallow _ _ _).onBytes bytes) fun _ => .ok _

theorem read_shallow (a : RowArray) (length : Nat) : (a.read length).Shallow deep := by
  rw [read]
  refine .bind (Grid.read_shallow _ _) fun g => ?_
  have hrows : MotionMetadata.Shallow deep (a.mapRows (scaledElement g.elementSize) g) :=
    a.mapRows_shallow (scaledElement_shallow g.elementSize) g
  cases hscaled : a.mapRows (scaledElement g.elementSize) g with
  | error e => exact .throw (hrows e hscaled)
  | ok scaled => exact .pure _

end RowArray

/-! ## Reading packs -/

namespace Correlation

theorem readCoefficients_shallow {one : Reader Value} (hone : one.Shallow deep)
    (present : List Bool) : (readCoefficients one present).Shallow deep := by
  induction present with
  | nil => exact .pure _
  | cons b rest ih =>
      rw [readCoefficients]
      exact .ite (fun _ => .bind hone fun _ => .bind ih fun _ => .pure _)
        fun _ => .bind (.pure _) fun _ => .bind ih fun _ => .pure _

theorem readValues_shallow (c : Correlation) (n : Nat) : (c.readValues n).Shallow deep := by
  rw [readValues]
  have hone : (readCoefficient c.rhoScaled c.rhoLength).Shallow deep :=
    .ite (fun _ => .bind (Imap.read_shallow _ _ _) fun _ => .pure _)
      fun _ => .bind (Floating.read_shallow _) fun _ => .pure _
  have hpresence : c.readPresence.Shallow deep :=
    .ite (fun _ => .bind (.take _) fun _ => .pure _) fun _ => .pure _
  have hsigma : (c.readSigma n).Shallow deep :=
    .ite (fun _ => ((Floating.read_shallow _).map _).times n) fun _ => .pure _
  have hrho : ∀ present, (c.readRho present).Shallow deep := fun present =>
    .ite (fun _ => readCoefficients_shallow hone present) fun _ => .pure _
  exact .bind hpresence fun present => .bind hsigma fun _ => .bind (hrho present) fun _ => .pure _

theorem read_shallow (preceding : List Tag) : (read preceding).Shallow deep := by
  rw [read_eq]
  refine .bind .position fun _ => .bind Ber.readTag_shallow fun n => ?_
  refine .require rfl (.bind .position fun start => .bind Ber.readTag_shallow fun control => ?_)
  refine .bind .position fun stop => ?_
  exact .require rfl (.refuse rfl (readValues_shallow _ _))

end Correlation

theorem ScaledField.readAll_shallow (fields : List ScaledField) :
    (readAll fields).Shallow deep := by
  induction fields with
  | nil => exact .pure _
  | cons f rest ih =>
      have hone : f.read.Shallow deep := .bind (Imap.read_shallow _ _ _) fun _ => .pure _
      exact .bind hone fun _ => .bind ih fun _ => .pure _

theorem Position.read_shallow (p : Position) : p.read.Shallow deep := by
  have htriple : ∀ fields, (readTriple fields).Shallow deep := fun fields =>
    .bind .remaining fun _ =>
      .ite (fun _ => .bind (ScaledField.readAll_shallow fields) fun _ => .pure _) fun _ => .pure _
  exact .bind (ScaledField.readAll_shallow p.head) fun _ =>
    .bind (htriple sigma) fun _ => .bind (htriple rho) fun _ => .pure _

theorem Identity.readIds_shallow (fields : List (String × Bool)) :
    (readIds fields).Shallow deep := by
  induction fields with
  | nil => exact .pure _
  | cons f rest ih =>
      obtain ⟨name, present⟩ := f
      rw [readIds]
      exact .ite (fun _ => .bind ((Reader.Shallow.take _).map _) fun _ => .bind ih fun _ => .pure _)
        fun _ => .bind (.pure _) fun _ => .bind ih fun _ => .pure _

theorem WindowCorners.readCorners_shallow (names : List String) :
    (readCorners names).Shallow deep := by
  induction names with
  | nil => exact .pure _
  | cons name rest ih =>
      have hone : (readCorner name).Shallow deep := by
        rw [readCorner]
        exact .bind .position fun _ => .bind Ber.readTag_shallow fun _ => .refuse rfl (.pure _)
      exact .bind hone fun _ => .bind ih fun _ => .pure _

theorem MetricImplementer.read_shallow (length : Nat) : (read length).Shallow deep := by
  rw [read]
  refine .bind .position fun _ => .bind (.take length) fun bytes => ?_
  cases Text.Utf8.decode bytes with
  | error f => exact .raiseAt rfl
  | ok text => exact .pure _

namespace RangeSection

theorem readPart_shallow {codec : Codec} (hcodec : ∀ n, (codec.read n).Shallow deep) :
    (readPart codec).Shallow deep := by
  rw [readPart]
  refine .bind .position fun _ => .bind Ber.readLength_shallow fun length => ?_
  refine .bind .remaining fun left => .require rfl (.ite (fun _ => .pure _) fun _ => ?_)
  refine .bind (.enter _) fun field => ?_
  cases hread : codec.read length.toNat field with
  | error e d => exact .throw (hcodec _ _ _ _ hread)
  | ok value after => exact .require rfl (.pure _)

theorem readPartIfAny_shallow {codec : Codec} (hcodec : ∀ n, (codec.read n).Shallow deep) :
    (readPartIfAny codec).Shallow deep := by
  have h : (do if ← Reader.atEnd then return .empty else readPart codec :
      Reader Value).Shallow deep :=
    .bind .atEnd fun _ => .ite (fun _ => .pure _) fun _ => readPart_shallow hcodec
  exact h

theorem readCoefficients_shallow (names : List String) :
    (readCoefficients names).Shallow deep := by
  induction names with
  | nil => exact .pure _
  | cons name rest ih =>
      have hone : (readPartIfAny coefficient).Shallow deep :=
        readPartIfAny_shallow fun n => .bind (Floating.read_shallow n) fun _ => .pure _
      exact .bind hone fun _ => .bind ih fun _ => .pure _

theorem read_shallow : read.Shallow deep := by
  have hindex : (readPart index).Shallow deep :=
    readPart_shallow fun _ => .bind Ber.readTag_shallow fun _ => .pure _
  have harray : ∀ n, (array.read n).Shallow deep := fun n =>
    .bind (Grid.read_shallow _ n) fun _ => .pure _
  refine .bind hindex fun _ => .bind hindex fun _ => .bind (readPart_shallow harray) fun _ => ?_
  exact .bind (readPartIfAny_shallow harray) fun _ =>
    .bind (readCoefficients_shallow _) fun _ => .pure _

end RangeSection

/-- No format without parts reports that something nests too deep. -/
theorem PlainFormat.read_shallow (f : PlainFormat) (length : Nat) :
    (f.codec.read length).Shallow deep := by
  cases f with
  | blob c => exact .bind (.take length) fun _ => .pure _
  | uint c => exact .bind (Integer.readUnsigned_shallow length) fun _ => .pure _
  | sint c => exact .bind (Integer.readSigned_shallow length) fun _ => .pure _
  | berOid => exact .bind Ber.readTag_shallow fun _ => .pure _
  | enumeration name c names => exact .bind (Integer.readUnsigned_shallow length) fun _ => .pure _
  | bool => exact .bind .bool fun _ => .pure _
  | float c => exact .bind (Floating.read_shallow length) fun _ => .pure _
  | imap low high c => exact .bind (Imap.read_shallow low high length) fun _ => .pure _
  | linear signed low high c =>
      exact .ite (fun _ => .bind (Linear.readSigned_shallow low high length) fun _ => .pure _)
        fun _ => .bind (Linear.readUnsigned_shallow low high length) fun _ => .pure _
  | text encoding characters c =>
      refine .bind .position fun _ => .bind (.take length) fun bytes => ?_
      refine .ite (fun _ => .pure _) fun _ => ?_
      cases hdecode : encoding.decode bytes with
      | error e => exact .throw (encoding.decode_shallow bytes e hdecode)
      | ok text => exact .pure _
  | grid element => exact .bind (Grid.read_shallow element length) fun _ => .pure _
  | rowArray a => exact a.read_shallow length
  | correlation preceding => exact .bind (Correlation.read_shallow preceding) fun _ => .pure _
  | position p => exact p.read_shallow
  | identity =>
      exact .bind .byte fun _ => .bind .byte fun _ => .bind (Identity.readIds_shallow _) fun _ =>
        .pure _
  | metricPeriod =>
      exact .bind (Integer.readUnsigned_shallow _) fun _ =>
        .bind (Integer.readUnsigned_shallow _) fun _ => .pure _
  | windowCorners => exact .bind (WindowCorners.readCorners_shallow _) fun _ => .pure _
  | metricImplementer => exact MetricImplementer.read_shallow length
  | rangeEnumerations => exact .bind Ber.readTag_shallow fun _ => .pure _
  | rangeSection => exact RangeSection.read_shallow
  | userData => exact .bind .byte fun _ => .pure _
  | detectorIndex => exact .bind .byte fun _ => .bind .byte fun _ => .pure _

/-! ## Writing arrays -/

theorem GridElement.write_steady (element : GridElement) (value : Value) (width : Nat) :
    (element.write value width).Steady deep := by
  cases element with
  | uint =>
      exact .bind (.ofExcept value.requireUint_shallow) fun _ => Integer.writeUnsigned_steady _ _
  | sint =>
      exact .bind (.ofExcept value.requireSint_shallow) fun _ => Integer.writeSigned_steady _ _
  | float =>
      exact .bind (.ofExcept value.requireFloat_shallow) fun _ => Floating.write_steady _ _
  | bool =>
      refine .bind (.ofExcept value.requireBool_shallow) fun _ => ?_
      exact .ite (fun _ => .emit _) fun _ => .raise rfl
  | imap low high =>
      exact .bind (.ofExcept value.requireImap_shallow) fun _ => Imap.write_steady _ _ _ _

namespace Grid

theorem ofValue_shallow (value : Value) : Shallow deep (ofValue value) := by
  refine .bind (value.seriesField_shallow _) fun sizes => ?_
  refine .bind (.mapM fun n _ => n.requireUint_shallow.inside _) fun sizes => ?_
  refine .bind (value.seriesField_shallow _) fun elements => ?_
  refine .bind (value.uintField_shallow _) fun code => ?_
  have hrest : ∀ grid : UInt64 → UInt64 → Grid, Shallow deep (do
      let elementSize ← value.uintField "element_size"
      let parametersLength ← value.uintField "apa_params_length"
      return grid elementSize parametersLength) := fun grid =>
    .bind (value.uintField_shallow _) fun _ => .bind (value.uintField_shallow _) fun _ => .ok _
  cases Processing.ofCode? code with
  | none => exact .raise_bind rfl
  | some processing =>
      refine .bind (.ok processing) fun processing => ?_
      dsimp only
      split
      · refine .bind (.inside _ (requireFloat_shallow _)) fun low => ?_
        exact .bind (.inside _ (requireFloat_shallow _)) fun high => hrest _
      · exact hrest _

theorem check_shallow (element : GridElement) (g : Grid) : Shallow deep (g.check element) := by
  rw [check]
  refine .ite (fun _ => .raise rfl) fun _ => .ite (fun _ => .raise rfl) fun _ => ?_
  exact .ite (fun _ => .raise rfl) fun _ => .ok _

theorem writeHeader_steady (g : Grid) (elementSize : Nat) :
    (g.writeHeader elementSize).Steady deep := by
  refine .bind (Ber.writeTag_steady _) fun _ => ?_
  refine .bind (.each fun size _ => Ber.writeTag_steady _) fun _ => ?_
  exact .bind (Ber.writeTag_steady _) fun _ => .emit _

theorem writeBox_steady (element : GridElement) (elementSize : Nat) (b : Box) :
    (writeBox element elementSize b).Steady deep := by
  refine .bind (element.write_steady _ _) fun _ => ?_
  exact .bind (.each fun _ _ => Ber.writeTag_steady _) fun _ =>
    .each fun _ _ => Ber.writeTag_steady _

theorem writeElements_steady (element : GridElement) (g : Grid) :
    (g.writeElements element).Steady deep := by
  rw [writeElements]
  cases g.processing with
  | natural => exact .each fun e _ => element.write_steady e _
  | scaled =>
      cases g.bounds with
      | none => exact .raise rfl
      | some bounds =>
          refine .bind (Floating.write_steady _ _) fun _ => ?_
          refine .bind (Floating.write_steady _ _) fun _ => .each fun e _ => ?_
          exact .bind (.ofExcept e.requireImap_shallow) fun _ => Imap.write_steady _ _ _ _
  | boolean =>
      exact .bind (.ofExcept (.mapM fun v _ => v.requireBool_shallow)) fun _ => .emit _
  | biased =>
      refine .bind (.ofExcept (.mapM fun v _ => v.requireUint_shallow)) fun values => ?_
      exact .bind (Ber.writeTag_steady _) fun _ => .each fun v _ => Ber.writeTag_steady _
  | runs =>
      cases commonElement? g.elements with
      | none => exact .raise rfl
      | some common =>
          exact .bind (element.write_steady _ _) fun _ => .each fun b _ => writeBox_steady _ _ b

theorem encode_shallow (element : GridElement) (g : Grid) :
    Shallow deep (g.encode element) := by
  refine Steady.bytes (.bind (.ofExcept (g.check_shallow element)) fun _ => ?_)
  exact .bind (g.writeHeader_steady _) fun _ => g.writeElements_steady element

end Grid

namespace RowArray

theorem unsignedElement_shallow (width : Nat) (element : Value)
    (domain : Binary64 × Binary64) : Shallow deep (unsignedElement width element domain) := by
  refine .bind element.requireImap_shallow fun v => ?_
  refine .bind (v.write_steady _ _ _).bytes fun bytes => ?_
  exact .bind ((Integer.readUnsigned_shallow _).onBytes bytes) fun _ => .ok _

theorem encode_shallow (a : RowArray) (value : Value) : Shallow deep (a.encode value) := by
  refine .bind (.bind (Grid.ofValue_shallow value) fun g => ?_) fun g => g.encode_shallow _
  exact a.mapRows_shallow (fun e domain => unsignedElement_shallow _ e domain) g

end RowArray

/-! ## Writing packs -/

namespace Correlation

theorem membersOf_shallow (value : Value) : Shallow deep (membersOf value) :=
  .bind (value.seriesField_shallow _) fun _ => .mapM fun m _ => m.requireUint_shallow.inside _

theorem ofValue_shallow (value : Value) : Shallow deep (ofValue value) := by
  refine .bind (membersOf_shallow value) fun members => ?_
  refine .bind (value.seriesField_shallow _) fun sigma => ?_
  refine .bind (value.seriesField_shallow _) fun rho => ?_
  refine .bind (value.uintField_shallow _) fun sigmaLength => ?_
  refine .bind (value.uintField_shallow _) fun rhoLength => ?_
  refine .bind (value.boolField_shallow _) fun sparse => ?_
  refine .bind (value.boolField_shallow _) fun longControl => ?_
  refine .bind (value.boolField_shallow _) fun sigmaScaled => ?_
  exact .bind (value.boolField_shallow _) fun rhoScaled => .ok _

theorem check_shallow (c : Correlation) : Shallow deep c.check := by
  rw [check]
  refine .ite (fun _ => .raise rfl) fun _ => .ite (fun _ => .raise rfl) fun _ => ?_
  refine .ite (fun _ => .raise rfl) fun _ => .ite (fun _ => .raise rfl) fun _ => ?_
  exact .ite (fun _ => .raise rfl) fun _ => .ok _

theorem writeControl_steady (c : Correlation) : c.writeControl.Steady deep := by
  rw [writeControl]
  refine .ite (fun _ => ?_) fun _ => Ber.writeTag_steady _
  exact .ite (fun _ => .bind (.emit _) fun _ => Ber.writeTag_steady _)
    fun _ => Ber.writeTag_steady _

theorem writeCoefficient_steady (c : Correlation) (value : Value) :
    (c.writeCoefficient value).Steady deep := by
  rw [writeCoefficient]
  refine .ite (fun _ => ?_) fun _ => ?_
  · exact .bind (.ofExcept value.requireImap_shallow) fun _ => Imap.write_steady _ _ _ _
  · exact .bind (.ofExcept value.requireFloat_shallow) fun _ => Floating.write_steady _ _

theorem encode_shallow (c : Correlation) : Shallow deep c.encode := by
  have hrho : (if 0 < c.rhoLength then
      each c.writeCoefficient (c.rho.filter fun r => !(c.sparse && isZero r))
      else pure ()).Steady deep :=
    .ite (fun _ => .each fun r _ => c.writeCoefficient_steady r) fun _ => .pure _
  have hsigma : (if 0 < c.sigmaLength then (do
      each (fun s : Value => do
        Floating.write (← Encoder.ofExcept s.requireFloat) c.sigmaLength) c.sigma
      if 0 < c.rhoLength then
        each c.writeCoefficient (c.rho.filter fun r => !(c.sparse && isZero r)))
      else if 0 < c.rhoLength then
        each c.writeCoefficient (c.rho.filter fun r => !(c.sparse && isZero r))
      else pure () : Encoder Unit).Steady deep := by
    refine .ite (fun _ => .bind (.each fun s _ => ?_) fun _ => hrho) fun _ => hrho
    exact .bind (.ofExcept s.requireFloat_shallow) fun _ => Floating.write_steady _ _
  refine Steady.bytes (.bind (.ofExcept c.check_shallow) fun _ => ?_)
  refine .bind (Ber.writeTag_steady _) fun _ => .bind c.writeControl_steady fun _ => ?_
  exact .ite (fun _ => .bind (.emit _) fun _ => hsigma) fun _ => hsigma

end Correlation

namespace Position

theorem ScaledField.write_steady (value : Value) (f : ScaledField) :
    (ScaledField.write value f).Steady deep :=
  .bind (.ofExcept (value.imapField_shallow _)) fun _ => Imap.write_steady _ _ _ _

theorem ScaledField.check_shallow (value : Value) (fields : List ScaledField) :
    Shallow deep (ScaledField.check value fields) :=
  .forM (fun _ => .bind (value.imapField_shallow _) fun _ => .ok _) fields

theorem triplesOf_shallow (value : Value) : Shallow deep (triplesOf value) :=
  .bind (value.optionalField_shallow _) fun _ =>
    .bind (value.optionalField_shallow _) fun _ => .ok _

theorem writeTriple_steady (fields : List ScaledField) (triple : Option Value) :
    (writeTriple fields triple).Steady deep := by
  cases triple with
  | none => exact .pure _
  | some triple => exact .each fun f _ => ScaledField.write_steady triple f

theorem lengthOfTriple_shallow (fields : List ScaledField) (triple : Option Value) :
    Shallow deep (lengthOfTriple fields triple) := by
  cases triple with
  | none => exact .ok _
  | some triple => exact .bind (ScaledField.check_shallow triple fields) fun _ => .ok _

theorem write_steady (p : Position) (value : Value) : (p.write value).Steady deep := by
  refine .bind (.each fun f _ => ScaledField.write_steady value f) fun _ => ?_
  refine .bind (.ofExcept (triplesOf_shallow value)) fun triples => ?_
  exact .bind (writeTriple_steady _ _) fun _ => writeTriple_steady _ _

theorem naturalLength_shallow (p : Position) (value : Value) :
    Shallow deep (p.naturalLength value) := by
  refine .bind (ScaledField.check_shallow value _) fun _ => ?_
  refine .bind (triplesOf_shallow value) fun triples => ?_
  exact .bind (lengthOfTriple_shallow _ _) fun _ => .bind (lengthOfTriple_shallow _ _) fun _ =>
    .ok _

end Position

namespace Identity

theorem idsOf_shallow (value : Value) : Shallow deep (idsOf value) := by
  refine .mapM fun name _ => .bind (value.optionalField_shallow name) fun field => ?_
  split
  · exact .ok _
  · exact .ite (fun _ => .ok _) fun _ => .raise rfl
  · exact .inside _ (.raise rfl)

theorem write_steady (value : Value) : (write value).Steady deep := by
  refine .bind (.ofExcept (value.uintField_shallow _)) fun sensor => ?_
  refine .bind (.ofExcept (value.uintField_shallow _)) fun platform => .refuse rfl ?_
  refine .bind (.ofExcept (idsOf_shallow value)) fun ids => .bind (.ofExcept ?_) fun _ => ?_
  · exact .ite (fun _ => .raise rfl) fun _ => .ok _
  · refine .bind (.ofExcept (value.uintField_shallow _)) fun version => ?_
    exact .bind (Integer.writeUnsigned_steady _ _) fun _ => .bind (.emit _) fun _ =>
      .each fun id _ => .emit id

end Identity

namespace WindowCorners

theorem naturalLength_shallow (value : Value) : Shallow deep (naturalLength value) :=
  .foldlM (fun _ name => .bind (value.uintField_shallow name) fun _ => .ok _) _ _

end WindowCorners

namespace MetricImplementer

theorem subgroupOf_shallow (value : Value) : Shallow deep (subgroupOf value) := by
  rw [subgroupOf.eq_def]
  split
  · exact .ok _
  · exact .ok _
  · exact .ok _
  · exact .inside _ (.raise rfl)

theorem write_steady (value : Value) : (write value).Steady deep := by
  refine .bind (.ofExcept (value.stringField_shallow _)) fun _ => .bind (.emit _) fun _ => ?_
  refine .bind (.ofExcept (subgroupOf_shallow value)) fun subgroup => ?_
  cases subgroup with
  | none => exact .pure _
  | some s => exact .emit _

theorem naturalLength_shallow (value : Value) : Shallow deep (naturalLength value) :=
  .bind (subgroupOf_shallow value) fun _ => .bind (value.stringField_shallow _) fun _ => .ok _

end MetricImplementer

namespace RangeEnumerations

theorem write_steady (value : Value) : (write value).Steady deep := by
  refine .bind (.ofExcept (value.uintField_shallow _)) fun compression => ?_
  refine .bind (.ofExcept (value.uintField_shallow _)) fun dataType => ?_
  refine .bind (.ofExcept (value.uintField_shallow _)) fun source => ?_
  exact .refuse rfl (Ber.writeTag_steady _)

end RangeEnumerations

/-! ## Codecs -/

namespace Codec

theorem uint_steady (c : LengthConstraint) (value : Value) : (uint c).Steady deep value where
  write _ := .bind (.ofExcept value.requireUint_shallow) fun _ => Integer.writeUnsigned_steady _ _
  natural := .bind value.requireUint_shallow fun _ => .ok _

theorem berOid_steady (value : Value) : berOid.Steady deep value where
  write _ := .bind (.ofExcept value.requireUint_shallow) fun _ => Ber.writeTag_steady _
  natural := .bind value.requireUint_shallow fun _ => .ok _

theorem float_steady (c : LengthConstraint) (value : Value) : (float c).Steady deep value where
  write _ := .bind (.ofExcept value.requireFloat_shallow) fun _ => Floating.write_steady _ _
  natural := .bind value.requireFloat_shallow fun _ => .ok _

theorem grid_steady (element : GridElement) (value : Value) :
    (grid element).Steady deep value where
  write _ := .bind (.ofExcept (.bind (Grid.ofValue_shallow value) fun g =>
    g.encode_shallow element)) fun _ => .emit _
  natural := .bind (Grid.ofValue_shallow value) fun g =>
    .bind (g.encode_shallow element) fun _ => .ok _

end Codec

namespace RangeSection

theorem trailingParts_shallow (value : Value) : Shallow deep (trailingParts value) := by
  refine .bind (.map (.mapM fun name _ => ?_)) fun plane => .bind ?_ fun _ => .ok _
  · refine .bind (value.optionalField_shallow name) fun field => ?_
    split
    · exact .ok _
    · exact .ok _
    · exact .inside _ (.raise rfl)
  · exact .bind (value.optionalField_shallow _) fun _ => .ok _

/-- The parts after the measurements are an array and numbers. -/
theorem trailingParts_steady {value : Value} {parts : List (Codec × Value)}
    (h : trailingParts value = .ok parts) : ∀ part ∈ parts, part.1.Steady deep part.2 := by
  obtain ⟨plane, _, h⟩ := except_bind_eq_ok.1 h
  obtain ⟨uncertainty, _, h⟩ := except_bind_eq_ok.1 h
  injection h with h
  subst h
  intro part hpart
  rcases List.mem_append.1 hpart with hfirst | hplane
  · split at hfirst
    · cases hfirst
    · rw [List.mem_singleton.1 hfirst]
      exact Codec.grid_steady _ _
  · obtain ⟨v, _, rfl⟩ := List.mem_map.1 hplane
    exact Codec.float_steady _ _

theorem writePart_steady {codec : Codec} {value : Value} (h : codec.Steady deep value) :
    (writePart codec value).Steady deep :=
  .bind (.ofExcept h.accepts.fieldLength) fun length =>
    .bind (Ber.writeLength_steady length) fun _ => h.accepts.writeField length

theorem partLength_shallow {codec : Codec} {value : Value} (h : codec.Steady deep value) :
    Shallow deep (partLength codec value) :=
  .bind h.accepts.fieldLength fun _ => .ok _

theorem write_steady (value : Value) : (write value).Steady deep := by
  have hindex : ∀ v, (writePart index v).Steady deep := fun v =>
    writePart_steady (Codec.berOid_steady v)
  have harray : ∀ v, (writePart array v).Steady deep := fun v =>
    writePart_steady (Codec.grid_steady .float v)
  refine .bind (.ofExcept (value.uintField_shallow _)) fun _ => .bind (hindex _) fun _ => ?_
  refine .bind (.ofExcept (value.uintField_shallow _)) fun _ => .bind (hindex _) fun _ => ?_
  refine .bind (.ofExcept (value.field_shallow _)) fun _ => .bind (harray _) fun _ => ?_
  refine .ofExcept_bind (trailingParts_shallow value) fun parts hparts => .each fun part hpart => ?_
  exact writePart_steady (trailingParts_steady hparts part hpart)

theorem naturalLength_shallow (value : Value) : Shallow deep (naturalLength value) := by
  have hindex : ∀ v, Shallow deep (partLength index v) := fun v =>
    partLength_shallow (Codec.berOid_steady v)
  have harray : ∀ v, Shallow deep (partLength array v) := fun v =>
    partLength_shallow (Codec.grid_steady .float v)
  refine .bind (value.uintField_shallow _) fun _ => .bind (hindex _) fun _ => ?_
  refine .bind (value.uintField_shallow _) fun _ => .bind (hindex _) fun _ => ?_
  refine .bind (value.field_shallow _) fun _ => .bind (harray _) fun _ => ?_
  refine .bind_of (trailingParts_shallow value) fun parts hparts => .bind ?_ fun _ => .ok _
  exact .mapM fun part hpart => partLength_shallow (trailingParts_steady hparts part hpart)

end RangeSection

/-- Formats without parts write any value the same wherever they stand, and none is refused for
its depth. -/
theorem PlainFormat.steady (f : PlainFormat) (value : Value) : f.codec.Steady deep value := by
  cases f with
  | blob c => exact ⟨fun _ => .raise rfl, .raise rfl⟩
  | uint c => exact Codec.uint_steady c value
  | sint c =>
      exact ⟨fun _ => .bind (.ofExcept value.requireSint_shallow) fun _ =>
        Integer.writeSigned_steady _ _, .bind value.requireSint_shallow fun _ => .ok _⟩
  | berOid => exact Codec.berOid_steady value
  | enumeration name c names =>
      exact ⟨(Codec.uint_steady c value).write, (Codec.uint_steady c value).natural⟩
  | bool =>
      exact ⟨fun _ => .bind (.ofExcept value.requireBool_shallow) fun _ => .emit _, .ok _⟩
  | float c => exact Codec.float_steady c value
  | imap low high c =>
      exact ⟨fun _ => .bind (.ofExcept value.requireImap_shallow) fun _ =>
        Imap.write_steady _ _ _ _, .bind value.requireImap_shallow fun _ => .ok _⟩
  | linear signed low high c =>
      exact ⟨fun _ => .bind (.ofExcept value.requireFloat_shallow) fun _ =>
        .ite (fun _ => Linear.writeSigned_steady _ _ _ _)
          fun _ => Linear.writeUnsigned_steady _ _ _ _,
        .bind value.requireFloat_shallow fun _ => .ok _⟩
  | text encoding characters c =>
      exact ⟨fun _ => .bind (.ofExcept (value.expect_shallow _ _)) fun text =>
        .ite (fun _ => .emit _) fun _ => .bind (.ofExcept (encoding.encode_shallow text)) fun _ =>
          .emit _, .bind (value.expect_shallow _ _) fun _ => .ok _⟩
  | grid element => exact Codec.grid_steady element value
  | rowArray a =>
      exact ⟨fun _ => .bind (.ofExcept (a.encode_shallow value)) fun _ => .emit _,
        .bind (a.encode_shallow value) fun _ => .ok _⟩
  | correlation preceding =>
      exact ⟨fun _ => .bind (.ofExcept (.bind (Correlation.ofValue_shallow value) fun c =>
          c.encode_shallow)) fun _ => .emit _,
        .bind (Correlation.ofValue_shallow value) fun c => .bind c.encode_shallow fun _ => .ok _⟩
  | position p => exact ⟨fun _ => p.write_steady value, p.naturalLength_shallow value⟩
  | identity =>
      exact ⟨fun _ => Identity.write_steady value,
        .bind (Identity.idsOf_shallow value) fun _ => .ok _⟩
  | metricPeriod =>
      exact ⟨fun _ => .bind (.ofExcept (value.uintField_shallow _)) fun _ =>
        .bind (Integer.writeUnsigned_steady _ _) fun _ =>
        .bind (.ofExcept (value.uintField_shallow _)) fun _ => Integer.writeUnsigned_steady _ _,
        .ok _⟩
  | windowCorners =>
      exact ⟨fun _ => .each fun name _ => .bind (.ofExcept (value.uintField_shallow name)) fun _ =>
        Ber.writeTag_steady _, WindowCorners.naturalLength_shallow value⟩
  | metricImplementer =>
      exact ⟨fun _ => MetricImplementer.write_steady value,
        MetricImplementer.naturalLength_shallow value⟩
  | rangeEnumerations => exact ⟨fun _ => RangeEnumerations.write_steady value, .ok _⟩
  | rangeSection =>
      exact ⟨fun _ => RangeSection.write_steady value, RangeSection.naturalLength_shallow value⟩
  | userData =>
      exact ⟨fun _ => .bind (.ofExcept (value.uintField_shallow _)) fun _ =>
        .bind (.ofExcept (value.uintField_shallow _)) fun _ =>
        .refuse rfl (Integer.writeUnsigned_steady _ _), .ok _⟩
  | detectorIndex =>
      exact ⟨fun _ => .bind (.ofExcept (value.uintField_shallow _)) fun _ =>
        .bind (Integer.writeUnsigned_steady _ _) fun _ =>
        .bind (.ofExcept (value.uintField_shallow _)) fun _ => Integer.writeUnsigned_steady _ _,
        .ok _⟩

end MotionMetadata
