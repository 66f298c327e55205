import MotionMetadata.Proofs.Packs

/-!
# Arrays and what is made of them

Arrays and correlation packs are encoded on their own before anything is known of the field
they go in, so all that it takes is that this succeeds. A section of a range image has arrays
for parts, and is written part by part.

Two packs ask for more than their numbers do. A correlation pack that describes no entries is
read but not written, and so is a section whose place is left empty.
-/

namespace MotionMetadata

namespace Codec

variable {codec : Codec} {v : Value} {width : Option Nat}

/-- A value whose codec works its bytes out first. -/
theorem takes_of_bytes {x : Except Error Bytes} {bytes : Bytes} (hx : x = .ok bytes)
    (hv : v.isDecoded) (hlength : codec.naturalLength v = (do return (← x).length))
    (hwrite : ∀ n, codec.write v n = (do Encoder.emit (← Encoder.ofExcept x))) :
    codec.Takes v bytes.length := by
  refine ⟨hv, ?_, ?_⟩
  · rw [hlength, hx]
    rfl
  · rw [hwrite, hx]
    exact .ofExcept rfl (.emit bytes)

/-- A value that stands for something of its own, which is encoded. -/
theorem takes_of_record {α : Type} {ofValue : Value → Except Error α}
    {encode : α → Except Error Bytes} {a : α} {bytes : Bytes} (hvalue : ofValue v = .ok a)
    (hencode : encode a = .ok bytes) (hv : v.isDecoded)
    (hlength : codec.naturalLength v = (do return (← encode (← ofValue v)).length))
    (hwrite : ∀ n, codec.write v n =
      (do Encoder.emit (← Encoder.ofExcept (do encode (← ofValue v))))) :
    codec.Takes v bytes.length := by
  have hbytes : (do encode (← ofValue v)) = Except.ok bytes := by
    rw [hvalue]
    exact hencode
  refine takes_of_bytes hbytes hv ?_ hwrite
  rw [hlength, hvalue]
  rfl

/-- An array asks for what it takes to write it. -/
theorem grid_passes (element : GridElement) :
    (grid element).Passes fun v _ => ∀ g, Grid.ofValue v = .ok g → g.Rewritable element := by
  refine passes_of_takes (fun n => ?_) fun _ _ => rfl
  refine (Grid.read_yields element n).bind fun g hg => .pure fun hsound => ?_
  have hvalue := Grid.ofValue_toValue (fun size hs => (hg.sizes size hs).2) hg.elementSize
    hg.parameters
  obtain ⟨bytes, hbytes⟩ := Grid.encode_readable hg (hsound g hvalue)
  exact ⟨_, takes_of_record hvalue hbytes rfl rfl fun _ => rfl, fun _ h => nomatch h⟩

theorem rowArray_passes (a : RowArray) :
    (rowArray a).Passes fun v _ => ∀ g, Grid.ofValue v = .ok g → a.Rewritable g := by
  refine passes_of_takes (fun n => ?_) fun _ _ => rfl
  refine (a.read_yields n).imp fun v hv hsound => ?_
  obtain ⟨g, rfl, hg⟩ := hv
  obtain ⟨elements, hbase, _⟩ := hg.base
  have hvalue : Grid.ofValue g.toValue = .ok g :=
    Grid.ofValue_toValue (fun size hs => (hbase.sizes size hs).2) hbase.elementSize
      hbase.parameters
  obtain ⟨bytes, hbytes⟩ := a.encode_readable hg (hsound g hvalue)
  exact ⟨_, takes_of_bytes hbytes rfl rfl fun _ => rfl, fun _ h => nomatch h⟩

end Codec

/-! ## Sections -/

namespace RangeSection

variable {codec : Codec} {P : Value → Prop} {v : Value}

/-- What it takes for a section to be written: its place is there, and its arrays can be. -/
structure Rewritable (value : Value) : Prop where
  x : value.field? "section_x" ≠ some .empty
  y : value.field? "section_y" ≠ some .empty
  measurements : ∀ part, value.field? "measurements" = some part →
    ∀ g, Grid.ofValue part = .ok g → g.Rewritable .float
  uncertainty : ∀ part, value.field? "uncertainty" = some part →
    ∀ g, Grid.ofValue part = .ok g → g.Rewritable .float

theorem readPart_yields (hempty : P .empty) (hread : ∀ n, n ≠ 0 → (codec.read n).Yields P) :
    (readPart codec).Yields P := by
  rw [readPart]
  refine .after fun start => .after fun length => .after fun left => ?_
  dsimp only
  refine .require fun _ => .ite (fun _ => .pure hempty) fun hn => .after fun field => ?_
  have hne : length.toNat ≠ 0 := fun hzero => hn (UInt64.toNat_inj.1 hzero)
  cases hresult : codec.read length.toNat field with
  | error e after => exact .throw e
  | ok value after => exact .require fun _ => .pure (hread _ hne field value after hresult)

theorem readPartIfAny_yields (hempty : P .empty)
    (hread : ∀ n, n ≠ 0 → (codec.read n).Yields P) : (readPartIfAny codec).Yields P := by
  rw [readPartIfAny]
  exact .after fun _ => .ite (fun _ => .pure hempty) fun _ => readPart_yields hempty hread

/-- A coefficient is a number, or left out. -/
def IsCoefficient (v : Value) : Prop := v = .empty ∨ ∃ x, v = .float x

theorem readCoefficients_yields (names : List String) :
    (readCoefficients names).Yields
      (Value.Named (fun name => name) (fun _ => IsCoefficient) names) := by
  induction names with
  | nil => exact .pure .nil
  | cons name rest ih =>
      have hone : (readPartIfAny coefficient).Yields IsCoefficient :=
        readPartIfAny_yields (.inl rfl) fun n _ =>
          (Reader.Yields.any (Floating.read n)).bind fun x _ => .pure (.inr ⟨x, rfl⟩)
      rw [readCoefficients]
      exact hone.bind fun v hv => ih.bind fun fields hfields => .pure (.cons hv hfields)

/-- Coefficients are written in eight bytes. -/
theorem coefficient_forwards (hv : IsCoefficient v) : coefficient.Forwards v none := by
  rcases hv with rfl | ⟨x, rfl⟩
  · exact Codec.forwards_empty
  · exact ⟨8, rfl, .ofExcept rfl (Floating.write_writes (.inl rfl))⟩

theorem mem_of_mem_trimmed {values : List Value} (h : v ∈ trimmed values) : v ∈ values := by
  induction values with
  | nil => exact h
  | cons first rest ih =>
      rw [trimmed] at h
      split at h
      · split at h
        · cases h
        · rw [List.mem_singleton.1 h]
          exact List.mem_cons_self ..
      · rcases List.mem_cons.1 h with rfl | h
        · exact List.mem_cons_self ..
        · exact List.mem_cons_of_mem _ (ih h)

theorem coefficientOf_eq_ok {fields : List (String × Value)} {name : String}
    (hv : (Value.record fields).field? name = some v) (hcoefficient : IsCoefficient v) :
    coefficientOf (.record fields) name = .ok v := by
  rw [coefficientOf, Value.optionalField_record, hv]
  rcases hcoefficient with rfl | ⟨x, rfl⟩ <;> rfl

theorem uncertaintyOf_eq_ok {fields : List (String × Value)}
    (hv : (Value.record fields).field? "uncertainty" = some v) :
    uncertaintyOf (.record fields) = .ok v := by
  rw [uncertaintyOf, Value.optionalField_record, hv]
  cases v <;> rfl

theorem writePart_writes (h : codec.Forwards v none) :
    ∃ n, partLength codec v = .ok n ∧ (writePart codec v).Writes n := by
  obtain ⟨n, hlength, hwrites⟩ := h
  refine ⟨Ber.widthOfLength n + n, except_bind_eq_ok.2 ⟨n, hlength, rfl⟩, ?_⟩
  exact .ofExcept hlength ((Ber.writeLength_writes n).bind (Codec.writeField_writes hwrites))

theorem writeParts_writes {parts : List (Codec × Value)}
    (h : ∀ part ∈ parts, part.1.Forwards part.2 none) :
    ∃ lengths, parts.mapM (fun part => partLength part.1 part.2) = .ok lengths ∧
      (Encoder.each (fun part => writePart part.1 part.2) parts).Writes lengths.sum := by
  induction parts with
  | nil => exact ⟨[], rfl, .pure⟩
  | cons part rest ih =>
      obtain ⟨hpart, hrest⟩ := List.forall_mem_cons.1 h
      obtain ⟨n, hn, hwrites⟩ := writePart_writes hpart
      obtain ⟨lengths, hlengths, hwritesRest⟩ := ih hrest
      refine ⟨n :: lengths, ?_, ?_⟩
      · rw [List.mapM_cons, hn, hlengths]
        rfl
      · rw [List.sum_cons]
        exact hwrites.bind hwritesRest

/-- The parts after the measurements are the uncertainties and coefficients, as far as they
are there. -/
theorem trailingParts_forwards {fields : List (String × Value)} {uncertainty : Value}
    (hfields : ∀ name ∈ planeFields, ∃ v, (Value.record fields).field? name = some v ∧
      IsCoefficient v)
    (huncertainty : (Value.record fields).field? "uncertainty" = some uncertainty)
    (hforwards : array.Forwards uncertainty none) :
    ∃ parts, trailingParts (.record fields) = .ok parts ∧
      ∀ part ∈ parts, part.1.Forwards part.2 none := by
  have hone : ∀ name ∈ planeFields, ∃ v, coefficientOf (.record fields) name = .ok v ∧
      IsCoefficient v := fun name hname =>
    (hfields name hname).imp fun v hv => ⟨coefficientOf_eq_ok hv.1 hv.2, hv.2⟩
  obtain ⟨values, hvalues, _, hall⟩ := except_mapM_of_all hone
  have hplane : coefficientsOf (.record fields) = .ok (trimmed values) := by
    rw [coefficientsOf, hvalues]
    rfl
  rw [trailingParts, hplane, uncertaintyOf_eq_ok huncertainty]
  refine ⟨_, rfl, fun part hpart => ?_⟩
  rcases List.mem_append.1 hpart with hpart | hpart
  · split at hpart
    · cases hpart
    · obtain rfl := List.mem_singleton.1 hpart
      exact hforwards
  · obtain ⟨v, hv, rfl⟩ := List.mem_map.1 hpart
    exact coefficient_forwards (hall v (mem_of_mem_trimmed hv))

end RangeSection

namespace Codec

theorem rangeSection_passes :
    rangeSection.Passes fun v _ => RangeSection.Rewritable v := by
  refine passes_of_takes (fun _ => ?_) fun _ _ => rfl
  have hindex : (RangeSection.readPart RangeSection.index).Yields fun v =>
      v ≠ .empty → ∃ n, v = .uint n ∧ n.toNat < 2 ^ 56 :=
    RangeSection.readPart_yields (fun h => absurd rfl h) fun _ _ =>
      Ber.readTag_yields.bind fun n hn => .pure fun _ => ⟨n, rfl, hn⟩
  have harray : ∀ n, n ≠ 0 → (RangeSection.array.read n).Yields fun v =>
      (∀ g, Grid.ofValue v = .ok g → g.Rewritable .float) →
        RangeSection.array.Forwards v none := fun n hn =>
    (grid_passes .float n hn rfl).imp fun v hv hsound => hv none (.inl rfl) hsound
  refine hindex.bind fun x hx => hindex.bind fun y hy => ?_
  refine (RangeSection.readPart_yields (fun _ => forwards_empty) harray).bind
    fun measurements hmeasurements => ?_
  refine (RangeSection.readPartIfAny_yields (fun _ => forwards_empty) harray).bind
    fun uncertainty huncertainty => ?_
  refine (RangeSection.readCoefficients_yields _).bind fun plane hplane => .pure fun hsound => ?_
  obtain ⟨x, rfl, hxlt⟩ := hx fun h => hsound.x (congrArg some h)
  obtain ⟨y, rfl, hylt⟩ := hy fun h => hsound.y (congrArg some h)
  have hbefore : ∀ place ∈ RangeSection.planeFields,
      place ∉ ["section_x", "section_y", "measurements", "uncertainty"] := by decide
  have hplane : ∀ name ∈ RangeSection.planeFields, ∃ v,
      (Value.record ([("section_x", Value.uint x), ("section_y", .uint y),
        ("measurements", measurements), ("uncertainty", uncertainty)] ++ plane)).field? name =
          some v ∧ RangeSection.IsCoefficient v :=
    hplane.field?_behind (by decide) (by simpa using hbefore)
  obtain ⟨parts, hparts, hforwards⟩ := RangeSection.trailingParts_forwards hplane rfl
    (huncertainty (hsound.uncertainty _ rfl))
  have hplace : ∀ n : UInt64, n.toNat < 2 ^ 56 → RangeSection.index.Forwards (.uint n) none :=
    fun n hn => ⟨_, rfl, .ofExcept rfl (Ber.writeTag_writes hn)⟩
  obtain ⟨i, hi, hwritesX⟩ := RangeSection.writePart_writes (hplace x hxlt)
  obtain ⟨j, hj, hwritesY⟩ := RangeSection.writePart_writes (hplace y hylt)
  obtain ⟨k, hk, hwritesMeasurements⟩ := RangeSection.writePart_writes
    (hmeasurements (hsound.measurements _ rfl))
  obtain ⟨lengths, hlengths, hwritesParts⟩ := RangeSection.writeParts_writes hforwards
  refine ⟨i + j + k + lengths.sum, ⟨rfl, ?_, ?_⟩, fun _ h => nomatch h⟩
  · refine except_bind_eq_ok.2 ⟨x, rfl, except_bind_eq_ok.2 ⟨i, hi, ?_⟩⟩
    refine except_bind_eq_ok.2 ⟨y, rfl, except_bind_eq_ok.2 ⟨j, hj, ?_⟩⟩
    refine except_bind_eq_ok.2 ⟨measurements, rfl, except_bind_eq_ok.2 ⟨k, hk, ?_⟩⟩
    exact except_bind_eq_ok.2 ⟨parts, hparts, except_bind_eq_ok.2 ⟨lengths, hlengths, rfl⟩⟩
  · rw [Nat.add_assoc, Nat.add_assoc]
    exact .ofExcept rfl (hwritesX.bind (.ofExcept rfl (hwritesY.bind
      (.ofExcept rfl (hwritesMeasurements.bind (.ofExcept hparts hwritesParts))))))

end Codec

/-! ## Correlations -/

namespace Correlation

variable {c : Correlation}

/-- A coefficient as it was read. -/
def Holds (c : Correlation) (v : Value) : Prop :=
  if c.rhoScaled then Imap.IsScaled coefficientLow coefficientHigh c.rhoLength v
  else ∃ x, v = .float x ∧ Floating.Fits x c.rhoLength

/-- What the reader has made sure of when it answers a pack. Coefficients that it has not read
itself are zero and left out again. -/
structure Readable (c : Correlation) : Prop where
  few : c.members.length < 2 ^ 56
  plain : ¬ (0 < c.sigmaLength ∧ c.sigmaScaled)
  sigmaLength : c.sigmaLength ≤ lengthLimit c.longControl
  rhoLength : c.rhoLength ≤ lengthLimit c.longControl
  sigma : 0 < c.sigmaLength → c.sigma.length = c.members.length ∧
    ∀ s ∈ c.sigma, ∃ x, s = .float x ∧ Floating.Fits x c.sigmaLength
  rho : 0 < c.rhoLength → c.rho.length = c.coefficientCount ∧
    ∀ r ∈ c.rho, (!(c.sparse && isZero r)) = true → c.Holds r

/-- What it takes besides for a pack to be written: it describes something, and the scaled
coefficients that are on the wire find back to integers of their width. -/
structure Rewritable (c : Correlation) : Prop where
  members : c.members ≠ []
  rescales : c.rhoScaled → 0 < c.rhoLength → ∀ r ∈ c.rho, (!(c.sparse && isZero r)) = true →
    Imap.Rescales coefficientLow coefficientHigh c.rhoLength r

theorem ofControl_lengths (members : List Tag) (long : Bool) (control : Nat) :
    (ofControl members long control).members = members ∧
      (ofControl members long control).sigmaLength ≤
        lengthLimit (ofControl members long control).longControl ∧
      (ofControl members long control).rhoLength ≤
        lengthLimit (ofControl members long control).longControl := by
  cases long with
  | true =>
      refine ⟨rfl, ?_, ?_⟩
      · exact Nat.le_of_lt_succ (Nat.mod_lt control (by decide))
      · exact Nat.le_of_lt_succ (Nat.mod_lt (control / 2 ^ 7) (by decide))
  | false =>
      refine ⟨rfl, ?_, ?_⟩
      · exact Nat.le_of_lt_succ (Nat.mod_lt (control / 2 ^ 4) (by decide))
      · exact Nat.le_of_lt_succ (Nat.mod_lt control (by decide))

theorem readPresence_yields (c : Correlation) :
    c.readPresence.Yields fun present =>
      present.length = c.coefficientCount ∧ (false ∈ present → c.sparse) := by
  rw [readPresence]
  refine .ite (fun hsparse => ?_) fun _ => .pure ⟨List.length_replicate, fun hfalse => ?_⟩
  · exact (Grid.take_bitsOfBytes_yields _).bind fun bytes hbytes =>
      .pure ⟨hbytes, fun _ => hsparse⟩
  · cases (List.mem_replicate.1 hfalse).2

theorem readSigma_yields (c : Correlation) (n : Nat) :
    (c.readSigma n).Yields fun sigma => 0 < c.sigmaLength → sigma.length = n ∧
      ∀ s ∈ sigma, ∃ x, s = .float x ∧ Floating.Fits x c.sigmaLength := by
  rw [readSigma]
  refine .ite (fun _ => ?_) fun hnone => .pure fun hsome => absurd hsome hnone
  refine (Reader.Yields.times (.map ?_) n).imp fun _ h _ => h
  exact (Floating.read_yields _).imp fun x hx => ⟨x, rfl, hx.1⟩

theorem readCoefficient_yields (c : Correlation) :
    (readCoefficient c.rhoScaled c.rhoLength).Yields c.Holds := by
  rw [readCoefficient]
  refine .ite (fun hscaled => ?_) fun hplain => ?_
  · exact (Imap.read_yields _ _ _).bind fun x hx => .pure ((if_pos hscaled).mpr hx)
  · exact (Floating.read_yields _).bind fun x hx => .pure ((if_neg hplain).mpr ⟨x, rfl, hx.1⟩)

/-- Coefficients are read, or zero where they are left out. -/
theorem readCoefficients_yields {one : Reader Value} {P : Value → Prop} (hone : one.Yields P)
    (present : List Bool) :
    (readCoefficients one present).Yields fun rho => rho.length = present.length ∧
      ∀ r ∈ rho, P r ∨ r = .float .zero ∧ false ∈ present := by
  induction present with
  | nil => exact .pure ⟨rfl, nofun⟩
  | cons b rest ih =>
      have hrest : ∀ {rho : List Value} {r : Value},
          (∀ r ∈ rho, P r ∨ r = .float .zero ∧ false ∈ rest) → r ∈ rho →
            P r ∨ r = .float .zero ∧ false ∈ b :: rest := fun h hr =>
        (h _ hr).imp_right fun h => ⟨h.1, List.mem_cons_of_mem _ h.2⟩
      rw [readCoefficients]
      refine .ite (fun _ => ?_) fun hb => ?_
      · refine hone.bind fun v hv => ih.bind fun rho hrho => .pure ⟨?_, ?_⟩
        · exact congrArg (· + 1) hrho.1
        · exact List.forall_mem_cons.2 ⟨.inl hv, fun r hr => hrest hrho.2 hr⟩
      · refine ih.bind fun rho hrho => .pure ⟨congrArg (· + 1) hrho.1, ?_⟩
        refine List.forall_mem_cons.2 ⟨.inr ⟨rfl, ?_⟩, fun r hr => hrest hrho.2 hr⟩
        rw [Bool.eq_false_iff.2 hb]
        exact List.mem_cons_self ..

theorem readRho_yields (c : Correlation) {present : List Bool}
    (hpresent : present.length = c.coefficientCount ∧ (false ∈ present → c.sparse)) :
    (c.readRho present).Yields fun rho => 0 < c.rhoLength → rho.length = c.coefficientCount ∧
      ∀ r ∈ rho, (!(c.sparse && isZero r)) = true → c.Holds r := by
  rw [readRho]
  refine .ite (fun _ => ?_) fun hnone => .pure fun hsome => absurd hsome hnone
  refine (readCoefficients_yields c.readCoefficient_yields present).imp fun rho hrho _ =>
    ⟨hrho.1.trans hpresent.1, fun r hr hsent => ?_⟩
  rcases hrho.2 r hr with hholds | ⟨rfl, habsent⟩
  · exact hholds
  · rw [hpresent.2 habsent] at hsent
    cases hsent

/-- A pack that is read describes entries before it. -/
theorem read_yields (preceding : List Tag) :
    (read preceding).Yields fun c => c.Readable ∧ ∀ tag ∈ c.members, tag ∈ preceding := by
  rw [read_eq]
  refine .after fun start => Ber.readTag_yields.bind fun n hn => ?_
  dsimp only
  refine .require fun hle => .after fun start => .after fun control => .after fun stop => ?_
  refine .require fun _ => .refuse fun hplain => ?_
  obtain ⟨hmembers, hsigmaLength, hrhoLength⟩ := ofControl_lengths
    (preceding.drop (preceding.length - n.toNat)) (stop - start == 2) control.toNat
  have hcount : (preceding.drop (preceding.length - n.toNat)).length = n.toNat := by
    rw [List.length_drop]
    omega
  have hpreceding : ∀ tag ∈ preceding.drop (preceding.length - n.toNat), tag ∈ preceding :=
    fun tag => List.mem_of_mem_drop
  rw [← hmembers] at hcount hpreceding
  generalize ofControl (preceding.drop (preceding.length - n.toNat)) (stop - start == 2)
    control.toNat = c at hplain hsigmaLength hrhoLength hcount hpreceding ⊢
  rw [readValues]
  refine c.readPresence_yields.bind fun present hpresent => ?_
  refine (c.readSigma_yields n.toNat).bind fun sigma hsigma => ?_
  refine (c.readRho_yields hpresent).bind fun rho hrho => .pure ?_
  exact ⟨⟨hcount ▸ hn, hplain, hsigmaLength, hrhoLength, fun h => hcount ▸ hsigma h, hrho⟩,
    hpreceding⟩

theorem check_eq_ok (h : Readable c) (hmembers : c.members ≠ []) : c.check = .ok () := by
  have hsigma : ¬ (0 < c.sigmaLength ∧ c.sigma.length ≠ c.members.length) := fun hbad =>
    hbad.2 (h.sigma hbad.1).1
  have hrho : ¬ (0 < c.rhoLength ∧ c.rho.length ≠ c.coefficientCount) := fun hbad =>
    hbad.2 (h.rho hbad.1).1
  have hlengths : ¬ (lengthLimit c.longControl < c.sigmaLength ∨
      lengthLimit c.longControl < c.rhoLength) :=
    not_or.2 ⟨Nat.not_lt.2 h.sigmaLength, Nat.not_lt.2 h.rhoLength⟩
  have hsome : ¬ c.members.length = 0 := fun hzero => hmembers (List.eq_nil_of_length_eq_zero hzero)
  rw [check]
  rw [if_neg hsome, if_neg h.plain, if_neg hlengths, if_neg hsigma, if_neg hrho]

theorem lengthLimit_le (long : Bool) : lengthLimit long ≤ 15 := by
  cases long <;> decide

theorem writeControl_succeeds (h : Readable c) : c.writeControl.Succeeds := by
  have hsigma := Nat.le_trans h.sigmaLength (lengthLimit_le _)
  have hrho := Nat.le_trans h.rhoLength (lengthLimit_le _)
  have hsparse := Bool.toNat_le c.sparse
  have hsigmaScaled := Bool.toNat_le c.sigmaScaled
  have hrhoScaled := Bool.toNat_le c.rhoScaled
  rw [writeControl]
  refine .ite (fun _ => ?_) fun _ => ?_
  · have hwrites := (Grid.writeNumber_writes (n := c.longControlValue) (by
      rw [longControlValue]
      omega)).succeeds
    exact .ite (fun _ => (Encoder.Writes.emit _).succeeds.bind hwrites) fun _ => hwrites
  · refine (Grid.writeNumber_writes ?_).succeeds
    rw [shortControl]
    omega

/-- A pack that was read can be written, if it is rewritable. -/
theorem write_succeeds (h : Readable c) (hrewritable : Rewritable c) : c.write.Succeeds := by
  have hrho : (if 0 < c.rhoLength then Encoder.each c.writeCoefficient
      (c.rho.filter fun r => !(c.sparse && isZero r)) else pure () : Encoder Unit).Succeeds := by
    refine .ite (fun hsome => .each fun r hr => ?_) fun _ => Encoder.Writes.pure.succeeds
    obtain ⟨hr, hsent⟩ := List.mem_filter.1 hr
    have hholds := (h.rho hsome).2 r hr hsent
    rw [Holds] at hholds
    rw [writeCoefficient]
    by_cases hscaled : c.rhoScaled
    · rw [if_pos hscaled] at hholds ⊢
      exact (Imap.write_writes hholds (hrewritable.rescales hscaled hsome r hr hsent)).succeeds
    · rw [if_neg hscaled] at hholds ⊢
      obtain ⟨x, rfl, hx⟩ := hholds
      exact .ofExcept rfl (Floating.write_writes hx).succeeds
  have hsigma : (if 0 < c.sigmaLength then
      Encoder.each (fun s => do
        Floating.write (← Encoder.ofExcept s.requireFloat) c.sigmaLength) c.sigma >>= fun _ =>
          (if 0 < c.rhoLength then Encoder.each c.writeCoefficient
            (c.rho.filter fun r => !(c.sparse && isZero r)) else pure ())
      else if 0 < c.rhoLength then Encoder.each c.writeCoefficient
        (c.rho.filter fun r => !(c.sparse && isZero r)) else pure () : Encoder Unit).Succeeds := by
    refine .ite (fun hsome => .bind (.each fun s hs => ?_) hrho) fun _ => hrho
    obtain ⟨x, rfl, hx⟩ := (h.sigma hsome).2 s hs
    exact .ofExcept rfl (Floating.write_writes hx).succeeds
  rw [write]
  refine .ofExcept (check_eq_ok h hrewritable.members) ?_
  refine (Grid.writeNumber_writes h.few).succeeds.bind ((writeControl_succeeds h).bind ?_)
  exact .ite (fun _ => (Encoder.Writes.emit _).succeeds.bind hsigma) fun _ => hsigma

theorem mapM_members (members : List Tag) :
    (members.map Value.uint).mapM (fun m => Value.inside "members" m.requireUint) =
      .ok members := by
  induction members with
  | nil => rfl
  | cons tag rest ih =>
      rw [List.map_cons, List.mapM_cons, ih]
      rfl

theorem membersOf_toValue (c : Correlation) : membersOf c.toValue = .ok c.members :=
  mapM_members c.members

/-- The record of a pack is that pack again, if its lengths are small. -/
theorem ofValue_toValue (hsigma : c.sigmaLength ≤ 15) (hrho : c.rhoLength ≤ 15) :
    ofValue c.toValue = .ok c := by
  have hsigma' : (UInt64.ofNat c.sigmaLength).toNat = c.sigmaLength := by
    rw [UInt64.toNat_ofNat']
    omega
  have hrho' : (UInt64.ofNat c.rhoLength).toNat = c.rhoLength := by
    rw [UInt64.toNat_ofNat']
    omega
  have hrecord : ofValue c.toValue = .ok { c with
      sigmaLength := (UInt64.ofNat c.sigmaLength).toNat
      rhoLength := (UInt64.ofNat c.rhoLength).toNat } := by
    rw [ofValue, membersOf_toValue]
    rfl
  rw [hrecord, hsigma', hrho']

end Correlation

namespace Codec

theorem correlation_passes (preceding : List Tag) :
    (correlation preceding).Passes fun v _ =>
      ∀ c, Correlation.ofValue v = .ok c → c.Rewritable := by
  refine passes_of_takes (fun _ => ?_) fun _ _ => rfl
  refine (Correlation.read_yields preceding).bind fun c hread => .pure fun hsound => ?_
  obtain ⟨hc, _⟩ := hread
  have hvalue : Correlation.ofValue c.toValue = .ok c :=
    Correlation.ofValue_toValue (Nat.le_trans hc.sigmaLength (Correlation.lengthLimit_le _))
      (Nat.le_trans hc.rhoLength (Correlation.lengthLimit_le _))
  obtain ⟨bytes, hbytes⟩ := (Correlation.write_succeeds hc (hsound c hvalue)).bytes
  exact ⟨_, takes_of_record hvalue hbytes rfl rfl fun _ => rfl, fun _ h => nomatch h⟩

end Codec

end MotionMetadata
