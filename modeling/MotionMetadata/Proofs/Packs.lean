import MotionMetadata.Format
import MotionMetadata.Proofs.Arrays
import MotionMetadata.Proofs.Forwarding
import MotionMetadata.Proofs.Locality

/-!
# Packs that can be written again

One lemma for each kind of pack. Those of whole numbers take whatever they yield: every check
of their writers is one that the bits they were read from pass. The others are as good as the
parts that they are made of, so a pack of scaled numbers or of arrays asks for what its parts
ask for.

Two packs ask for more. A correlation pack that describes no entries is read but not written,
and so is a section of a range image whose place is left empty.
-/

namespace MotionMetadata

namespace Encoder

/-- A sequence that does not go on under a condition. -/
theorem Writes.refuse {p : Prop} [Decidable p] {x : Encoder Unit} {fault : Fault} {n : Nat}
    (hp : ¬ p) (hx : x.Writes n) :
    (if p then raise fault >>= fun (_ : Unit) => x else x).Writes n := by
  rw [if_neg hp]
  exact hx

end Encoder

/-! ## Fields by name -/

namespace Value

variable {ι : Type} {name : ι → String} {P : ι → Value → Prop} {items : List ι}
variable {before fields after : List (String × Value)}

/-- Fields that were read one after another, each under the name of its item. -/
inductive Named (name : ι → String) (P : ι → Value → Prop) :
    List ι → List (String × Value) → Prop where
  | nil : Named name P [] []
  | cons {i : ι} {v : Value} {items : List ι} {fields : List (String × Value)} (hv : P i v)
      (hrest : Named name P items fields) : Named name P (i :: items) ((name i, v) :: fields)

theorem field?_append {place : String} {v : Value} (h : (record fields).field? place = some v)
    (after : List (String × Value)) : (record (fields ++ after)).field? place = some v := by
  obtain ⟨f, hf, rfl⟩ := Option.map_eq_some_iff.1 h
  rw [field?, List.find?_append, hf]
  rfl

/-- Fields before it do not matter to a field, if they have other names. -/
theorem field?_behind {place : String} (h : place ∉ before.map (·.1)) :
    (record (before ++ fields)).field? place = (record fields).field? place := by
  have hnone : before.find? (·.1 == place) = none := by
    rw [List.find?_eq_none]
    intro f hf heq
    exact h (List.mem_map.2 ⟨f, hf, eq_of_beq heq⟩)
  rw [field?, field?, List.find?_append, hnone, Option.none_or]

theorem Named.names (h : Named name P items fields) : fields.map (·.1) = items.map name := by
  induction h with
  | nil => rfl
  | cons _ _ ih => rw [List.map_cons, List.map_cons, ih]

/-- They are found by their names, if these differ. -/
theorem Named.field? (h : Named name P items fields) (hnames : (items.map name).Nodup) :
    ∀ i ∈ items, ∃ v, (record fields).field? (name i) = some v ∧ P i v := by
  induction h with
  | nil => exact fun _ hi => nomatch hi
  | @cons i v rest others hv _ ih =>
      rw [List.map_cons, List.nodup_cons] at hnames
      intro j hj
      rcases List.mem_cons.1 hj with rfl | hj
      · refine ⟨v, ?_, hv⟩
        rw [Value.field?, List.find?_cons, beq_self_eq_true]
        rfl
      · obtain ⟨w, hw, hPw⟩ := ih hnames.2 j hj
        refine ⟨w, ?_, hPw⟩
        have hne : name j ∉ [(name i, v)].map (·.1) := by
          rw [List.map_singleton, List.mem_singleton]
          intro heq
          exact hnames.1 (List.mem_map.2 ⟨j, hj, heq⟩)
        exact (field?_behind hne).trans hw

theorem Named.field?_behind (h : Named name P items fields) (hnames : (items.map name).Nodup)
    (hbefore : ∀ place ∈ items.map name, place ∉ before.map (·.1)) :
    ∀ i ∈ items, ∃ v, (record (before ++ fields)).field? (name i) = some v ∧ P i v := by
  intro i hi
  obtain ⟨v, hv, hP⟩ := h.field? hnames i hi
  exact ⟨v, (Value.field?_behind (hbefore _ (List.mem_map_of_mem hi))).trans hv, hP⟩

theorem field_of_field? {place : String} {v : Value}
    (h : (record fields).field? place = some v) : (record fields).field place = .ok v := by
  rw [field, h]

theorem optionalField_record (place : String) :
    (record fields).optionalField place =
      .ok (((record fields).field? place).filter fun v => !v.isEmpty) := rfl

theorem uintField_of_field? {place : String} {n : UInt64}
    (h : (record fields).field? place = some (.uint n)) :
    (record fields).uintField place = .ok n := by
  rw [uintField, field_of_field? h]
  rfl

theorem requireUint_eq_ok {v : Value} {n : UInt64} (h : v.requireUint = .ok n) :
    v = .uint n := by
  cases v <;> cases h
  rfl

theorem requireBool_eq_ok {v : Value} {b : Bool} (h : v.requireBool = .ok b) :
    v = .bool b := by
  cases v <;> cases h
  rfl

theorem imapField_of_field? {place : String} {v : Value} {x : Imap}
    (h : (record fields).field? place = some v) (hx : v.requireImap = .ok x) :
    (record fields).imapField place = .ok x := by
  rw [imapField, field_of_field? h]
  show Value.inside place v.requireImap = _
  rw [hx]
  rfl

theorem field_eq_ok {v content : Value} {name : String} (h : v.field name = .ok content) :
    v.field? name = some content := by
  match v, h with
  | record fields, h =>
      rw [field] at h
      split at h
      · next hfield =>
          injection h with h
          rw [hfield, h]
      · cases h

/-- A field that was asked for holds what it was asked for. -/
theorem fieldOf_eq_ok {α : Type} {v : Value} {name : String}
    {require : Value → Except Error α} {f : α → Value} {a : α}
    (hrequire : ∀ {v a}, require v = .ok a → v = f a)
    (h : (do inside name (require (← v.field name))) = .ok a) : v.field? name = some (f a) := by
  obtain ⟨content, hcontent, hinside⟩ := except_bind_eq_ok.1 h
  rw [field_eq_ok hcontent]
  cases hok : require content with
  | error e =>
      rw [hok] at hinside
      cases hinside
  | ok b =>
      rw [hok] at hinside
      injection hinside with hinside
      rw [hrequire hok, hinside]

theorem uintField_eq_ok {v : Value} {name : String} {n : UInt64} (h : v.uintField name = .ok n) :
    v.field? name = some (.uint n) := fieldOf_eq_ok requireUint_eq_ok h

theorem requireString_eq_ok {v : Value} {s : String} (h : v.requireString = .ok s) :
    v = .string s := by
  cases v <;> cases h
  rfl

theorem stringField_eq_ok {v : Value} {name s : String} (h : v.stringField name = .ok s) :
    v.field? name = some (.string s) := fieldOf_eq_ok requireString_eq_ok h

end Value

namespace Codec

variable {codec : Codec} {v : Value}

/-! ## Packs of whole numbers -/

/-- The two parts of a byte are small enough, and make the byte. -/
theorem userData_parts (b : UInt8) :
    ¬ (3 < UInt64.ofNat (b.toNat / 64) ∨ 63 < UInt64.ofNat (b.toNat % 64)) ∧
      (UInt64.ofNat (b.toNat / 64) * 64 + UInt64.ofNat (b.toNat % 64)).toNat = b.toNat := by
  have hb := b.toNat_lt
  have htype : (UInt64.ofNat (b.toNat / 64)).toNat = b.toNat / 64 := by
    rw [UInt64.toNat_ofNat']
    omega
  have hid : (UInt64.ofNat (b.toNat % 64)).toNat = b.toNat % 64 := by
    rw [UInt64.toNat_ofNat']
    omega
  simp only [UInt64.lt_iff_toNat_lt, UInt64.toNat_add, UInt64.toNat_mul, htype, hid,
    UInt64.reduceToNat]
  omega

theorem userData_passes : userData.Passes fun _ _ => True := by
  refine passes_of_takes (fun _ => ?_) fun _ _ => rfl
  refine .after fun b => .pure fun _ => ⟨1, ⟨rfl, rfl, ?_⟩, fun k hk => (Option.some.inj hk).symm⟩
  obtain ⟨hsmall, hsum⟩ := userData_parts b
  refine .ofExcept rfl (.ofExcept rfl (.refuse hsmall ?_))
  exact Integer.writeUnsigned_writes (by decide) (hsum.trans_lt b.toNat_lt)

theorem detectorIndex_passes : detectorIndex.Passes fun _ _ => True := by
  refine passes_of_takes (fun _ => ?_) fun _ _ => rfl
  refine .after fun row => .after fun column => .pure fun _ =>
    ⟨2, ⟨rfl, rfl, ?_⟩, fun k hk => (Option.some.inj hk).symm⟩
  have hbyte : ∀ b : UInt8, (Integer.writeUnsigned b.toUInt64 1).Writes 1 := fun b =>
    Integer.writeUnsigned_writes (by decide) b.toNat_lt
  exact .ofExcept rfl ((hbyte row).bind (.ofExcept rfl (hbyte column)))

theorem metricPeriod_passes : metricPeriod.Passes fun _ _ => True := by
  refine passes_of_takes (fun _ => ?_) fun _ _ => rfl
  refine (Integer.readUnsigned_yields _).bind fun timestamp htimestamp => ?_
  refine (Integer.readUnsigned_yields _).bind fun offset hoffset => .pure fun _ =>
    ⟨12, ⟨rfl, rfl, ?_⟩, fun k hk => (Option.some.inj hk).symm⟩
  exact .ofExcept rfl ((Integer.writeUnsigned_writes htimestamp.1 htimestamp.2).bind
    (.ofExcept rfl (Integer.writeUnsigned_writes hoffset.1 hoffset.2)))

/-- The three parts of some bits are small enough, and make the last seven of them. -/
theorem rangeEnumerations_parts (n : Nat) :
    ¬ (7 < UInt64.ofNat (n % 8) ∨ 7 < UInt64.ofNat (n / 8 % 8) ∨ 1 < UInt64.ofNat (n / 64 % 2)) ∧
      (UInt64.ofNat (n / 64 % 2) * 64 + UInt64.ofNat (n / 8 % 8) * 8 +
        UInt64.ofNat (n % 8)).toNat = n % 128 := by
  have hmethod : (UInt64.ofNat (n % 8)).toNat = n % 8 := by
    rw [UInt64.toNat_ofNat']
    omega
  have htype : (UInt64.ofNat (n / 8 % 8)).toNat = n / 8 % 8 := by
    rw [UInt64.toNat_ofNat']
    omega
  have hsource : (UInt64.ofNat (n / 64 % 2)).toNat = n / 64 % 2 := by
    rw [UInt64.toNat_ofNat']
    omega
  simp only [UInt64.lt_iff_toNat_lt, UInt64.toNat_add, UInt64.toNat_mul, hmethod, htype, hsource,
    UInt64.reduceToNat]
  omega

theorem rangeEnumerations_passes : rangeEnumerations.Passes fun _ _ => True := by
  refine passes_of_takes (fun _ => ?_) fun _ _ => rfl
  refine .after fun bits => .pure fun _ =>
    ⟨1, ⟨rfl, rfl, ?_⟩, fun k hk => (Option.some.inj hk).symm⟩
  obtain ⟨hsmall, hsum⟩ := rangeEnumerations_parts bits.toNat
  have hlt := hsum.trans_lt (Nat.mod_lt bits.toNat (show 0 < 2 ^ 7 by decide))
  have hwrites := Ber.writeTag_writes (Nat.lt_trans hlt (by decide))
  have hwidth := Nat.le_antisymm (Ber.tagWidth_le_iff.2 ⟨Nat.le_refl 1, hlt⟩) (Nat.le_max_left ..)
  rw [hwidth] at hwrites
  exact .ofExcept rfl (.ofExcept rfl (.ofExcept rfl (.refuse hsmall hwrites)))

end Codec

namespace WindowCorners

theorem readCorners_yields (names : List String) :
    (readCorners names).Yields
      (Value.Named (fun name => name) (fun _ v => ∃ n, v = .uint n ∧ n.toNat < 2 ^ 56) names) := by
  induction names with
  | nil => exact .pure .nil
  | cons name rest ih =>
      rw [readCorners]
      have hone : (readCorner name).Yields fun f =>
          ∃ n, f = (name, .uint n) ∧ n.toNat < 2 ^ 56 := by
        rw [readCorner]
        refine .after fun _ => Ber.readTag_yields.bind fun n hn => ?_
        dsimp only
        exact .refuse fun _ => .pure ⟨n, rfl, hn⟩
      refine hone.bind fun f hf => ih.bind fun fields hfields => .pure ?_
      obtain ⟨n, rfl, hn⟩ := hf
      exact .cons ⟨n, rfl, hn⟩ hfields

/-- Corners that are small enough are written in the length that is worked out for them. -/
theorem write_writes {value : Value} {names : List String} (total : Nat)
    (h : ∀ name ∈ names, ∃ n, value.uintField name = .ok n ∧ n.toNat < 2 ^ 56) :
    ∃ n, names.foldlM (fun total name => return total + Ber.tagWidth (← value.uintField name))
        total = .ok (total + n) ∧
      (Encoder.each (fun name => do
        Ber.writeTag (← Encoder.ofExcept (value.uintField name))) names).Writes n := by
  induction names generalizing total with
  | nil => exact ⟨0, rfl, .pure⟩
  | cons name rest ih =>
      obtain ⟨hname, hrest⟩ := List.forall_mem_cons.1 h
      obtain ⟨v, hv, hlt⟩ := hname
      obtain ⟨n, hn, hwrites⟩ := ih (total + Ber.tagWidth v) hrest
      refine ⟨Ber.tagWidth v + n, ?_, (Encoder.Writes.ofExcept hv (Ber.writeTag_writes hlt)).bind
        hwrites⟩
      rw [List.foldlM_cons, hv, ← Nat.add_assoc]
      exact hn

end WindowCorners

theorem MetricImplementer.write_writes {value : Value} {organization : String}
    {subgroup : Option String} (horganization : value.stringField "organization" = .ok organization)
    (hsubgroup : subgroupOf value = .ok subgroup) :
    ∃ n, naturalLength value = .ok n ∧ (write value).Writes n := by
  rw [naturalLength, write, horganization, hsubgroup]
  refine ⟨_, rfl, .ofExcept rfl ((Encoder.Writes.emit _).bind (.ofExcept rfl ?_))⟩
  cases subgroup with
  | none => exact .pure
  | some s =>
      dsimp only
      rw [Nat.add_comm]
      exact .emit _

namespace Codec

theorem windowCorners_passes : windowCorners.Passes fun _ _ => True := by
  refine passes_of_takes (fun _ => ?_) fun _ _ => rfl
  refine (WindowCorners.readCorners_yields WindowCorners.fields).bind fun fields hfields =>
    .pure fun _ => ?_
  have hcorner : ∀ name ∈ WindowCorners.fields, ∃ n,
      (Value.record fields).uintField name = .ok n ∧ n.toNat < 2 ^ 56 := by
    intro name hname
    obtain ⟨v, hv, n, rfl, hlt⟩ := hfields.field? (by decide) name hname
    exact ⟨n, Value.uintField_of_field? hv, hlt⟩
  obtain ⟨n, hn, hwrites⟩ := WindowCorners.write_writes 0 hcorner
  rw [Nat.zero_add] at hn
  exact ⟨n, ⟨rfl, hn, hwrites⟩, fun _ h => nomatch h⟩

theorem metricImplementer_passes : metricImplementer.Passes fun _ _ => True := by
  refine passes_of_takes (fun length => ?_) fun _ _ => rfl
  show (MetricImplementer.read length).Yields _
  rw [MetricImplementer.read]
  refine .after fun start => .after fun bytes => ?_
  cases Text.Utf8.decode bytes with
  | error f => exact .raiseAt _ _
  | ok text =>
      refine .pure fun _ => ?_
      have hforwards : ∀ subgroup s, MetricImplementer.subgroupOf (.record
          [("organization", .string (String.ofList (MetricImplementer.split text.toList).1)),
            ("subgroup", subgroup)]) = .ok s → _ :=
        fun _ _ hs => MetricImplementer.write_writes rfl hs
      cases (MetricImplementer.split text.toList).2 with
      | none =>
          obtain ⟨n, hn, hwrites⟩ := hforwards .empty _ rfl
          exact ⟨n, ⟨rfl, hn, hwrites⟩, fun _ h => by cases h⟩
      | some subgroup =>
          obtain ⟨n, hn, hwrites⟩ := hforwards (.string (String.ofList subgroup)) _ rfl
          exact ⟨n, ⟨rfl, hn, hwrites⟩, fun _ h => by cases h⟩

end Codec

/-! ## Packs of scaled numbers -/

namespace ScaledField

variable {fields : List ScaledField} {value : Value}

/-- The numbers in some fields of a record find back to integers of their widths. -/
def Rescale (value : Value) (fields : List ScaledField) : Prop :=
  ∀ f ∈ fields, ∀ v, value.field? f.name = some v → Imap.Rescales f.low f.high f.width v

/-- Fields that were read together. -/
abbrev Read (fields : List ScaledField) : List (String × Value) → Prop :=
  Value.Named (fun f : ScaledField => f.name)
    (fun f v => Imap.IsScaled f.low f.high f.width v) fields

theorem readAll_yields (fields : List ScaledField) : (readAll fields).Yields (Read fields) := by
  induction fields with
  | nil => exact .pure .nil
  | cons f rest ih =>
      rw [readAll]
      have hone : f.read.Yields fun field =>
          ∃ x, field = (f.name, .ofImap x) ∧ Imap.IsScaled f.low f.high f.width (.ofImap x) :=
        (Imap.read_yields f.low f.high f.width).bind fun x hx => .pure ⟨x, rfl, hx⟩
      refine hone.bind fun field hfield => ih.bind fun others hothers => .pure ?_
      obtain ⟨x, rfl, hx⟩ := hfield
      exact .cons hx hothers

/-- Fields that are found by their names are written one after another. -/
theorem write_writes {values : List (String × Value)}
    (h : ∀ f ∈ fields, ∃ v, (Value.record values).field? f.name = some v ∧
      Imap.IsScaled f.low f.high f.width v)
    (hrescale : Rescale (.record values) fields) :
    check (.record values) fields = .ok () ∧
      (Encoder.each (write (.record values)) fields).Writes (fields.map (·.width)).sum := by
  have hfield : ∀ f ∈ fields, ∃ x, (Value.record values).imapField f.name = .ok x ∧
      (Imap.write x f.low f.high f.width).Writes f.width := by
    intro f hf
    obtain ⟨v, hv, hscaled⟩ := h f hf
    obtain ⟨x, hx, hwrites⟩ := Imap.exists_write_writes hscaled (hrescale f hf v hv)
    exact ⟨x, Value.imapField_of_field? hv hx, hwrites⟩
  constructor
  · rw [check]
    clear h hrescale
    induction fields with
    | nil => rfl
    | cons f rest ih =>
        obtain ⟨⟨x, hx, _⟩, hrest⟩ := List.forall_mem_cons.1 hfield
        show ((do let _ ← (Value.record values).imapField f.name; pure ()) >>= fun _ =>
          check (.record values) rest) = .ok ()
        rw [hx]
        exact ih hrest
  · refine .each fun f hf => ?_
    obtain ⟨x, hx, hwrites⟩ := hfield f hf
    exact .ofExcept hx hwrites

end ScaledField

namespace Position

/-- The numbers of a pack find back to integers of their widths, those of its deviations and
correlations as well as its own. -/
structure Rewritable (p : Position) (value : Value) : Prop where
  head : ScaledField.Rescale value p.head
  sigma : ∀ triple, value.field? "sigma" = some triple → ScaledField.Rescale triple sigma
  rho : ∀ triple, value.field? "rho" = some triple → ScaledField.Rescale triple rho

/-- Three more numbers, or none. -/
def IsTriple (fields : List ScaledField) (triple : Value) : Prop :=
  triple = .empty ∨ ∃ values, triple = .record values ∧ ScaledField.Read fields values

theorem readTriple_yields (fields : List ScaledField) :
    (readTriple fields).Yields (IsTriple fields) := by
  rw [readTriple]
  refine .after fun left => .ite (fun _ => ?_) fun _ => .pure (.inl rfl)
  exact (ScaledField.readAll_yields fields).bind fun values hvalues =>
    .pure (.inr ⟨values, rfl, hvalues⟩)

/-- Three more numbers are written if they are there. -/
theorem writeTriple_writes {fields : List ScaledField} {triple : Value}
    (hnames : (fields.map (·.name)).Nodup) (hwidth : (fields.map (·.width)).sum = tripleLength)
    (h : IsTriple fields triple) (hrescale : ScaledField.Rescale triple fields) :
    ∃ n, lengthOfTriple fields ((some triple).filter fun v => !v.isEmpty) = .ok n ∧
      (writeTriple fields ((some triple).filter fun v => !v.isEmpty)).Writes n := by
  rcases h with rfl | ⟨values, rfl, hread⟩
  · exact ⟨0, rfl, .pure⟩
  · obtain ⟨hcheck, hwrites⟩ := ScaledField.write_writes (hread.field? hnames) hrescale
    rw [hwidth] at hwrites
    refine ⟨tripleLength, ?_, hwrites⟩
    show (do ScaledField.check (.record values) fields; return tripleLength) = _
    rw [hcheck]
    rfl

/-- The deviations and correlations of a record are written in the lengths that are worked out
for them, be they there or dropped. -/
theorem triples_write {p : Position} {values : List (String × Value)}
    {deviations correlations : Value}
    (hsigma : (Value.record values).field? "sigma" = some deviations)
    (hrho : (Value.record values).field? "rho" = some correlations)
    (hdeviations : IsTriple sigma deviations) (hcorrelations : IsTriple rho correlations)
    (hrewritable : p.Rewritable (.record values)) :
    ∃ d c n m, triplesOf (.record values) = .ok (d, c) ∧
      (lengthOfTriple sigma d = .ok n ∧ (writeTriple sigma d).Writes n) ∧
      (lengthOfTriple rho c = .ok m ∧ (writeTriple rho c).Writes m) := by
  obtain ⟨n, hn⟩ := writeTriple_writes (by decide) (by decide) hdeviations
    (hrewritable.sigma _ hsigma)
  obtain ⟨m, hm⟩ := writeTriple_writes (by decide) (by decide) hcorrelations
    (hrewritable.rho _ hrho)
  rw [triplesOf, Value.optionalField_record, Value.optionalField_record, hsigma, hrho]
  show ∃ d c n m, Except.ok (if ((some deviations).filter fun v => !v.isEmpty).isNone then
      (none, none) else ((some deviations).filter fun v => !v.isEmpty,
        (some correlations).filter fun v => !v.isEmpty)) = Except.ok (d, c) ∧ _
  split
  · exact ⟨none, none, 0, 0, rfl, ⟨rfl, .pure⟩, ⟨rfl, .pure⟩⟩
  · exact ⟨_, _, n, m, rfl, hn, hm⟩

end Position

namespace Codec

theorem position_passes (p : Position) : (position p).Passes fun v _ => p.Rewritable v := by
  refine passes_of_takes (fun _ => ?_) fun _ _ => rfl
  refine (ScaledField.readAll_yields p.head).bind fun first hfirst => ?_
  refine (Position.readTriple_yields Position.sigma).bind fun deviations hdeviations => ?_
  refine (Position.readTriple_yields Position.rho).bind fun correlations hcorrelations => ?_
  refine .pure fun hrewritable => ?_
  have hnames : (p.head.map (·.name)).Nodup ∧ "sigma" ∉ p.head.map (·.name) ∧
      "rho" ∉ p.head.map (·.name) := by
    cases p <;> decide
  rw [← hfirst.names] at hnames
  obtain ⟨hdistinct, hsigma, hrho⟩ := hnames
  rw [hfirst.names] at hdistinct
  obtain ⟨hcheck, hwrites⟩ := ScaledField.write_writes (fun f hf =>
    (hfirst.field? hdistinct f hf).imp fun v hv => ⟨Value.field?_append hv.1 _, hv.2⟩)
    hrewritable.head
  have hhead : (p.head.map (·.width)).sum = p.headLength := by cases p <;> rfl
  rw [hhead] at hwrites
  obtain ⟨d, c, n, m, htriples, ⟨hn, hwritesSigma⟩, hm, hwritesRho⟩ := Position.triples_write
    (Value.field?_behind hsigma) (Value.field?_behind hrho) hdeviations hcorrelations hrewritable
  generalize first ++ [("sigma", deviations), ("rho", correlations)] = values at *
  refine ⟨p.headLength + n + m, ⟨rfl, ?_, ?_⟩, fun _ h => nomatch h⟩
  · show p.naturalLength (.record values) = _
    rw [Position.naturalLength, hcheck, htriples]
    show (do
      let n ← Position.lengthOfTriple Position.sigma d
      let m ← Position.lengthOfTriple Position.rho c
      return p.headLength + n + m) = _
    rw [hn, hm]
    rfl
  · show (p.write (.record values)).Writes _
    rw [Nat.add_assoc]
    exact hwrites.bind (.ofExcept htriples (hwritesSigma.bind hwritesRho))

end Codec

/-! ## Identifiers -/

namespace Identity

/-- An identifier is as long as all are where there is one, and empty where there is none. -/
def Holds (item : String × Bool) (v : Value) : Prop :=
  if item.2 then ∃ bytes, v = .blob bytes ∧ bytes.length = uuidLength else v = .empty

theorem readIds_yields (items : List (String × Bool)) :
    (readIds items).Yields (Value.Named (·.1) Holds items) := by
  induction items with
  | nil => exact .pure .nil
  | cons item rest ih =>
      obtain ⟨name, present⟩ := item
      rw [readIds]
      refine .ite (fun hpresent => ?_) fun habsent => ?_
      · refine .bind (P := fun v => ∃ bytes, v = .blob bytes ∧ bytes.length = uuidLength)
          (.map ((Reader.Yields.take _).imp fun bytes hbytes => ⟨bytes, rfl, hbytes⟩)) ?_
        refine fun v hv => ih.bind fun others hothers =>
          .pure (.cons (i := (name, present)) ?_ hothers)
        exact (if_pos hpresent).mpr hv
      · refine ih.bind fun others hothers => .pure (.cons (i := (name, present)) ?_ hothers)
        exact (if_neg habsent).mpr rfl

theorem idOf_eq_ok {fields : List (String × Value)} {item : String × Bool} {v : Value}
    (hv : (Value.record fields).field? item.1 = some v) (hholds : Holds item v) :
    ∃ id, idOf (.record fields) item.1 = .ok id ∧ id.isSome = item.2 ∧
      ∀ bytes ∈ id, bytes.length = uuidLength := by
  obtain ⟨name, present⟩ := item
  rw [idOf, Value.optionalField_record, hv]
  cases present with
  | true =>
      obtain ⟨bytes, rfl, hlength⟩ := hholds
      refine ⟨some bytes, if_pos hlength, rfl, fun other hother => ?_⟩
      exact Option.some.inj hother ▸ hlength
  | false =>
      obtain rfl : v = .empty := hholds
      exact ⟨none, rfl, rfl, nofun⟩

/-- The identifiers of a record are there as their places say. -/
theorem mapM_idOf {value : Value} {items : List (String × Bool)}
    (h : ∀ item ∈ items, ∃ id, idOf value item.1 = .ok id ∧ id.isSome = item.2 ∧
      ∀ bytes ∈ id, bytes.length = uuidLength) :
    ∃ ids, (items.map (·.1)).mapM (idOf value) = .ok ids ∧
      ids.map Option.isSome = items.map (·.2) ∧
        ∀ bytes ∈ ids.filterMap id, bytes.length = uuidLength := by
  induction items with
  | nil => exact ⟨[], rfl, rfl, nofun⟩
  | cons item rest ih =>
      obtain ⟨⟨id, hid, hpresent, hlength⟩, hrest⟩ := List.forall_mem_cons.1 h
      obtain ⟨ids, hids, hpresents, hlengths⟩ := ih hrest
      refine ⟨id :: ids, ?_, ?_, fun bytes hbytes => ?_⟩
      · rw [List.map_cons, List.mapM_cons, hid, hids]
        rfl
      · rw [List.map_cons, List.map_cons, hpresent, hpresents]
      · obtain ⟨other, hother, hsome⟩ := List.mem_filterMap.1 hbytes
        rcases List.mem_cons.1 hother with rfl | hother
        · exact hlength bytes hsome
        · exact hlengths bytes (List.mem_filterMap.2 ⟨other, hother, hsome⟩)

theorem idsOf_eq_ok {items : List (String × Bool)} {named : List (String × Value)}
    (before : List (String × Value)) (hitems : items.map (·.1) = idFields)
    (hbefore : ∀ place ∈ idFields, place ∉ before.map (·.1))
    (hnamed : Value.Named (·.1) Holds items named) :
    ∃ ids, idsOf (.record (before ++ named)) = .ok ids ∧
      ids.map Option.isSome = items.map (·.2) ∧
        ∀ bytes ∈ ids.filterMap id, bytes.length = uuidLength := by
  rw [← hitems] at hbefore
  have hnames : (items.map (·.1)).Nodup := by
    rw [hitems]
    decide
  rw [idsOf, ← hitems]
  refine mapM_idOf fun item hitem => ?_
  obtain ⟨v, hv, hholds⟩ := hnamed.field?_behind hnames hbefore item hitem
  exact idOf_eq_ok hv hholds

theorem checkUsage_eq_ok {sensor platform : UInt64} {window minor : Bool}
    {ids : List (Option Bytes)}
    (h : ids.map Option.isSome = [sensor != 0, platform != 0, window, minor]) :
    checkUsage sensor platform ids = .ok () := by
  match ids, h with
  | [_], h => cases (List.cons.inj h).2
  | first :: second :: _, h =>
      injection h with hfirst h
      injection h with hsecond _
      refine if_neg ?_
      show ¬ (((sensor != 0) != first.isSome) || ((platform != 0) != second.isSome)) = true
      rw [hfirst, hsecond, bne_self_eq_false, bne_self_eq_false]
      exact Bool.false_ne_true

end Identity

namespace Codec

theorem identity_passes : identity.Passes fun _ _ => True := by
  refine passes_of_takes (fun _ => ?_) fun _ _ => rfl
  refine .after fun version => .after fun usage => ?_
  dsimp only
  have hsmall : ∀ k < 4, (UInt64.ofNat k != 0) = (k != 0) ∧ ¬ 3 < UInt64.ofNat k := by decide
  obtain ⟨hsensor, hsensorSmall⟩ := hsmall (usage.toNat / 2 ^ 5 % 4) (Nat.mod_lt _ (by decide))
  obtain ⟨hplatform, hplatformSmall⟩ := hsmall (usage.toNat / 2 ^ 3 % 4) (Nat.mod_lt _ (by decide))
  rw [← hsensor, ← hplatform]
  generalize UInt64.ofNat (usage.toNat / 2 ^ 5 % 4) = sensor at *
  generalize UInt64.ofNat (usage.toNat / 2 ^ 3 % 4) = platform at *
  refine (Identity.readIds_yields _).bind fun named hnamed => .pure fun _ => ?_
  have hbefore : ∀ place ∈ Identity.idFields,
      place ∉ ["version", "sensor_id_type", "platform_id_type"] := by decide
  obtain ⟨ids, hids, hpresent, hlength⟩ := Identity.idsOf_eq_ok
    [("version", .uint version.toUInt64), ("sensor_id_type", .uint sensor),
      ("platform_id_type", .uint platform)] rfl hbefore hnamed
  have hversion : (Integer.writeUnsigned version.toUInt64 1).Writes 1 :=
    Integer.writeUnsigned_writes (by decide) version.toNat_lt
  have husage := Encoder.Writes.emit [Identity.usageByte sensor platform ids]
  have hwriteIds : (Encoder.each Encoder.emit (ids.filterMap id)).Writes
      ((ids.filterMap id).length * Identity.uuidLength) :=
    .each_const fun bytes hbytes => hlength bytes hbytes ▸ .emit bytes
  have hwrites := hversion.bind (husage.bind hwriteIds)
  rw [← Nat.add_assoc] at hwrites
  refine ⟨2 + (ids.filterMap id).length * Identity.uuidLength, ⟨rfl, ?_, ?_⟩, fun _ h => nomatch h⟩
  · exact except_bind_eq_ok.2 ⟨ids, hids, rfl⟩
  · refine .ofExcept rfl (.ofExcept rfl (.refuse (not_or.2 ⟨hsensorSmall, hplatformSmall⟩) ?_))
    exact .ofExcept hids (.ofExcept (Identity.checkUsage_eq_ok hpresent) (.ofExcept rfl hwrites))

end Codec

end MotionMetadata
