import MotionMetadata.Proofs.Spellings

/-!
# What is read as a set

A set is what splits into fields: a key, a length and that many bytes, over and over, to the
very end. Where the pieces are is decided by the keys and the lengths alone, so a string
splits in one way or not at all, and nothing that is wrong inside a value moves the fields
behind it. `Splits` says this without the reader, and `DecodesTo` says what becomes of the
fields: each value is what the codec of its key, bound to the tags before it, makes of its own
bytes.

The reader is compared with both, entry by entry in either direction. What it answers for a
string that splits can only go wrong in a field that nests too deep, and what it answers at
all comes from a string that splits.
-/

namespace MotionMetadata.FieldSet

variable {κ : Type}

/-- A field of a set as it is spelled: its key, the length of its value, and the value. -/
structure RawField (κ : Type) where
  key : κ
  spelling : Bytes
  header : Bytes
  content : Bytes

namespace RawField

def bytes (f : RawField κ) : Bytes := f.spelling ++ (f.header ++ f.content)

theorem length_bytes (f : RawField κ) :
    f.bytes.length = f.spelling.length + f.header.length + f.content.length := by
  rw [bytes, List.length_append, List.length_append, Nat.add_assoc]

/-- The key and the length are spelled so that they are read. -/
structure Spelled [SetKey κ] [ReadableKey κ] (f : RawField κ) : Prop where
  key : ReadableKey.Spells f.key f.spelling
  header : Ber.LengthSpelling f.content.length f.header

end RawField

/-- The bytes are the fields, one after another and nothing else. -/
structure Splits [SetKey κ] [ReadableKey κ] (w : Bytes) (fields : List (RawField κ)) : Prop where
  spelled : ∀ f ∈ fields, f.Spelled
  bytes : w = fields.flatMap RawField.bytes

section Meaning

variable [SetKey κ]

/-- The codec of a key behind entries with the tags `before`. -/
def codecAfter (table : Table) (inner : Format → Codec) (before : List Tag) (key : κ) : Codec :=
  inner ((SetKey.entry table key).format.after before)

/-- What a field means behind fields with the tags `before`. -/
def RawField.meaning (table : Table) (inner : Format → Codec) (before : List Tag)
    (f : RawField κ) : Except Error Value :=
  (codecAfter table inner before f.key).onField f.content

/-- The set has one entry for each of the fields, in their order: the key, what the field
means, and the width of its value. -/
inductive DecodesTo (table : Table) (inner : Format → Codec) :
    List Tag → List (RawField κ) → FieldSet κ → Prop where
  | nil (before : List Tag) : DecodesTo table inner before [] []
  | cons {before : List Tag} {f : RawField κ} {v : Value} {fields : List (RawField κ)}
      {set : FieldSet κ} (hvalue : f.meaning table inner before = .ok v)
      (hrest : DecodesTo table inner (before ++ [SetKey.tag table f.key]) fields set) :
      DecodesTo table inner before (f :: fields) (⟨f.key, v, some f.content.length⟩ :: set)

/-- Some field nests deeper than levels are left. -/
def TooDeep (table : Table) (inner : Format → Codec) (before : List Tag)
    (fields : List (RawField κ)) : Prop :=
  ∃ front f back e, fields = front ++ f :: back ∧ e.kind = .depth ∧
    f.meaning table inner (before ++ front.map fun f => SetKey.tag table f.key) = .error e

variable {table : Table} {inner : Format → Codec} {before : List Tag}
  {fields : List (RawField κ)} {set set' : FieldSet κ}

theorem DecodesTo.unique (h : DecodesTo table inner before fields set)
    (h' : DecodesTo table inner before fields set') : set' = set := by
  induction h generalizing set' with
  | nil =>
      cases h'
      rfl
  | cons hvalue _ ih =>
      cases h' with
      | cons hvalue' hrest' =>
          rw [hvalue] at hvalue'
          injection hvalue' with hv
          rw [ih hrest', hv]

theorem DecodesTo.keys (h : DecodesTo table inner before fields set) :
    set.map (·.key) = fields.map (·.key) := by
  induction h with
  | nil => rfl
  | cons _ _ ih => rw [List.map_cons, List.map_cons, ih]

theorem DecodesTo.append_inv {front back : List (RawField κ)}
    (h : DecodesTo table inner before (front ++ back) set) :
    ∃ first second, set = first ++ second ∧ DecodesTo table inner before front first ∧
      DecodesTo table inner (before ++ front.map fun f => SetKey.tag table f.key) back
        second := by
  induction front generalizing before set with
  | nil => exact ⟨[], set, rfl, .nil before, by simpa using h⟩
  | cons f front ih =>
      cases h with
      | cons hvalue hrest =>
          obtain ⟨first, second, rfl, hfirst, hsecond⟩ := ih hrest
          refine ⟨_ :: first, second, rfl, .cons hvalue hfirst, ?_⟩
          simpa only [List.map_cons, List.append_assoc, List.singleton_append] using hsecond

/-- Fields decode, or one of them is too deep. -/
theorem decodesTo_or_tooDeep (table : Table) (inner : Format → Codec) (before : List Tag)
    (fields : List (RawField κ)) :
    (∃ set, DecodesTo table inner before fields set) ∨ TooDeep table inner before fields := by
  induction fields generalizing before with
  | nil => exact .inl ⟨[], .nil before⟩
  | cons f fields ih =>
      cases hvalue : f.meaning table inner before with
      | error e =>
          refine .inr ⟨[], f, fields, e, rfl, Codec.onField_error hvalue, ?_⟩
          rw [List.map_nil, List.append_nil, hvalue]
      | ok v =>
          rcases ih (before ++ [SetKey.tag table f.key]) with ⟨set, hset⟩ | htoo
          · exact .inl ⟨_, .cons hvalue hset⟩
          · obtain ⟨front, g, back, e, rfl, hdepth, hmeaning⟩ := htoo
            refine .inr ⟨f :: front, g, back, e, rfl, hdepth, ?_⟩
            simpa only [List.map_cons, List.append_assoc, List.singleton_append] using hmeaning

theorem DecodesTo.not_tooDeep (h : DecodesTo table inner before fields set) :
    ¬ TooDeep table inner before fields := by
  rintro ⟨front, f, back, e, rfl, _, hmeaning⟩
  obtain ⟨_, second, _, _, hsecond⟩ := h.append_inv
  cases hsecond with
  | cons hvalue _ =>
      rw [hmeaning] at hvalue
      cases hvalue

end Meaning

section Reading

variable [SetKey κ] [ReadableKey κ]

/-- A key, a length and that many bytes make a field. -/
theorem RawField.Spelled.of_write {key : κ} {position : Nat} {spelling content : Bytes}
    (hkey : SetKey.write key position = .ok ((), spelling)) (hsize : content.length < 2 ^ 64) :
    RawField.Spelled (κ := κ)
      ⟨key, spelling, Ber.lengthBytes (UInt64.ofNat content.length), content⟩ := by
  have hheader := Ber.lengthBytes_spells (UInt64.ofNat content.length)
  rw [UInt64.toNat_ofNat', Nat.mod_eq_of_lt hsize] at hheader
  exact ⟨(ReadableKey.of_write hkey).1, hheader⟩

theorem Splits.nil : Splits (κ := κ) [] [] := ⟨List.forall_mem_nil _, rfl⟩

theorem Splits.cons {f : RawField κ} {w : Bytes} {fields : List (RawField κ)} (hf : f.Spelled)
    (h : Splits w fields) : Splits (f.bytes ++ w) (f :: fields) :=
  ⟨List.forall_mem_cons.2 ⟨hf, h.spelled⟩, by rw [List.flatMap_cons, ← h.bytes]⟩

/-! ## There is one split -/

theorem RawField.Spelled.bytes_ne_nil {f : RawField κ} (h : f.Spelled) : f.bytes ≠ [] := by
  simp [bytes, h.header.ne_nil]

/-- A field ends where its own key and length say. -/
theorem RawField.Spelled.unique {f f' : RawField κ} (h : f.Spelled) (h' : f'.Spelled)
    {t t' : Bytes} (heq : f.bytes ++ t = f'.bytes ++ t') : f' = f ∧ t' = t := by
  obtain ⟨key, spelling, header, content⟩ := f
  obtain ⟨key', spelling', header', content'⟩ := f'
  simp only [bytes, List.append_assoc] at heq
  -- Both keys are read off the same bytes, and so are both lengths behind them.
  obtain ⟨hkey, hspelling, hrest⟩ :=
    (ReadableKey.reads h.key).unique (ReadableKey.reads h'.key) heq
  obtain ⟨hlength, hheader, hrest⟩ := h.header.reads.unique h'.header.reads hrest.symm
  have hcount : content'.length = content.length := by
    have := congrArg UInt64.toNat hlength
    rwa [h'.header.toNat, h.header.toNat] at this
  obtain ⟨hcontent, ht⟩ := List.append_inj hrest hcount
  dsimp only at hkey hspelling hheader
  rw [hkey, hspelling, hheader, hcontent, ht]
  exact ⟨rfl, rfl⟩

/-- A string splits in one way or not at all. -/
theorem Splits.unique {w : Bytes} {fields fields' : List (RawField κ)} (h : Splits w fields)
    (h' : Splits w fields') : fields' = fields :=
  flatMap_injective (fun _ hf => hf.bytes_ne_nil) (fun hf hf' => hf.unique hf') h.spelled
    h'.spelled (h.bytes.symm.trans h'.bytes)

/-- The widths of keys, lengths and values add up to the whole. -/
theorem Splits.length {w : Bytes} {fields : List (RawField κ)} (h : Splits w fields) :
    (fields.map fun f => f.spelling.length + f.header.length + f.content.length).sum =
      w.length := by
  rw [h.bytes, List.length_flatMap]
  simp only [RawField.length_bytes]

/-- Another value of the same length in one field leaves the split where it is. -/
theorem Splits.replace {w : Bytes} {front back : List (RawField κ)} {f : RawField κ}
    (h : Splits w (front ++ f :: back)) {content : Bytes}
    (hlength : content.length = f.content.length) :
    Splits ((front ++ { f with content } :: back).flatMap RawField.bytes)
      (front ++ { f with content } :: back) := by
  refine ⟨fun g hg => ?_, rfl⟩
  have hf := h.spelled f (by simp)
  rw [List.mem_append, List.mem_cons] at hg
  rcases hg with hg | rfl | hg
  · exact h.spelled g (by simp [hg])
  · exact ⟨hf.key, hlength ▸ hf.header⟩
  · exact h.spelled g (by simp [hg])

/-! ## One entry -/

variable {table : Table} {inner : Format → Codec}

/-- A field that is there is read as what it means, and only depth stands in the way. -/
theorem readEntry_spelled (table : Table) (hlocal : ∀ f n, Reader.Local ((inner f).read n))
    {f : RawField κ} (hf : f.Spelled) (earlier : List Tag) {c : Cursor} {t : Bytes}
    (hc : c.rest = f.bytes ++ t) :
    match f.meaning table inner earlier.reverse with
    | .ok v => readEntry table inner earlier c =
        .ok ⟨f.key, v, some f.content.length⟩ (c.advance f.bytes.length)
    | .error _ =>
      ∃ e d, readEntry (κ := κ) table inner earlier c = .error e d ∧ e.kind = .depth := by
  rw [RawField.bytes, List.append_assoc, List.append_assoc] at hc
  have hkey := Reader.mapError_eq_ok (f := (·.within table.name)).2
    (ReadableKey.reads hf.key c _ hc)
  have hrestKey : (c.advance f.spelling.length).rest = f.header ++ (f.content ++ t) :=
    Cursor.rest_advance_of_append hc
  have hlength := Reader.mapError_eq_ok (f := (·.within table.name)).2
    (hf.header.reads _ _ hrestKey)
  have hrest : ((c.advance f.spelling.length).advance f.header.length).rest = f.content ++ t :=
    Cursor.rest_advance_of_append hrestKey
  have hleft : f.content.length ≤
      ((c.advance f.spelling.length).advance f.header.length).rest.length := by
    rw [hrest, List.length_append]
    omega
  rw [readEntry, Reader.bind_of_ok hkey, Reader.bind_of_ok (Reader.position_apply _),
    Reader.bind_of_ok hlength, Reader.bind_of_ok (Reader.remaining_apply _)]
  dsimp only
  rw [hf.header.toNat, if_pos hleft]
  have hfield := Codec.readField_eq_onField
    (hlocal ((SetKey.entry table f.key).format.after earlier.reverse)) hrest
  rw [RawField.meaning, codecAfter]
  cases hvalue :
      (inner ((SetKey.entry table f.key).format.after earlier.reverse)).onField f.content with
  | ok v =>
      rw [hvalue] at hfield
      rw [Reader.bind_of_ok (Reader.mapError_eq_ok.2 hfield), RawField.length_bytes,
        ← Cursor.advance_advance, ← Cursor.advance_advance]
      rfl
  | error e =>
      rw [hvalue] at hfield
      obtain ⟨e', herror, hdepth⟩ := hfield
      refine ⟨_, _, Reader.bind_of_error (e := e'.within (entryPlace table
        (SetKey.entry table f.key))) (by rw [Reader.mapError, herror]), hdepth⟩

/-- An entry that was read stands there as a field. -/
theorem readEntry_eq_ok (hlocal : ∀ f n, Reader.Local ((inner f).read n))
    {earlier : List Tag} {c d : Cursor} {e : Entry κ Value}
    (h : readEntry table inner earlier c = .ok e d) :
    ∃ (f : RawField κ) (v : Value) (t : Bytes), f.Spelled ∧ c.rest = f.bytes ++ t ∧
      f.meaning table inner earlier.reverse = .ok v ∧
      e = ⟨f.key, v, some f.content.length⟩ ∧ d = c.advance f.bytes.length := by
  rw [readEntry] at h
  obtain ⟨key, afterKey, hkey, h⟩ := Reader.bind_eq_ok.1 h
  obtain ⟨spelling, t, hspelling, hc, rfl⟩ :=
    ReadableKey.read_eq_ok.1 (Reader.mapError_eq_ok.1 hkey)
  rw [Reader.bind_of_ok (Reader.position_apply _)] at h
  obtain ⟨length, afterLength, hlength, h⟩ := Reader.bind_eq_ok.1 h
  obtain ⟨header, t', hheader, hc', rfl⟩ :=
    Ber.readLength_eq_ok.1 (Reader.mapError_eq_ok.1 hlength)
  rw [Cursor.rest_advance_of_append hc] at hc'
  subst hc'
  have hrest : ((c.advance spelling.length).advance header.length).rest = t' :=
    Cursor.rest_advance_of_append (Cursor.rest_advance_of_append hc)
  rw [Reader.bind_of_ok (Reader.remaining_apply _), hrest] at h
  split at h
  · next hle =>
      have hcontent := List.length_take_of_le hle
      have hf : RawField.Spelled (κ := κ) ⟨key, spelling, header, t'.take length.toNat⟩ :=
        ⟨hspelling, show Ber.LengthSpelling (t'.take length.toNat).length header by
          rwa [hcontent]⟩
      have hsplit : c.rest = RawField.bytes ⟨key, spelling, header, t'.take length.toNat⟩ ++
          t'.drop length.toNat := by
        rw [hc, RawField.bytes]
        simp only [List.append_assoc, List.take_append_drop]
      have hone := readEntry_spelled table hlocal hf earlier hsplit
      -- The same reader at the same cursor has already answered.
      have hsame : readEntry table inner earlier c = .ok e d := by
        rw [readEntry, Reader.bind_of_ok hkey, Reader.bind_of_ok (Reader.position_apply _),
          Reader.bind_of_ok hlength, Reader.bind_of_ok (Reader.remaining_apply _), hrest]
        dsimp only
        rw [if_pos hle]
        exact h
      cases hvalue : RawField.meaning table inner earlier.reverse
          ⟨key, spelling, header, t'.take length.toNat⟩ with
      | ok v =>
          rw [hvalue] at hone
          dsimp only at hone
          rw [hsame] at hone
          injection hone with he hd
          exact ⟨_, v, _, hf, hsplit, hvalue, he, hd⟩
      | error e' =>
          rw [hvalue] at hone
          obtain ⟨_, _, herror, _⟩ := hone
          rw [hsame] at herror
          cases herror
  · cases h

/-! ## All entries -/

/-- Bytes that split into fields are read as what the fields decode to. If one of them is too
deep, that is what the reader says. -/
theorem readEntries_splits (hlocal : ∀ f n, Reader.Local ((inner f).read n))
    {fields : List (RawField κ)} {w : Bytes} (hw : Splits w fields) {fuel : Nat}
    {earlier : List Tag} {c : Cursor} (hc : c.rest = w) (hfuel : w.length ≤ fuel) :
    (∀ set, DecodesTo table inner earlier.reverse fields set →
      ∃ d, readEntries table inner fuel earlier c = .ok set d) ∧
    (TooDeep table inner earlier.reverse fields →
      ∃ e d, readEntries (κ := κ) table inner fuel earlier c = .error e d ∧ e.kind = .depth) := by
  induction fields generalizing w fuel earlier c with
  | nil =>
      have hempty : c.rest = [] := hc.trans hw.bytes
      refine ⟨fun set hset => ?_, fun htoo => ?_⟩
      · cases hset
        exact ⟨c, readEntries_end hempty⟩
      · obtain ⟨front, f, back, _, hnil, _⟩ := htoo
        cases front <;> cases hnil
  | cons f fields ih =>
      have hf := hw.spelled f (List.mem_cons_self ..)
      have hsplit : c.rest = f.bytes ++ fields.flatMap RawField.bytes := by
        rw [hc, hw.bytes, List.flatMap_cons]
      have hpos : 0 < f.bytes.length := List.length_pos_iff.2 hf.bytes_ne_nil
      rw [← hc, hsplit, List.length_append] at hfuel
      obtain ⟨fuel, rfl⟩ : ∃ n, fuel = n + 1 := ⟨fuel - 1, by omega⟩
      have hne : c.rest ≠ [] := by
        rw [hsplit]
        simp [hf.bytes_ne_nil]
      have hafter : (c.advance f.bytes.length).rest = fields.flatMap RawField.bytes :=
        Cursor.rest_advance_of_append hsplit
      have hone := readEntry_spelled table hlocal hf earlier hsplit
      obtain ⟨hread, hdeep⟩ := @ih _
        ⟨fun g hg => hw.spelled g (List.mem_cons_of_mem _ hg), rfl⟩ fuel
        (SetKey.tag table f.key :: earlier) _ hafter (by omega)
      rw [List.reverse_cons] at hread hdeep
      rw [readEntries_step hne]
      refine ⟨fun set hset => ?_, fun htoo => ?_⟩
      · cases hset with
        | cons hvalue hrest =>
            rw [hvalue] at hone
            obtain ⟨d, hmore⟩ := hread _ hrest
            exact ⟨d, Reader.bind_eq_ok.2 ⟨_, _, hone, Reader.bind_eq_ok.2 ⟨_, _, hmore, rfl⟩⟩⟩
      · obtain ⟨front, g, back, e, hsplits, hdepth, hmeaning⟩ := htoo
        cases front with
        | nil =>
            injection hsplits with hfirst _
            subst hfirst
            rw [List.map_nil, List.append_nil] at hmeaning
            rw [hmeaning] at hone
            obtain ⟨e', d, herror, hkind⟩ := hone
            exact ⟨e', d, Reader.bind_of_error herror, hkind⟩
        | cons first front =>
            injection hsplits with hfirst hrest
            subst hfirst
            -- The first field may be too deep as well, and then it is the one reported.
            cases hvalue : f.meaning table inner earlier.reverse with
            | error e' =>
                rw [hvalue] at hone
                obtain ⟨e', d, herror, hkind⟩ := hone
                exact ⟨e', d, Reader.bind_of_error herror, hkind⟩
            | ok v =>
                rw [hvalue] at hone
                obtain ⟨e', d, herror, hkind⟩ := hdeep ⟨front, g, back, e, hrest, hdepth, by
                  simpa only [List.map_cons, List.append_assoc, List.singleton_append]
                    using hmeaning⟩
                exact ⟨e', d, (Reader.bind_of_ok hone).trans (Reader.bind_of_error herror), hkind⟩

/-- Bytes that were read to the end split into fields, which decode to what was read. -/
theorem readEntries_eq_ok (hlocal : ∀ f n, Reader.Local ((inner f).read n)) {fuel : Nat}
    {earlier : List Tag} {c d : Cursor} {set : FieldSet κ} (hfuel : c.rest.length ≤ fuel)
    (h : readEntries table inner fuel earlier c = .ok set d) :
    ∃ fields, Splits c.rest fields ∧ DecodesTo table inner earlier.reverse fields set := by
  induction fuel generalizing earlier c set with
  | zero =>
      have hempty : c.rest = [] := List.eq_nil_of_length_eq_zero (by omega)
      rw [readEntries_of_nil hempty h, hempty]
      exact ⟨[], .nil, .nil _⟩
  | succ fuel ih =>
      by_cases hempty : c.rest = []
      · rw [readEntries_of_nil hempty h, hempty]
        exact ⟨[], .nil, .nil _⟩
      · obtain ⟨e, rest, between, hentry, hrest, rfl⟩ := readEntries_of_ne_nil hempty h
        obtain ⟨f, v, t, hf, hc, hvalue, rfl, rfl⟩ := readEntry_eq_ok hlocal hentry
        have hafter : (c.advance f.bytes.length).rest = t := Cursor.rest_advance_of_append hc
        have hpos : 0 < f.bytes.length := List.length_pos_iff.2 hf.bytes_ne_nil
        rw [hc, List.length_append] at hfuel
        obtain ⟨fields, hsplits, hdecodes⟩ := ih (by rw [hafter]; omega) hrest
        rw [hafter] at hsplits
        rw [List.reverse_cons] at hdecodes
        exact ⟨f :: fields, hc ▸ hsplits.cons hf, .cons hvalue hdecodes⟩

end Reading

/-! ## Sets -/

section Sets

variable [SetKey κ] [ReadableKey κ] {table : Table} {inner : Format → Codec}

omit [ReadableKey κ] in
theorem read_eq_ok {n : Nat} {c d : Cursor} {set : FieldSet κ} :
    read table (some inner) n c = .ok set d ↔
      n ≤ c.rest.length ∧ d = c.advance n ∧
        ∃ d', readEntries table inner n [] (c.field n) = .ok set d' := by
  show Reader.inField n (readEntries table inner n []) c = _ ↔ _
  exact Reader.inField_eq_ok

/-- A set is read exactly if its bytes split into fields that decode. -/
theorem read_iff_decodesTo (hlocal : ∀ f n, Reader.Local ((inner f).read n)) {c d : Cursor}
    {w t : Bytes} {set : FieldSet κ} (hc : c.rest = w ++ t) :
    read table (some inner) w.length c = .ok set d ↔
      d = c.advance w.length ∧ ∃ fields, Splits w fields ∧ DecodesTo table inner [] fields set := by
  have hfield := Cursor.rest_field_of_append hc
  rw [read_eq_ok]
  constructor
  · rintro ⟨_, hd, d', hentries⟩
    obtain ⟨fields, hsplits, hdecodes⟩ :=
      readEntries_eq_ok hlocal (by rw [hfield]) hentries
    rw [hfield] at hsplits
    exact ⟨hd, fields, hsplits, hdecodes⟩
  · rintro ⟨hd, fields, hsplits, hdecodes⟩
    refine ⟨by rw [hc]; simp, hd, ?_⟩
    exact (readEntries_splits hlocal hsplits hfield (Nat.le_refl _)).1 set hdecodes

/-- A set with a field that nests too deep is refused for that. -/
theorem read_of_tooDeep (hlocal : ∀ f n, Reader.Local ((inner f).read n)) {c : Cursor}
    {w t : Bytes} {fields : List (RawField κ)} (hsplits : Splits w fields)
    (hdeep : TooDeep table inner [] fields) (hc : c.rest = w ++ t) :
    ∃ e, read (κ := κ) table (some inner) w.length c = .error e (c.advance w.length) ∧
      e.kind = .depth := by
  have hdeep' : TooDeep table inner ([] : List Tag).reverse fields := hdeep
  obtain ⟨e, d, herror, hdepth⟩ :=
    (readEntries_splits hlocal hsplits (Cursor.rest_field_of_append hc) (Nat.le_refl _)).2 hdeep'
  refine ⟨e, ?_, hdepth⟩
  show Reader.inField w.length (readEntries table inner w.length []) c = _
  rw [Reader.inField_of_le (by rw [hc]; simp), herror]

omit [ReadableKey κ] in
/-- Two sets whose bytes differ inside the value of one field differ in one entry at most, and
there in nothing but the value. -/
theorem damage_contained {front back : List (RawField κ)} {f : RawField κ} {content : Bytes}
    (hlength : content.length = f.content.length) {set set' : FieldSet κ}
    (h : DecodesTo table inner [] (front ++ f :: back) set)
    (h' : DecodesTo table inner [] (front ++ { f with content } :: back) set') :
    ∃ before after v v', before.length = front.length ∧
      set = before ++ ⟨f.key, v, some f.content.length⟩ :: after ∧
      set' = before ++ ⟨f.key, v', some f.content.length⟩ :: after := by
  obtain ⟨first, second, rfl, hfirst, hsecond⟩ := h.append_inv
  obtain ⟨first', second', rfl, hfirst', hsecond'⟩ := h'.append_inv
  cases hsecond with
  | @cons _ _ v _ after _ hafter =>
      cases hsecond' with
      | @cons _ _ v' _ after' _ hafter' =>
          have hcount : first.length = front.length := by
            simpa using congrArg List.length hfirst.keys
          dsimp only at hafter'
          refine ⟨first, after, v, v', hcount, rfl, ?_⟩
          rw [hfirst.unique hfirst', hafter.unique hafter', hlength]

/-- Reading a set, with `levels` levels left inside it, accepts exactly the strings that split
into fields of which none is too deep. The split is unique, there is one entry for each field
and in its order, and the pieces add up to the whole. Another value of the same length in one
field changes at most the value of its entry. -/
theorem read_iff_splits (registry : Registry) (table : Table) (levels : Nat)
    (origin consumed : Nat) (w t : Bytes) :
    let inner := Format.codec registry levels
    let outcome := read (κ := κ) table (Format.inward registry (levels + 1)) w.length
      ⟨origin, consumed, w ++ t⟩
    (∀ fields fields' : List (RawField κ), Splits w fields → Splits w fields' →
      fields' = fields) ∧
    ((∃ set d, outcome = .ok set d) ↔
      ∃ fields : List (RawField κ), Splits w fields ∧ ¬ TooDeep table inner [] fields) ∧
    (∀ set d, outcome = .ok set d → d = ⟨origin, consumed + w.length, t⟩ ∧
      ∃ fields, Splits w fields ∧ DecodesTo table inner [] fields set ∧
        set.map (·.key) = fields.map (·.key) ∧
        (fields.map fun f => f.spelling.length + f.header.length + f.content.length).sum =
          w.length) ∧
    (∀ fields : List (RawField κ), Splits w fields → TooDeep table inner [] fields →
      ∃ e d, outcome = .error e d ∧ e.kind = .depth) ∧
    ∀ (front back : List (RawField κ)) (f : RawField κ) (content : Bytes),
      Splits w (front ++ f :: back) → content.length = f.content.length →
      ∀ (origin' consumed' : Nat) (t' : Bytes) (set set' : FieldSet κ) (d d' : Cursor),
        outcome = .ok set d →
        read table (Format.inward registry (levels + 1)) w.length
          ⟨origin', consumed',
            (front ++ { f with content } :: back).flatMap RawField.bytes ++ t'⟩ = .ok set' d' →
        ∃ before after v v', before.length = front.length ∧
          set = before ++ ⟨f.key, v, some f.content.length⟩ :: after ∧
          set' = before ++ ⟨f.key, v', some f.content.length⟩ :: after := by
  intro inner outcome
  have hlocal : ∀ f n, Reader.Local ((inner f).read n) :=
    fun f n _ => Format.codec_alike registry levels f n
  have hread : ∀ set d, outcome = .ok set d ↔ d = _ ∧
      ∃ fields, Splits w fields ∧ DecodesTo table inner [] fields set :=
    fun set d => read_iff_decodesTo (c := ⟨origin, consumed, w ++ t⟩) hlocal rfl
  refine ⟨fun fields fields' h h' => h.unique h', ⟨?_, ?_⟩, ?_, ?_, ?_⟩
  · rintro ⟨set, d, hok⟩
    obtain ⟨_, fields, hsplits, hdecodes⟩ := (hread set d).1 hok
    exact ⟨fields, hsplits, hdecodes.not_tooDeep⟩
  · rintro ⟨fields, hsplits, hfine⟩
    obtain ⟨set, hset⟩ := (decodesTo_or_tooDeep table inner [] fields).resolve_right hfine
    exact ⟨set, _, (hread set _).2 ⟨rfl, fields, hsplits, hset⟩⟩
  · intro set d hok
    obtain ⟨hd, fields, hsplits, hdecodes⟩ := (hread set d).1 hok
    refine ⟨?_, fields, hsplits, hdecodes, hdecodes.keys, hsplits.length⟩
    rw [hd, Cursor.advance, List.drop_left]
  · intro fields hsplits hdeep
    obtain ⟨e, herror, hdepth⟩ := read_of_tooDeep (c := ⟨origin, consumed, w ++ t⟩) hlocal
      hsplits hdeep rfl
    exact ⟨e, _, herror, hdepth⟩
  · intro front back f content hsplits hlength origin' consumed' t' set set' d d' hok hok'
    have hreplaced := hsplits.replace hlength
    have hsame : w.length =
        ((front ++ { f with content } :: back).flatMap RawField.bytes).length := by
      rw [← hsplits.length, ← hreplaced.length]
      simp [hlength]
    rw [hsame] at hok'
    obtain ⟨_, fields, hw, hdecodes⟩ := (hread set d).1 hok
    obtain ⟨_, fields', hw', hdecodes'⟩ := (read_iff_decodesTo
      (c := ⟨origin', consumed', _ ++ t'⟩) hlocal rfl).1 hok'
    rw [hsplits.unique hw] at hdecodes
    rw [hreplaced.unique hw'] at hdecodes'
    exact damage_contained hlength hdecodes hdecodes'

end Sets

end MotionMetadata.FieldSet
