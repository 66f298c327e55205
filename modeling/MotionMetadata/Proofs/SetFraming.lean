import MotionMetadata.Proofs.Reencoding
import MotionMetadata.Proofs.Splitting

/-!
# Writing a set and reading it

Writing puts down a key, a length and a value for every entry, and where the next one starts
is never said. That the reader finds it all the same is a matter of framing alone: what was
written for a set splits into one field for each of its entries, and what a string that splits
is read as is known. No value has to come back for this. A codec may read its own bytes as
something else, or not at all, and the entries behind that field are still where they were.

Values may come back as they were, or equal but for the widths in them: a set that was put
together by hand has none, and has them when it has been read. The lemmas leave open in which
of these senses, or any other, a value comes back.

Sets with correlation packs are left out, since writing may move their entries. The packs are
also the only ones whose codec looks at the tags before it. It does so for reading, so the
length of a set can be worked out without them.
-/

namespace MotionMetadata

namespace FieldSet

/-! ## Sets that agree -/

/-- The entries have the same keys, one by one, and values of which the relation holds. -/
def Agree {κ : Type} (R : Value → Value → Prop) (a b : FieldSet κ) : Prop :=
  List.Forall₂ (fun x y => x.key = y.key ∧ R x.value y.value) a b

namespace Agree

theorem toPairs_eq {κ : Type} {a b : FieldSet κ} (h : a.Agree Eq b) : a.toPairs = b.toPairs := by
  induction h with
  | nil => rfl
  | @cons x y a b hxy _ ih =>
      show (x.key, x.value) :: toPairs a = (y.key, y.value) :: toPairs b
      rw [hxy.1, hxy.2, ih]

theorem equals_localSet {a b : FieldSet Tag} (h : a.Agree (fun v w => v.equals w = true) b) :
    (Value.localSet a).equals (.localSet b) = true := by
  show Value.equalLocal a b = true
  induction h with
  | nil => rfl
  | @cons x y a b hxy _ ih =>
      rw [Value.equalLocal, hxy.1, hxy.2, ih]
      simp

end Agree

/-! ## Written fields -/

variable {κ : Type} [SetKey κ]

/-- The fields that entries behind entries with the tags `before` are written as: one for
each, under its key, in the length that was chosen for it and with the bytes that its codec
wrote. -/
inductive WrittenFields (table : Table) (inner : Format → Codec) :
    List Tag → FieldSet κ → List (RawField κ) → Prop where
  | nil (before : List Tag) : WrittenFields table inner before [] []
  | cons {before : List Tag} {e : Entry κ Value} {f : RawField κ} {set : FieldSet κ}
      {fields : List (RawField κ)} {position : Nat} (hkey : f.key = e.key)
      (hlength : (codecAfter table inner before e.key).hintedLength e.value e.width =
        .ok f.content.length)
      (hcontent : (codecAfter table inner before e.key).writeField e.value f.content.length
        position = .ok ((), f.content))
      (hrest : WrittenFields table inner (before ++ [entryTag table e]) set fields) :
      WrittenFields table inner before (e :: set) (f :: fields)

/-- Whatever is written for the value behind entries with the tags `before` is read as a value
of which, with the value there, the relation holds. -/
def ReturnsAfter (R : Value → Value → Prop) (table : Table) (inner : Format → Codec)
    (before : List Tag) (e : Entry κ Value) : Prop :=
  ∀ (content : Bytes) (position : Nat),
    (codecAfter table inner before e.key).hintedLength e.value e.width = .ok content.length →
    (codecAfter table inner before e.key).writeField e.value content.length position =
      .ok ((), content) →
    ∃ v, (codecAfter table inner before e.key).onField content = .ok v ∧ R v e.value

/-- Every entry comes back, each in the place where it stands. -/
def EachReturns (R : Value → Value → Prop) (table : Table) (inner : Format → Codec)
    (set : FieldSet κ) : Prop :=
  ∀ before e after, set = before ++ e :: after →
    ReturnsAfter R table inner (before.map (entryTag table)) e

variable {table : Table} {inner : Format → Codec} {set set' : FieldSet κ}
  {fields : List (RawField κ)} {before : List Tag} {R : Value → Value → Prop}

/-- Wherever an entry is written, the same is written for it. -/
theorem returnsAfter_of_written {e : Entry κ Value} {n : Nat} {v : Value} (bytes : Bytes)
    (hlength : (codecAfter table inner before e.key).hintedLength e.value e.width = .ok n)
    (hwrite : ∀ position, (codecAfter table inner before e.key).writeField e.value n position =
      .ok ((), bytes))
    (hread : (codecAfter table inner before e.key).onField bytes = .ok v) (hv : R v e.value) :
    ReturnsAfter R table inner before e := by
  intro content position hcount hcontent
  rw [hlength] at hcount
  injection hcount with hcount
  rw [← hcount, hwrite position] at hcontent
  injection hcontent with hcontent
  injection hcontent with _ hcontent
  exact ⟨v, by rw [← hcontent, hread], hv⟩

theorem WrittenFields.keys (h : WrittenFields table inner before set fields) :
    fields.map (·.key) = set.map (·.key) := by
  induction h with
  | nil => rfl
  | cons hkey _ _ _ ih => rw [List.map_cons, List.map_cons, hkey, ih]

/-- Entries that come back one by one come back together. -/
theorem WrittenFields.decodesTo (h : WrittenFields table inner before set fields)
    (hreturns : ∀ front e back, set = front ++ e :: back →
      ReturnsAfter R table inner (before ++ front.map (entryTag table)) e) :
    ∃ set', DecodesTo table inner before fields set' ∧ set'.Agree R set := by
  induction h with
  | nil before => exact ⟨[], .nil before, .nil⟩
  | @cons before e f set fields position hkey hlength hcontent _ ih =>
      obtain ⟨set', hdecodes, hagree⟩ := ih fun front e' back hset => by
        have := hreturns (e :: front) e' back (by rw [hset]; rfl)
        simpa only [List.map_cons, List.append_assoc, List.singleton_append] using this
      have hfirst := hreturns [] e set rfl
      rw [List.map_nil, List.append_nil] at hfirst
      obtain ⟨v, hv, hR⟩ := hfirst f.content position hlength hcontent
      have hvalue : f.meaning table inner before = .ok v := by
        rw [RawField.meaning, hkey]
        exact hv
      refine ⟨⟨f.key, v, some f.content.length⟩ :: set', .cons hvalue ?_, .cons ⟨hkey, hR⟩ hagree⟩
      rw [hkey]
      exact hdecodes

section Writing

variable [ReadableKey κ]

/-- What is written for one entry is a field of its key. -/
theorem writeEntry_eq_ok {earlier : List Tag} {e : Entry κ Value} {position : Nat}
    {bytes : Bytes} (h : writeEntry table inner earlier e position = .ok ((), bytes))
    (hsize : bytes.length < 2 ^ 64) :
    ∃ (f : RawField κ) (start : Nat), f.Spelled ∧ bytes = f.bytes ∧ f.key = e.key ∧
      (codecAfter table inner earlier.reverse e.key).hintedLength e.value e.width =
        .ok f.content.length ∧
      (codecAfter table inner earlier.reverse e.key).writeField e.value f.content.length start =
        .ok ((), f.content) ∧
      bytes.length =
        SetKey.width e.key + Ber.widthOfLength f.content.length + f.content.length := by
  obtain ⟨length, hlength, h⟩ := Encoder.ofExcept_bind_eq_ok.1 (Encoder.mapError_eq_ok.1 h)
  obtain ⟨_, spelling, _, hkey, htail, rfl⟩ := Encoder.bind_eq_ok.1 h
  obtain ⟨_, header, content, hber, hfield, rfl⟩ := Encoder.bind_eq_ok.1 htail
  injection hber with hber
  injection hber with _ hber
  subst hber
  obtain ⟨_, hcontent⟩ := Codec.writeField_eq_ok.1 hfield
  subst hcontent
  rw [List.length_append, List.length_append] at hsize
  refine ⟨⟨e.key, spelling, _, content⟩, _, .of_write hkey (by omega), rfl, rfl, hlength,
    hfield, ?_⟩
  rw [List.length_append, List.length_append, (ReadableKey.of_write hkey).2, Ber.widthOfLength,
    Ber.length_lengthBytes, Nat.add_assoc]

/-- What is written for some entries splits into fields, one for each entry, and its length is
the one that was worked out without writing. -/
theorem writeEntries_splits
    (hafter : ∀ (f : Format) tags v width,
      (inner (f.after tags)).hintedLength v width = (inner f).hintedLength v width)
    {earlier : List Tag} {position : Nat} {w : Bytes}
    (h : writeEntries table inner earlier set position = .ok ((), w))
    (hsize : w.length < 2 ^ 64) :
    entriesLength table inner set = .ok w.length ∧
      ∃ fields, Splits w fields ∧ WrittenFields table inner earlier.reverse set fields := by
  induction set generalizing earlier position w with
  | nil =>
      injection h with h
      injection h with _ h
      subst h
      exact ⟨rfl, [], .nil, .nil _⟩
  | cons e set ih =>
      obtain ⟨_, first, second, hfirst, hsecond, rfl⟩ := Encoder.bind_eq_ok.1 h
      rw [List.length_append] at hsize
      obtain ⟨f, start, hf, rfl, hkey, hlength, hcontent, htotal⟩ :=
        writeEntry_eq_ok hfirst (by omega)
      obtain ⟨hmore, fields, hsplits, hwritten⟩ := ih hsecond (by omega)
      rw [List.reverse_cons] at hwritten
      refine ⟨?_, f :: fields, hsplits.cons hf, .cons hkey hlength hcontent hwritten⟩
      rw [codecAfter, hafter] at hlength
      rw [entriesLength, hlength, hmore, List.length_append, htotal]
      rfl

/-- A set without correlation packs is written in the length that was worked out for it. Its
bytes are read as a set with the same keys in the same order, each value being what its codec
makes of what was written for it and each width the one that was chosen, or else a field nests
too deep. If every entry comes back in its place, so does the set: as it was, or equal to it
with widths left aside. The bound is that of any buffer there is. -/
theorem written_set_framed {registry : Registry} {levels : Nat} {buffer out : Bytes}
    (hplain : ∀ e ∈ set, describedBy table e = [])
    (hwrite : (write table (Format.inward registry levels) set).appendTo buffer = (.ok (), out))
    (hsize : out.length < 2 ^ 64) :
    ∃ (inner : Format → Codec) (w : Bytes) (fields : List (RawField κ)),
      Format.inward registry levels = some inner ∧ out = buffer ++ w ∧
      encodedLength table (some inner) set = .ok w.length ∧
      Splits w fields ∧ WrittenFields table inner [] set fields ∧
      ∀ (c : Cursor) (t : Bytes), c.rest = w ++ t →
        ((∃ e, read (κ := κ) table (some inner) w.length c = .error e (c.advance w.length) ∧
            e.kind = .depth) ∨
          ∃ set', read table (some inner) w.length c = .ok set' (c.advance w.length) ∧
            DecodesTo table inner [] fields set' ∧ set'.map (·.key) = set.map (·.key)) ∧
        (EachReturns Eq table inner set →
          ∃ set', read table (some inner) w.length c = .ok set' (c.advance w.length) ∧
            set'.toPairs = set.toPairs) ∧
        (EachReturns (fun v w => v.equals w = true) table inner set →
          ∃ set', read table (some inner) w.length c = .ok set' (c.advance w.length) ∧
            set'.Agree (fun v w => v.equals w = true) set) := by
  obtain ⟨_, w, hw, rfl⟩ := Encoder.appendTo_eq_ok.1 hwrite
  cases levels with
  | zero => cases hw
  | succ levels =>
      obtain ⟨order, horder, hentries⟩ := write_eq_ok.1 hw
      rw [writeOrder_of_plain hplain] at horder
      injection horder with horder
      subst horder
      rw [List.length_append] at hsize
      obtain ⟨hlength, fields, hsplits, hwritten⟩ :=
        writeEntries_splits (Format.codec_carries registry levels).length hentries (by omega)
      have hlocal : ∀ f n, Reader.Local ((Format.codec registry levels f).read n) :=
        fun f n _ => Format.codec_alike registry levels f n
      refine ⟨Format.codec registry levels, w, fields, rfl, rfl, ?_, hsplits, hwritten, ?_⟩
      · show (do let _ ← writeOrder table set; entriesLength table _ set) = _
        rw [writeOrder_of_plain hplain]
        exact hlength
      · intro c t hc
        have hread : ∀ {R : Value → Value → Prop},
            EachReturns R table (Format.codec registry levels) set →
              ∃ set', read table (some (Format.codec registry levels)) w.length c =
                .ok set' (c.advance w.length) ∧ set'.Agree R set := by
          intro R hreturns
          obtain ⟨set', hset', hagree⟩ := hwritten.decodesTo hreturns
          exact ⟨set', (read_iff_decodesTo hlocal hc).2 ⟨rfl, fields, hsplits, hset'⟩, hagree⟩
        refine ⟨?_, fun hreturns => ?_, hread⟩
        · rcases decodesTo_or_tooDeep table (Format.codec registry levels) [] fields with
            ⟨set', hset'⟩ | hdeep
          · refine .inr ⟨set', ?_, hset', hset'.keys.trans hwritten.keys⟩
            exact (read_iff_decodesTo hlocal hc).2 ⟨rfl, fields, hsplits, hset'⟩
          · exact .inl (read_of_tooDeep hlocal hsplits hdeep hc)
        · obtain ⟨set', hset', hagree⟩ := hread hreturns
          exact ⟨set', hset', hagree.toPairs_eq⟩

end Writing

/-- A set that says twice which version of its document it follows. -/
def twoVersions : FieldSet Tag := [⟨4, .uint 19, none⟩, ⟨4, .uint 7, some 2⟩]

theorem twoVersions_return :
    EachReturns Eq Table.movingTarget (Format.codec Registry.published 3) twoVersions := by
  intro before e after hset
  -- The entry is the first or the second of the two.
  match before, hset with
  | [], hset =>
      injection hset with he _
      subst he
      exact returnsAfter_of_written [0x13] (n := 1) rfl (fun _ => rfl) rfl rfl
  | [first], hset =>
      injection hset with hfirst hset
      injection hset with he _
      subst hfirst he
      exact returnsAfter_of_written [0x00, 0x07] (n := 2) rfl (fun _ => rfl) rfl rfl
  | _ :: _ :: more, hset =>
      injection hset with _ hset
      injection hset with _ hset
      cases more <;> cases hset

/-- A set in a set, neither of which has been read from anywhere. -/
def freshInside : FieldSet Tag := [⟨48, .localSet [⟨1, .uint 1, none⟩], none⟩]

/-- What comes back has the width of its entry, and is equal without it. -/
theorem freshInside_returns : EachReturns (fun v w => v.equals w = true) Table.datalink
    (Format.codec Registry.published 3) freshInside := by
  intro before e after hset
  cases before with
  | nil =>
      injection hset with he _
      subst he
      exact returnsAfter_of_written [0x01, 0x01, 0x01] (n := 3) rfl (fun _ => rfl) rfl rfl
  | cons first more =>
      injection hset with _ hset
      cases more <;> cases hset

/-- Both versions are written, the second in the width it came in, and both are read again. The
set inside the other one is read with the width of its entry, and is equal to what it was. -/
theorem twoVersions_framed :
    ((∀ e ∈ twoVersions, describedBy Table.movingTarget e = []) ∧
      (write Table.movingTarget (Format.inward Registry.published 4) twoVersions).appendTo
        [0xFF] = (.ok (), [0xFF, 0x04, 0x01, 0x13, 0x04, 0x02, 0x00, 0x07]) ∧
      encodedLength Table.movingTarget (Format.inward Registry.published 4) twoVersions =
        .ok 7 ∧
      ∃ set' : FieldSet Tag, read Table.movingTarget (Format.inward Registry.published 4) 7
          (Cursor.ofBytes [0x04, 0x01, 0x13, 0x04, 0x02, 0x00, 0x07]) = .ok set' ⟨0, 7, []⟩ ∧
        set'.toPairs = twoVersions.toPairs) ∧
    (∀ e ∈ freshInside, describedBy Table.datalink e = []) ∧
      (write Table.datalink (Format.inward Registry.published 4) freshInside).appendTo [] =
        (.ok (), [0x30, 0x03, 0x01, 0x01, 0x01]) ∧
      ∃ set' : FieldSet Tag, read Table.datalink (Format.inward Registry.published 4) 5
          (Cursor.ofBytes [0x30, 0x03, 0x01, 0x01, 0x01]) = .ok set' ⟨0, 5, []⟩ ∧
        (Value.localSet set').equals (.localSet freshInside) = true := by
  constructor
  · have hplain : ∀ e ∈ twoVersions, describedBy Table.movingTarget e = [] := by
      simp only [twoVersions, List.forall_mem_cons]
      exact ⟨rfl, rfl, by simp⟩
    have hwrite : (write Table.movingTarget (Format.inward Registry.published 4)
        twoVersions).appendTo [0xFF] =
          (.ok (), [0xFF, 0x04, 0x01, 0x13, 0x04, 0x02, 0x00, 0x07]) := rfl
    obtain ⟨inner, w, fields, hinner, hout, hlength, _, _, hread⟩ :=
      written_set_framed hplain hwrite (by decide)
    injection hinner with hinner
    subst hinner
    rw [List.singleton_append] at hout
    have hw := List.tail_eq_of_cons_eq hout
    subst hw
    exact ⟨hplain, hwrite, hlength, (hread (Cursor.ofBytes _) [] rfl).2.1 twoVersions_return⟩
  · have hplain : ∀ e ∈ freshInside, describedBy Table.datalink e = [] :=
      List.forall_mem_singleton.2 rfl
    have hwrite : (write Table.datalink (Format.inward Registry.published 4) freshInside).appendTo
        [] = (.ok (), [0x30, 0x03, 0x01, 0x01, 0x01]) := rfl
    obtain ⟨inner, w, fields, hinner, rfl, _, _, _, hread⟩ :=
      written_set_framed hplain hwrite (by decide)
    injection hinner with hinner
    subst hinner
    obtain ⟨set', hset', hagree⟩ := (hread (Cursor.ofBytes _) [] rfl).2.2 freshInside_returns
    exact ⟨hplain, hwrite, set', hset', hagree.equals_localSet⟩

end FieldSet

end MotionMetadata
