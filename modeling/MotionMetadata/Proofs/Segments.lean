import MotionMetadata.Proofs.SteadySets
import MotionMetadata.Proofs.Untouched

/-!
# A set is written in segments

Every entry of a set is written as a key, a length and a value, and none of the three depends
on where the entry stands or on the entries around it. Only correlation packs look at what is
before them, and they do so when they are read. So the bytes of a set without such packs are
the segments of its entries, one behind another, and an edit changes the segments of the
entries it touches. All others stay as they are and in the order they were in.
-/

namespace MotionMetadata

namespace Encoder

/-- The encoder adds these bytes to any buffer. -/
def Adds (x : Encoder Unit) (w : Bytes) : Prop :=
  ∀ buffer, x.appendTo buffer = (.ok (), buffer ++ w)

variable {x : Encoder Unit} {w : Bytes} {deep : Prop}

theorem adds_iff_forall : x.Adds w ↔ ∀ position, x position = .ok ((), w) := by
  constructor
  · intro h position
    obtain ⟨_, added, hx, heq⟩ := appendTo_eq_ok.1 (h (List.replicate position 0))
    rw [List.length_replicate] at hx
    rw [hx, List.append_cancel_left heq]
  · exact fun h buffer => appendTo_eq_ok.2 ⟨(), w, h _, rfl⟩

/-- What is written the same everywhere is added to any buffer if it is written anywhere. -/
theorem Steady.adds_iff (h : x.Steady deep) {position : Nat} :
    x.Adds w ↔ x position = .ok ((), w) :=
  adds_iff_forall.trans ⟨fun hx => hx position, fun hx => h.moves hx⟩

theorem Adds.unique {w' : Bytes} (h : x.Adds w) (h' : x.Adds w') : w = w' := by
  have hsame := (adds_iff_forall.1 h 0).symm.trans (adds_iff_forall.1 h' 0)
  injection hsame with hsame
  injection hsame

end Encoder

open Encoder

namespace FieldSet

variable {κ : Type}

/-- Entries with the bytes they are written as. -/
abbrev Pieces (κ : Type) := List (Entry κ Value × Bytes)

namespace Pieces

def bytes (pieces : Pieces κ) : Bytes := pieces.flatMap (·.2)

theorem bytes_append (before after : Pieces κ) :
    Pieces.bytes (before ++ after) = before.bytes ++ after.bytes := List.flatMap_append

theorem bytes_cons (e : Entry κ Value) (w : Bytes) (rest : Pieces κ) :
    Pieces.bytes ((e, w) :: rest) = w ++ rest.bytes := List.flatMap_cons

end Pieces

variable [SetKey κ] {table : Table} {inner : Format → Codec} {e : Entry κ Value} {w : Bytes}

/-! ## Segments -/

/-- No entry describes others, as a correlation pack does. -/
def Plain (table : Table) (set : FieldSet κ) : Prop := ∀ e ∈ set, describedBy table e = []

/-- The bytes of an entry: its key, the length of its value, and the value in that length. -/
def IsSegment (table : Table) (inner : Format → Codec) (e : Entry κ Value) (w : Bytes) : Prop :=
  let codec := inner (SetKey.entry table e.key).format
  ∃ spelling content : Bytes, (SetKey.write e.key).Adds spelling ∧
    codec.hintedLength e.value e.width = .ok content.length ∧
    (codec.writeContent e.value content.length).Adds content ∧
    w = spelling ++ (Ber.lengthBytes (UInt64.ofNat content.length) ++ content)

/-- The segment of a field that was kept as bytes shows these bytes. -/
theorem isSegment_blob {key : κ} {raw : Bytes} {width : Option Nat} :
    IsSegment table inner ⟨key, .blob raw, width⟩ w ↔
      ∃ spelling, (SetKey.write key).Adds spelling ∧
        w = spelling ++ (Ber.lengthBytes (UInt64.ofNat raw.length) ++ raw) := by
  have hlength : ∀ codec : Codec, codec.hintedLength (.blob raw) width = .ok raw.length := by
    intro codec
    cases width <;> rfl
  constructor
  · rintro ⟨spelling, content, hkey, _, hcontent, rfl⟩
    obtain rfl : raw = content := by
      have h : Encoder.emit raw 0 = .ok ((), content) := adds_iff_forall.1 hcontent 0
      injection h with h
      injection h
    exact ⟨spelling, hkey, rfl⟩
  · rintro ⟨spelling, hkey, rfl⟩
    exact ⟨spelling, raw, hkey, hlength _, adds_iff_forall.2 fun _ => rfl, rfl⟩

theorem IsSegment.unique {w' : Bytes} (h : IsSegment table inner e w)
    (h' : IsSegment table inner e w') : w = w' := by
  obtain ⟨spelling, content, hkey, hlength, hcontent, rfl⟩ := h
  obtain ⟨spelling', content', hkey', hlength', hcontent', rfl⟩ := h'
  rw [hlength] at hlength'
  injection hlength' with hsame
  rw [← hsame] at hcontent'
  rw [hkey.unique hkey', hcontent.unique hcontent']

variable [SteadyKey κ]

/-- Whatever stands before an entry, its segment is what is written for it. -/
theorem writeEntry_iff_isSegment {Sound : Format → Value → Option Nat → Prop}
    (hcarries : Carries inner Sound)
    (haccepts : (inner (SetKey.entry table e.key).format).Accepts True e.value)
    {earlier : List Tag} {position : Nat} :
    writeEntry table inner earlier e position = .ok ((), w) ↔ IsSegment table inner e w := by
  rw [writeEntry, mapError_eq_ok, ofExcept_bind_eq_ok, hcarries.length]
  constructor
  · rintro ⟨length, hlength, h⟩
    obtain ⟨_, spelling, _, hkey, htail, rfl⟩ := bind_eq_ok.1 h
    obtain ⟨_, header, content, hber, hfield, rfl⟩ := bind_eq_ok.1 htail
    injection hber with hber
    injection hber with _ hber
    subst hber
    obtain ⟨hcontent, rfl⟩ := Codec.writeField_eq_ok.1 hfield
    rw [hcarries.content] at hcontent
    exact ⟨spelling, content, (SteadyKey.write e.key).adds_iff.2 hkey, hlength,
      (haccepts.content _).adds_iff.2 hcontent, rfl⟩
  · rintro ⟨spelling, content, hkey, hlength, hcontent, rfl⟩
    refine ⟨_, hlength, bind_of_ok (adds_iff_forall.1 hkey _) (bind_of_ok rfl ?_)⟩
    refine Codec.writeField_eq_ok.2 ⟨?_, rfl⟩
    rw [hcarries.content]
    exact adds_iff_forall.1 hcontent _

/-! ## Rows of segments -/

/-- The pieces of a set: an entry and its segment for each of its entries, in order. -/
structure Pieces.Of (pieces : Pieces κ) (table : Table) (inner : Format → Codec)
    (set : FieldSet κ) : Prop where
  entries : pieces.map (·.1) = set
  segments : ∀ p ∈ pieces, IsSegment table inner p.1 p.2

namespace Pieces

variable {pieces pieces' : Pieces κ} {set front back : FieldSet κ}

omit [SteadyKey κ]

theorem of_nil : Pieces.Of ([] : Pieces κ) table inner [] := ⟨rfl, nofun⟩

theorem Of.cons (he : IsSegment table inner e w) (h : pieces.Of table inner set) :
    Pieces.Of ((e, w) :: pieces) table inner (e :: set) :=
  ⟨congrArg (e :: ·) h.entries, List.forall_mem_cons.2 ⟨he, h.segments⟩⟩

theorem of_cons_iff :
    pieces.Of table inner (e :: set) ↔ ∃ w rest, pieces = (e, w) :: rest ∧
      IsSegment table inner e w ∧ Pieces.Of rest table inner set := by
  constructor
  · rintro ⟨hentries, hsegments⟩
    obtain ⟨⟨_, w⟩, rest, rfl, rfl, hrest⟩ := List.map_eq_cons_iff.1 hentries
    obtain ⟨hp, hmore⟩ := List.forall_mem_cons.1 hsegments
    exact ⟨w, rest, rfl, hp, hrest, hmore⟩
  · rintro ⟨w, rest, rfl, he, hrest⟩
    exact hrest.cons he

theorem of_append_iff :
    pieces.Of table inner (front ++ back) ↔ ∃ before after : Pieces κ, pieces = before ++ after ∧
      before.Of table inner front ∧ after.Of table inner back := by
  constructor
  · rintro ⟨hentries, hsegments⟩
    obtain ⟨before, after, rfl, hbefore, hafter⟩ := List.map_eq_append_iff.1 hentries
    obtain ⟨hsegments, hsegments'⟩ := List.forall_mem_append.1 hsegments
    exact ⟨before, after, rfl, ⟨hbefore, hsegments⟩, hafter, hsegments'⟩
  · rintro ⟨before, after, rfl, hbefore, hafter⟩
    refine ⟨?_, List.forall_mem_append.2 ⟨hbefore.segments, hafter.segments⟩⟩
    rw [List.map_append, hbefore.entries, hafter.entries]

/-- A set has no other pieces. -/
theorem Of.unique (h : pieces.Of table inner set) (h' : pieces'.Of table inner set) :
    pieces = pieces' := by
  induction set generalizing pieces pieces' with
  | nil => rw [List.map_eq_nil_iff.1 h.entries, List.map_eq_nil_iff.1 h'.entries]
  | cons e set ih =>
      obtain ⟨w, rest, rfl, he, hrest⟩ := of_cons_iff.1 h
      obtain ⟨w', rest', rfl, he', hrest'⟩ := of_cons_iff.1 h'
      rw [he.unique he', ih hrest hrest']

/-- Where entries are left out, their segments are. -/
theorem Of.filter (h : pieces.Of table inner set) (keep : Entry κ Value → Bool) :
    Pieces.Of (pieces.filter fun p => keep p.1) table inner (set.filter keep) where
  entries := by rw [← h.entries, List.filter_map]; rfl
  segments p hp := h.segments p (List.mem_of_mem_filter hp)

end Pieces

variable {Sound : Format → Value → Option Nat → Prop} {set : FieldSet κ}

theorem writeEntries_iff_pieces (hcarries : Carries inner Sound)
    (haccepts : ∀ f v, (inner f).Accepts True v) {earlier : List Tag} {position : Nat} :
    writeEntries table inner earlier set position = .ok ((), w) ↔
      ∃ pieces : Pieces κ, pieces.Of table inner set ∧ w = pieces.bytes := by
  induction set generalizing earlier position w with
  | nil =>
      constructor
      · intro h
        injection h with h
        injection h with _ h
        exact ⟨[], Pieces.of_nil, h.symm⟩
      · rintro ⟨pieces, hpieces, rfl⟩
        rw [List.map_eq_nil_iff.1 hpieces.entries]
        rfl
  | cons e set ih =>
      rw [writeEntries, bind_eq_ok]
      constructor
      · rintro ⟨_, segment, _, he, hset, rfl⟩
        obtain ⟨pieces, hpieces, rfl⟩ := ih.1 hset
        exact ⟨_, hpieces.cons ((writeEntry_iff_isSegment hcarries (haccepts _ _)).1 he), rfl⟩
      · rintro ⟨pieces, hpieces, rfl⟩
        obtain ⟨segment, rest, rfl, he, hrest⟩ := Pieces.of_cons_iff.1 hpieces
        refine ⟨(), segment, Pieces.bytes rest, ?_, ih.2 ⟨rest, hrest, rfl⟩, rfl⟩
        exact (writeEntry_iff_isSegment hcarries (haccepts _ _)).2 he

/-- A set without correlation packs is written as the segments of its entries. -/
theorem write_iff_pieces (hcarries : Carries inner Sound)
    (haccepts : ∀ f v, (inner f).Accepts True v) (hplain : Plain table set) :
    (write table (some inner) set).Adds w ↔
      ∃ pieces : Pieces κ, pieces.Of table inner set ∧ w = pieces.bytes := by
  rw [adds_iff_forall]
  have hwrite : ∀ position, write table (some inner) set position = .ok ((), w) ↔
      ∃ pieces : Pieces κ, pieces.Of table inner set ∧ w = pieces.bytes := by
    intro position
    rw [write_eq_ok, writeOrder_of_plain hplain, ← writeEntries_iff_pieces hcarries haccepts]
    exact ⟨fun ⟨_, horder, h⟩ => (Except.ok.inj horder) ▸ h, fun h => ⟨set, rfl, h⟩⟩
  exact ⟨fun h => (hwrite 0).1 (h 0), fun h position => (hwrite position).2 h⟩

/-! ## Lengths -/

omit [SteadyKey κ]

theorem entriesLength_append {front back : FieldSet κ} {n : Nat} :
    entriesLength table inner (front ++ back) = .ok n ↔
      ∃ m k, entriesLength table inner front = .ok m ∧ entriesLength table inner back = .ok k ∧
        n = m + k := by
  induction front generalizing n with
  | nil =>
      constructor
      · exact fun h => ⟨0, n, rfl, h, (Nat.zero_add n).symm⟩
      · rintro ⟨_, k, hm, hk, rfl⟩
        cases hm
        rwa [Nat.zero_add]
  | cons e front ih =>
      rw [List.cons_append, entriesLength, entriesLength, except_bind_eq_ok]
      constructor
      · rintro ⟨length, hlength, h⟩
        obtain ⟨more, hmore, h⟩ := except_bind_eq_ok.1 h
        obtain ⟨m, k, hm, hk, rfl⟩ := ih.1 hmore
        cases h
        exact ⟨_, k, except_bind_eq_ok.2 ⟨length, hlength, except_bind_eq_ok.2 ⟨m, hm, rfl⟩⟩, hk,
          (Nat.add_assoc ..).symm⟩
      · rintro ⟨_, k, h, hk, rfl⟩
        obtain ⟨length, hlength, h⟩ := except_bind_eq_ok.1 h
        obtain ⟨m, hm, h⟩ := except_bind_eq_ok.1 h
        cases h
        refine ⟨length, hlength, except_bind_eq_ok.2 ⟨m + k, ih.2 ⟨m, k, hm, hk, rfl⟩, ?_⟩⟩
        exact congrArg Except.ok (Nat.add_assoc ..).symm

theorem encodedLength_iff (hplain : Plain table set) {n : Nat} :
    encodedLength table (some inner) set = .ok n ↔ entriesLength table inner set = .ok n := by
  show (do let _ ← writeOrder table set; entriesLength table inner set) = _ ↔ _
  rw [writeOrder_of_plain hplain]
  rfl

/-! ## Edits -/

/-- What an edit changes is the first entry under the key. -/
theorem modify?_eq_some {set' : FieldSet κ} {key : κ} {f : Value → Value}
    (h : set.modify? key f = some set') :
    ∃ front e back, set = front ++ e :: back ∧ (∀ x ∈ front, ¬ FieldKey.same x.key key) ∧
      FieldKey.same e.key key ∧ set' = front ++ ⟨e.key, f e.value, none⟩ :: back := by
  induction set generalizing set' with
  | nil => cases h
  | cons e set ih =>
      rw [modify?] at h
      split at h
      · next hkey =>
          injection h with h
          exact ⟨[], e, set, rfl, nofun, hkey, h.symm⟩
      · next hkey =>
          obtain ⟨rest, hrest, rfl⟩ := Option.map_eq_some_iff.1 h
          obtain ⟨front, e', back, rfl, hfront, hkey', rfl⟩ := ih hrest
          exact ⟨e :: front, e', back, rfl, List.forall_mem_cons.2 ⟨hkey, hfront⟩, hkey', rfl⟩

section Edited

variable [SteadyKey κ] {pieces : Pieces κ} {key : κ}

/-- One set behind another is written as the bytes of both. -/
theorem write_append (hcarries : Carries inner Sound) (haccepts : ∀ f v, (inner f).Accepts True v)
    {front back : FieldSet κ} (hfront : Plain table front) (hback : Plain table back) :
    (write table (some inner) (front ++ back)).Adds w ↔
      ∃ w₁ w₂, (write table (some inner) front).Adds w₁ ∧ (write table (some inner) back).Adds w₂ ∧
        w = w₁ ++ w₂ := by
  have hplain : Plain table (front ++ back) := List.forall_mem_append.2 ⟨hfront, hback⟩
  simp only [write_iff_pieces hcarries haccepts hplain, write_iff_pieces hcarries haccepts hfront,
    write_iff_pieces hcarries haccepts hback]
  constructor
  · rintro ⟨pieces, hpieces, rfl⟩
    obtain ⟨before, after, rfl, hbefore, hafter⟩ := Pieces.of_append_iff.1 hpieces
    exact ⟨_, _, ⟨before, hbefore, rfl⟩, ⟨after, hafter, rfl⟩, before.bytes_append after⟩
  · rintro ⟨_, _, ⟨before, hbefore, rfl⟩, ⟨after, hafter, rfl⟩, rfl⟩
    exact ⟨before ++ after, Pieces.of_append_iff.2 ⟨before, after, rfl, hbefore, hafter⟩,
      (before.bytes_append after).symm⟩

/-- The segment of an entry is what a set of this entry alone is written as. -/
theorem write_singleton (hcarries : Carries inner Sound)
    (haccepts : ∀ f v, (inner f).Accepts True v) (hplain : Plain table [e]) :
    (write table (some inner) [e]).Adds w ↔ IsSegment table inner e w := by
  rw [write_iff_pieces hcarries haccepts hplain]
  constructor
  · rintro ⟨pieces, hpieces, rfl⟩
    obtain ⟨segment, rest, rfl, he, hrest⟩ := Pieces.of_cons_iff.1 hpieces
    rw [List.map_eq_nil_iff.1 hrest.entries]
    simpa [Pieces.bytes] using he
  · exact fun he => ⟨[(e, w)], Pieces.of_nil.cons he, (List.append_nil w).symm⟩

theorem write_erase (hcarries : Carries inner Sound) (haccepts : ∀ f v, (inner f).Accepts True v)
    (hplain : Plain table set) (hpieces : pieces.Of table inner set) :
    (write table (some inner) (set.erase key)).Adds
      (Pieces.bytes (pieces.filter fun p => !FieldKey.same p.1.key key)) := by
  have herased : Plain table (set.erase key) := fun e he => hplain e (List.mem_of_mem_filter he)
  rw [write_iff_pieces hcarries haccepts herased]
  exact ⟨_, hpieces.filter fun e => !FieldKey.same e.key key, rfl⟩

theorem write_add (hcarries : Carries inner Sound) (haccepts : ∀ f v, (inner f).Accepts True v)
    (hplain : Plain table set) (hwrite : (write table (some inner) set).Adds w) {v : Value}
    (hadded : Plain table [⟨key, v, none⟩]) {w' : Bytes} :
    (write table (some inner) (set.add key v)).Adds w' ↔
      ∃ segment, IsSegment table inner ⟨key, v, none⟩ segment ∧ w' = w ++ segment := by
  rw [add, write_append hcarries haccepts hplain hadded]
  simp only [write_singleton hcarries haccepts hadded]
  constructor
  · rintro ⟨first, segment, hfirst, hsegment, rfl⟩
    exact ⟨segment, hsegment, by rw [hfirst.unique hwrite]⟩
  · rintro ⟨segment, hsegment, rfl⟩
    exact ⟨w, segment, hwrite, hsegment, rfl⟩

theorem write_modified (hcarries : Carries inner Sound)
    (haccepts : ∀ f v, (inner f).Accepts True v) (hpieces : pieces.Of table inner set)
    {f : Value → Value} {set' : FieldSet κ} (hmodify : set.modify? key f = some set')
    (hplain' : Plain table set') :
    ∃ (before : Pieces κ) (e : Entry κ Value) (old : Bytes) (after : Pieces κ),
      pieces = before ++ (e, old) :: after ∧ FieldKey.same e.key key ∧
      (∀ p ∈ before, ¬ FieldKey.same p.1.key key) ∧
      set' = before.map (·.1) ++ ⟨e.key, f e.value, none⟩ :: after.map (·.1) ∧
      ∀ w', (write table (some inner) set').Adds w' ↔
        ∃ segment, IsSegment table inner ⟨e.key, f e.value, none⟩ segment ∧
          w' = before.bytes ++ (segment ++ after.bytes) := by
  obtain ⟨front, e, back, rfl, hfront, hkey, rfl⟩ := modify?_eq_some hmodify
  obtain ⟨before, rest, rfl, hbefore, hrest⟩ := Pieces.of_append_iff.1 hpieces
  obtain ⟨old, after, rfl, hold, hafter⟩ := Pieces.of_cons_iff.1 hrest
  refine ⟨before, e, old, after, rfl, hkey, fun p hp => hfront p.1 ?_, ?_, fun w' => ?_⟩
  · exact hbefore.entries ▸ List.mem_map_of_mem hp
  · rw [hbefore.entries, hafter.entries]
  · rw [write_iff_pieces hcarries haccepts hplain']
    constructor
    · rintro ⟨pieces', hpieces', rfl⟩
      obtain ⟨before', rest', rfl, hbefore', hrest'⟩ := Pieces.of_append_iff.1 hpieces'
      obtain ⟨segment, after', rfl, hsegment, hafter'⟩ := Pieces.of_cons_iff.1 hrest'
      rw [hbefore'.unique hbefore, hafter'.unique hafter]
      exact ⟨segment, hsegment, by rw [Pieces.bytes_append, Pieces.bytes_cons]⟩
    · rintro ⟨segment, hsegment, rfl⟩
      exact ⟨before ++ (_, segment) :: after,
        Pieces.of_append_iff.2 ⟨before, _, rfl, hbefore, hafter.cons hsegment⟩,
        by rw [Pieces.bytes_append, Pieces.bytes_cons]⟩

end Edited

/-- Sets without correlation packs are written in segments, one for each entry. One set behind
another is written exactly if both are, as the bytes of both, and its length is the sum of
theirs. So in a set that is written, an erased key takes its segments away, an added entry puts
its own behind the others, and a changed entry replaces the one it had: the segments of all
other entries are the same bytes in the same order. The segment of a field that was kept as
bytes ends in these bytes. -/
theorem written_in_segments [SteadyKey κ] (registry : Registry) (levels : Nat) (table : Table) :
    let codecs := Format.inward registry levels
    (∀ (s : FieldSet κ) buffer out, (write table codecs s).appendTo buffer = (.ok (), out) ↔
      ∃ w, (write table codecs s).Adds w ∧ out = buffer ++ w) ∧
    (∀ s₁ s₂ : FieldSet κ, Plain table s₁ → Plain table s₂ →
      (∀ w, (write table codecs (s₁ ++ s₂)).Adds w ↔
        ∃ w₁ w₂, (write table codecs s₁).Adds w₁ ∧ (write table codecs s₂).Adds w₂ ∧
          w = w₁ ++ w₂) ∧
      ∀ n, encodedLength table codecs (s₁ ++ s₂) = .ok n ↔
        ∃ n₁ n₂, encodedLength table codecs s₁ = .ok n₁ ∧
          encodedLength table codecs s₂ = .ok n₂ ∧ n = n₁ + n₂) ∧
    ∀ inner, codecs = some inner → ∀ (s : FieldSet κ) w, Plain table s →
      (write table codecs s).Adds w →
      ∃ pieces : Pieces κ, pieces.Of table inner s ∧ w = pieces.bytes ∧
        (∀ key raw width segment, (⟨key, .blob raw, width⟩, segment) ∈ pieces →
          ∃ spelling, (SetKey.write key).Adds spelling ∧
            segment = spelling ++ (Ber.lengthBytes (UInt64.ofNat raw.length) ++ raw)) ∧
        (∀ key, (write table codecs (s.erase key)).Adds
          (Pieces.bytes (pieces.filter fun p => !FieldKey.same p.1.key key))) ∧
        (∀ key v, Plain table [⟨key, v, none⟩] → ∀ w',
          (write table codecs (s.add key v)).Adds w' ↔
            ∃ segment, IsSegment table inner ⟨key, v, none⟩ segment ∧ w' = w ++ segment) ∧
        ∀ key f s', s.modify? key f = some s' → Plain table s' →
          ∃ (before : Pieces κ) (e : Entry κ Value) (old : Bytes) (after : Pieces κ),
            pieces = before ++ (e, old) :: after ∧ FieldKey.same e.key key ∧
            (∀ p ∈ before, ¬ FieldKey.same p.1.key key) ∧
            s' = before.map (·.1) ++ ⟨e.key, f e.value, none⟩ :: after.map (·.1) ∧
            ∀ w', (write table codecs s').Adds w' ↔
              ∃ segment, IsSegment table inner ⟨e.key, f e.value, none⟩ segment ∧
                w' = before.bytes ++ (segment ++ after.bytes) := by
  intro codecs
  cases levels with
  | zero =>
      -- No level is left for the entries, and no set is written.
      have hnone : ∀ (s : FieldSet κ) position r, write table none s position ≠ .ok r := nofun
      have hadds : ∀ (s : FieldSet κ) w, ¬ (write table none s).Adds w :=
        fun s w h => hnone s 0 _ (adds_iff_forall.1 h 0)
      refine ⟨fun s buffer out => ?_, fun s₁ s₂ _ _ => ⟨fun w => ?_, fun n => ?_⟩, nofun⟩
      · rw [appendTo_eq_ok]
        exact iff_of_false (fun ⟨_, _, h, _⟩ => hnone s _ _ h) fun ⟨w, h, _⟩ => hadds s w h
      · exact iff_of_false (hadds _ w) fun ⟨w₁, _, h, _⟩ => hadds s₁ w₁ h
      · exact iff_of_false nofun fun ⟨_, _, h, _⟩ => nomatch h
  | succ levels =>
      have hcarries := Format.codec_carries registry levels
      have haccepts := Format.codec_accepts registry levels
      refine ⟨fun s buffer out => ?_, fun s₁ s₂ h₁ h₂ => ⟨fun w => ?_, fun n => ?_⟩, ?_⟩
      · have hsteady : (write table codecs s).Steady True := by
          refine write_steady (fun _ => trivial) fun inner hinner e _ => ?_
          injection hinner with hinner
          subst hinner
          exact (entryAccepted_iff hcarries []).1 (haccepts _ _)
        rw [appendTo_eq_ok]
        constructor
        · rintro ⟨_, w, hw, rfl⟩
          exact ⟨w, hsteady.adds_iff.2 hw, rfl⟩
        · rintro ⟨w, hw, rfl⟩
          exact ⟨(), w, hsteady.adds_iff.1 hw, rfl⟩
      · exact write_append hcarries haccepts h₁ h₂
      · have hplain : Plain table (s₁ ++ s₂) := List.forall_mem_append.2 ⟨h₁, h₂⟩
        simp only [codecs, Format.inward, encodedLength_iff hplain, encodedLength_iff h₁,
          encodedLength_iff h₂, entriesLength_append]
      · intro inner hinner s w hplain hwrite
        injection hinner with hinner
        subst hinner
        obtain ⟨pieces, hpieces, rfl⟩ := (write_iff_pieces hcarries haccepts hplain).1 hwrite
        exact ⟨pieces, hpieces, rfl,
          fun key raw width segment hmem => isSegment_blob.1 (hpieces.segments _ hmem),
          fun key => write_erase hcarries haccepts hplain hpieces,
          fun key v hadded w' => write_add hcarries haccepts hplain hwrite hadded,
          fun key f s' hmodify => write_modified hcarries haccepts hpieces hmodify⟩

/-- A version that came in two bytes, and a field that nobody knows. -/
def wideVersion : FieldSet Tag := [⟨4, .uint 19, some 2⟩, ⟨99, .blob [0xAB], some 1⟩]

/-- The same with another version. -/
def newVersion : FieldSet Tag := [⟨4, .uint 20, none⟩, ⟨99, .blob [0xAB], some 1⟩]

/-- The new version takes a byte less, and the field behind it is as it was. -/
theorem wideVersion_edited :
    let codecs := Format.inward Registry.published 4
    (Plain Table.movingTarget wideVersion ∧ Plain Table.movingTarget newVersion ∧
      wideVersion.modify? 4 (fun _ => .uint 20) = some newVersion ∧
      (write Table.movingTarget codecs wideVersion).Adds [0x04, 0x02, 0, 0x13, 0x63, 0x01, 0xAB]) ∧
    ∃ front old new back : Bytes,
      [0x04, 0x02, 0, 0x13, 0x63, 0x01, 0xAB] = front ++ (old ++ back) ∧
      [0x04, 0x01, 0x14, 0x63, 0x01, 0xAB] = front ++ (new ++ back) ∧
      (write Table.movingTarget codecs newVersion).Adds (front ++ (new ++ back)) := by
  intro codecs
  have hplain : Plain Table.movingTarget wideVersion := by
    simp only [Plain, wideVersion, List.forall_mem_cons]
    exact ⟨rfl, rfl, by simp⟩
  have hplain' : Plain Table.movingTarget newVersion := by
    simp only [Plain, newVersion, List.forall_mem_cons]
    exact ⟨rfl, rfl, by simp⟩
  have hmodify : wideVersion.modify? 4 (fun _ => .uint 20) = some newVersion := rfl
  have hwrite : (write Table.movingTarget codecs wideVersion).Adds
      [0x04, 0x02, 0, 0x13, 0x63, 0x01, 0xAB] := adds_iff_forall.2 fun _ => rfl
  have hwrite' : (write Table.movingTarget codecs newVersion).Adds
      [0x04, 0x01, 0x14, 0x63, 0x01, 0xAB] := adds_iff_forall.2 fun _ => rfl
  obtain ⟨pieces, _, hbytes, _, _, _, hedit⟩ :=
    (written_in_segments .published 4 Table.movingTarget).2.2 _ rfl wideVersion _ hplain hwrite
  obtain ⟨before, e, old, after, rfl, _, _, _, hnew⟩ := hedit 4 _ _ hmodify hplain'
  obtain ⟨segment, _, heq⟩ := (hnew _).1 hwrite'
  rw [Pieces.bytes_append, Pieces.bytes_cons] at hbytes
  exact ⟨⟨hplain, hplain', hmodify, hwrite⟩, before.bytes, old, segment, Pieces.bytes after, hbytes,
    heq, heq ▸ hwrite'⟩

end FieldSet

end MotionMetadata
