import MotionMetadata.Proofs.Lookups
import MotionMetadata.Table.Index

/-!
# What an index finds

The four maps of an index are filled one entry after the other. After each step a map holds,
under every key, the place of the one entry so far that answers to it: that is `Holds`. A place
is only put where none was, because the pass ends otherwise, and it ends with the fault that
the first clash of the entries is (`Ends`).

What is looked up in the end is the entry at the place that was recorded. So an index answers
as the table does that goes through its entries.
-/

namespace MotionMetadata.Table

variable {entries : List TagEntry} {bound : Nat} {place : Fin entries.length} {name : String}
  {before : List TagEntry}

/-- A result as a fault that may be found wants it: that fault, or else something good. -/
def Ends {α : Type} (fault? : Option Fault) (good : α → Prop) (result : Except Error α) : Prop :=
  match fault? with
  | some fault => result = raise fault
  | none => ∃ a, result = .ok a ∧ good a

/-- The first fault of two steps is that of the first, or else that of the second. -/
theorem Ends.bind {α β : Type} {first second : Option Fault} {good : α → Prop} {good' : β → Prop}
    {x : Except Error α} {k : α → Except Error β} (hx : Ends first good x)
    (hk : ∀ a, good a → Ends second good' (k a)) : Ends (first.or second) good' (x >>= k) := by
  cases first with
  | some fault =>
      have hx : x = raise fault := hx
      rw [hx]
      exact rfl
  | none =>
      obtain ⟨a, rfl, ha⟩ := hx
      exact hk a ha

/-! ## One map -/

section Maps

variable {κ : Type} [BEq κ] [Hashable κ] {aspect : Aspect κ} {key : κ}
  {map : Std.HashMap κ (Fin entries.length)}

/-- Under each key stands the place of the entry that answers to it, if there is one behind the
first and before `bound`. -/
def Holds (aspect : Aspect κ) (bound : Nat) (map : Std.HashMap κ (Fin entries.length)) : Prop :=
  ∀ key place, map[key]? = some place ↔
    0 < place.val ∧ place.val < bound ∧ aspect.answers (entries.get place) key = true

theorem record_eq_ok_of_none (hof : aspect.of (entries.get place) = none) :
    Places.record aspect name map place (entries.get place) = .ok map := by
  rw [Places.record, hof]

theorem record_eq (hof : aspect.of (entries.get place) = some key) :
    Places.record aspect name map place (entries.get place) =
      if map.contains key then raise (aspect.taken name key) else .ok (map.insert key place) := by
  rw [Places.record, hof]
  simp only [Std.HashMap.containsThenInsert_fst, Std.HashMap.containsThenInsert_snd]

/-- The list has the entries behind the first and before `bound`, in whatever order. -/
def Passed (entries : List TagEntry) (bound : Nat) (before : List TagEntry) : Prop :=
  ∀ a, a ∈ before ↔ ∃ i : Fin entries.length, 0 < i.val ∧ i.val < bound ∧ entries.get i = a

theorem Passed.cons (place : Fin entries.length) (h : Passed entries place before)
    (hpos : 0 < place.val) : Passed entries (place + 1) (entries.get place :: before) := by
  intro a
  rw [List.mem_cons, h a]
  constructor
  · intro hmem
    rcases hmem with rfl | ⟨i, hi, hlt, ha⟩
    · exact ⟨place, hpos, Nat.lt_succ_self _, rfl⟩
    · exact ⟨i, hi, by omega, ha⟩
  · intro hplace
    obtain ⟨i, hi, hlt, ha⟩ := hplace
    rcases Nat.lt_succ_iff_lt_or_eq.1 hlt with hlt | heq
    · exact .inr ⟨i, hi, hlt, ha⟩
    · rw [Fin.ext heq] at ha
      exact .inl ha.symm

namespace Holds

theorem empty : Holds aspect 1 (∅ : Std.HashMap κ (Fin entries.length)) := by
  intro key place
  simp only [Std.HashMap.getElem?_empty]
  constructor
  · intro h
    cases h
  · intro h
    omega

/-- One entry on, a map has the place of that entry besides, under what it answers to. -/
theorem next {map' : Std.HashMap κ (Fin entries.length)} (h : Holds aspect place map)
    (hpos : 0 < place.val)
    (hmap : ∀ key found, map'[key]? = some found ↔ map[key]? = some found ∨
      found = place ∧ aspect.answers (entries.get place) key = true) :
    Holds aspect (place + 1) map' := by
  intro key found
  rw [hmap key found, h key found, Nat.lt_succ_iff_lt_or_eq, ← Fin.ext_iff]
  constructor
  · intro hfound
    rcases hfound with ⟨hfound, hlt, hkey⟩ | ⟨rfl, hkey⟩
    · exact ⟨hfound, .inl hlt, hkey⟩
    · exact ⟨hpos, .inr rfl, hkey⟩
  · intro hfound
    obtain ⟨hfound, hlt | rfl, hkey⟩ := hfound
    · exact .inl ⟨hfound, hlt, hkey⟩
    · exact .inr ⟨rfl, hkey⟩

/-- An entry that answers to nothing leaves no trace. -/
theorem skip (h : Holds aspect place map) (hpos : 0 < place.val)
    (hof : aspect.of (entries.get place) = none) : Holds aspect (place + 1) map := by
  refine h.next hpos fun key found => (or_iff_left fun hfound => ?_).symm
  have hkey := hfound.2
  rw [Aspect.answers, hof] at hkey
  cases hkey

/-- At the end of the pass a lookup finds what there is. -/
theorem finds {index : Index} {map : Std.HashMap κ (Fin index.entries.length)}
    (h : Holds aspect index.entries.length map) (key : κ) :
    Finds index.entries (fun e => aspect.answers e key = true) (index.entryAt map[key]?) := by
  have hplace : ∀ (j : Nat) a, 0 < j → index.entries[j]? = some a →
      aspect.answers a key = true → ∃ hlt, map[key]? = some ⟨j, hlt⟩ := by
    intro j a hj ha hkey
    obtain ⟨hlt, rfl⟩ := List.getElem?_eq_some_iff.1 ha
    exact ⟨hlt, (h key ⟨j, hlt⟩).2 ⟨hj, hlt, hkey⟩⟩
  cases hfound : map[key]? with
  | none =>
      refine .unknown (List.getElem?_eq_getElem index.nonempty) fun j a hj ha hkey => ?_
      obtain ⟨hlt, hsome⟩ := hplace j a hj ha hkey
      rw [hfound] at hsome
      cases hsome
  | some place =>
      obtain ⟨hpos, -, hkey⟩ := (h key place).1 hfound
      refine .known hpos (List.getElem?_eq_getElem place.isLt) hkey fun j a hj ha hkey => ?_
      obtain ⟨hlt, hsome⟩ := hplace j a hj ha hkey
      rw [hfound] at hsome
      injection hsome with hsome
      rw [hsome]

variable [EquivBEq κ] [LawfulHashable κ]

theorem contains_eq (h : Holds aspect place map) (hbefore : Passed entries place before) :
    map.contains key = before.any (aspect.answers · key) := by
  rw [Bool.eq_iff_iff, Std.HashMap.contains_eq_isSome_getElem?, Option.isSome_iff_exists,
    List.any_eq_true]
  constructor
  · intro hplace
    obtain ⟨i, hi⟩ := hplace
    obtain ⟨hpos, hlt, hkey⟩ := (h key i).1 hi
    exact ⟨entries.get i, (hbefore _).2 ⟨i, hpos, hlt, rfl⟩, hkey⟩
  · intro hplace
    obtain ⟨a, ha, hkey⟩ := hplace
    obtain ⟨i, hpos, hlt, rfl⟩ := (hbefore a).1 ha
    exact ⟨i, (h key i).2 ⟨hpos, hlt, hkey⟩⟩

theorem insert (h : Holds aspect place map) (hpos : 0 < place.val)
    (hof : aspect.of (entries.get place) = some key) (hnew : map.contains key = false) :
    Holds aspect (place + 1) (map.insert key place) := by
  refine h.next hpos fun other found => ?_
  rw [Std.HashMap.getElem?_insert, Aspect.answers, hof, Option.any_some]
  cases hkey : key == other with
  | true =>
      -- Nothing stood under the key before.
      rw [Std.HashMap.contains_congr hkey, Std.HashMap.contains_eq_isSome_getElem?,
        Option.isSome_eq_false_iff, Option.isNone_iff_eq_none] at hnew
      simp [hnew, eq_comm]
  | false => simp

/-- What becomes of a map at one entry. -/
theorem record (h : Holds aspect place map) (hpos : 0 < place.val)
    (hbefore : Passed entries place before) :
    Ends (aspect.shared? name before (entries.get place)) (Holds aspect (place + 1))
      (Places.record aspect name map place (entries.get place)) := by
  rw [Aspect.shared?]
  cases hof : aspect.of (entries.get place) with
  | none => exact ⟨map, record_eq_ok_of_none hof, h.skip hpos hof⟩
  | some key =>
      have htaken : map.contains key = before.any (aspect.answers · key) := h.contains_eq hbefore
      rw [record_eq hof, htaken]
      cases hany : before.any (aspect.answers · key) with
      | true =>
          simp only [hany]
          exact rfl
      | false =>
          simp only [hany]
          exact ⟨_, rfl, h.insert hpos hof (htaken.trans hany)⟩

end Holds

end Maps

/-! ## The pass -/

/-- Each map holds the entries before `bound`. -/
structure Places.Hold (bound : Nat) (places : Places entries.length) : Prop where
  tags : Holds .tag bound places.tags
  keys : Holds .key bound places.keys
  names : Holds .name bound places.names
  symbols : Holds .symbol bound places.symbols

namespace Places.Hold

variable {places : Places entries.length}

/-- What the pass does at one entry. -/
theorem enter (place : Fin entries.length) (h : places.Hold place.val) (hpos : 0 < place.val)
    (hbefore : Passed entries place before) :
    Ends (clash? name before (entries.get place)) (Hold (place + 1))
      (places.enter name place (entries.get place)) := by
  refine (h.tags.record hpos hbefore).bind fun tags htags => ?_
  refine (h.keys.record hpos hbefore).bind fun keys hkeys => ?_
  refine (h.names.record hpos hbefore).bind fun names hnames => ?_
  rw [← Option.or_none (o := Aspect.symbol.shared? name before _)]
  refine (h.symbols.record hpos hbefore).bind fun symbols hsymbols => ?_
  exact ⟨_, rfl, htags, hkeys, hnames, hsymbols⟩

/-- What the pass does from one entry to the end. -/
theorem run (h : places.Hold bound) (hpos : 0 < bound) (hle : bound ≤ entries.length)
    (hbefore : Passed entries bound before) :
    Ends (firstClash? name before (entries.drop bound)) (Hold entries.length)
      (((List.finRange entries.length).drop bound).foldlM
        (fun places place => places.enter name place (entries.get place)) places) := by
  induction hleft : entries.length - bound generalizing bound before places with
  | zero =>
      obtain rfl : bound = entries.length := by omega
      have hrange : (List.finRange entries.length).drop entries.length = [] :=
        List.drop_eq_nil_of_le (Nat.le_of_eq List.length_finRange)
      rw [List.drop_length, hrange]
      exact ⟨places, rfl, h⟩
  | succ left ih =>
      have hlt : bound < entries.length := by omega
      have hrange : (List.finRange entries.length).drop bound =
          ⟨bound, hlt⟩ :: (List.finRange entries.length).drop (bound + 1) := by
        rw [List.drop_eq_getElem_cons (by rwa [List.length_finRange]), List.getElem_finRange]
        rfl
      have hcons : entries.drop bound = entries.get ⟨bound, hlt⟩ :: entries.drop (bound + 1) :=
        List.drop_eq_getElem_cons hlt
      rw [hcons, hrange, firstClash?, List.foldlM_cons]
      refine (h.enter ⟨bound, hlt⟩ hpos hbefore).bind fun places hplaces => ?_
      exact ih hplaces (Nat.succ_pos bound) hlt (hbefore.cons ⟨bound, hlt⟩ hpos) (by omega)

end Places.Hold

namespace Index

variable {index : Index}

/-- The maps hold all entries behind the first. -/
def Filled (index : Index) : Prop := index.places.Hold index.entries.length

theorem build_ends (name : String) (unknown : TagEntry) (known : List TagEntry) :
    Ends (firstClash? name [] known)
      (fun index => index.Filled ∧ index.table = ⟨name, unknown, known⟩ ∧
        index.entries = unknown :: known)
      (build name (unknown :: known)) := by
  have hnonempty : 0 < (unknown :: known).length := Nat.succ_pos _
  have hempty : Places.Hold 1 ({} : Places (unknown :: known).length) :=
    ⟨.empty, .empty, .empty, .empty⟩
  have hpassed : Passed (unknown :: known) 1 [] := by
    intro a
    constructor
    · intro ha
      cases ha
    · intro hplace
      obtain ⟨i, hi, hlt, _⟩ := hplace
      omega
  rw [build, dif_pos hnonempty, ← Option.or_none (o := firstClash? name [] known)]
  refine (hempty.run Nat.one_pos hnonempty hpassed).bind fun places hplaces => ?_
  exact ⟨_, rfl, hplaces, rfl, rfl⟩

/-- Building an index refuses what going through the entries does, for the same reason. -/
theorem map_table_build (name : String) (entries : List TagEntry) :
    (build name entries).map Index.table = ofEntries name entries := by
  cases entries with
  | nil => rfl
  | cons unknown known =>
      have hends := build_ends name unknown known
      rw [ofEntries]
      cases hclash : firstClash? name [] known with
      | some fault =>
          rw [hclash] at hends
          have hbuild : build name (unknown :: known) = raise fault := hends
          rw [hbuild]
          rfl
      | none =>
          rw [hclash] at hends
          obtain ⟨index, hbuild, -, htable, -⟩ := hends
          rw [hbuild, ← htable]
          rfl

theorem build_cons_eq_ok {unknown : TagEntry} {known : List TagEntry}
    (h : build name (unknown :: known) = .ok index) :
    index.Filled ∧ index.table = ⟨name, unknown, known⟩ ∧ index.entries = unknown :: known := by
  have hends := build_ends name unknown known
  cases hclash : firstClash? name [] known with
  | some fault =>
      rw [hclash] at hends
      cases h.symm.trans (show build name (unknown :: known) = raise fault from hends)
  | none =>
      rw [hclash] at hends
      obtain ⟨_, hbuild, hindex⟩ := hends
      cases h.symm.trans hbuild
      exact hindex

/-- Every question has the same answer from the index as from the table of its entries. -/
structure Answers (index : Index) (table : Table) : Prop where
  tag (tag : Tag) : index.byTag tag = table.byTag tag
  key (key : UniversalKey) : index.byKey key = table.byKey key
  name (name : String) : index.byName name = table.byName name
  symbol (symbol : String) : index.bySymbol symbol = table.bySymbol symbol

theorem unknown_cons_known (index : Index) :
    index.unknown :: index.table.known = index.entries := by
  obtain ⟨name, entries, hnonempty, places⟩ := index
  cases entries with
  | nil => cases hnonempty
  | cons first rest => rfl

theorem entryAt_eq_lookup {κ : Type} [BEq κ] [Hashable κ] [EquivBEq κ] {aspect : Aspect κ}
    {map : Std.HashMap κ (Fin index.entries.length)} (h : Holds aspect index.entries.length map)
    (hknown : index.table.known.Pairwise fun a b => ¬ aspect.Shared a b) (key : κ) :
    index.entryAt map[key]? = index.table.lookup aspect key := by
  have hlookup : Finds (index.unknown :: index.table.known) (fun e => aspect.answers e key = true)
      (index.table.lookup aspect key) := lookup_finds hknown key
  rw [unknown_cons_known] at hlookup
  exact (h.finds key).unique hlookup

theorem Filled.answers (h : index.Filled)
    (hknown : index.table.known.Pairwise fun a b => ¬ a.Clash b) : index.Answers index.table where
  tag := entryAt_eq_lookup h.tags <| hknown.imp fun hab hshared =>
    hab (Aspect.clash_iff_shared.2 (.inl hshared))
  key := entryAt_eq_lookup h.keys <| hknown.imp fun hab hshared =>
    hab (Aspect.clash_iff_shared.2 (.inr (.inl hshared)))
  name := entryAt_eq_lookup h.names <| hknown.imp fun hab hshared =>
    hab (Aspect.clash_iff_shared.2 (.inr (.inr (.inl hshared))))
  symbol := entryAt_eq_lookup h.symbols <| hknown.imp fun hab hshared =>
    hab (Aspect.clash_iff_shared.2 (.inr (.inr (.inr hshared))))

theorem byKey_congr {key key' : UniversalKey} (h : key.SameButVersion key') :
    index.byKey key = index.byKey key' := by
  have hkeys : (key == key') = true := UniversalKey.same_iff.2 h
  rw [byKey, byKey, Std.HashMap.getElem?_congr hkeys]

/-- A list of entries is refused, as an error of the registry, exactly if it is empty or two
entries behind the first share a tag that is not zero, a universal key in whatever versions, a
name or a symbol. Otherwise each of the four lookups finds the one entry behind the first with
what is asked for, or the first where there is none, and to ask for another version of a key is
to ask for the key. The table that is made of the same entries, and goes through them, answers
the same. -/
theorem lookups_consistent (name : String) (entries : List TagEntry) :
    ((∃ error, build name entries = .error error) ↔
      entries = [] ∨ ∃ (i j : Nat) (a b : TagEntry), 0 < i ∧ i < j ∧ entries[i]? = some a ∧
        entries[j]? = some b ∧ a.Clash b) ∧
    (∀ error, build name entries = .error error → error.kind = .registry) ∧
    ∀ index, build name entries = .ok index →
      (∀ tag, Finds entries (fun e => tag ≠ 0 ∧ e.tag = tag) (index.byTag tag)) ∧
      (∀ key, Finds entries (fun e => e.HasKey key) (index.byKey key)) ∧
      (∀ text, Finds entries (fun e => e.name = text) (index.byName text)) ∧
      (∀ symbol, Finds entries (fun e => e.symbol = symbol) (index.bySymbol symbol)) ∧
      (∀ key key', key.SameButVersion key' → index.byKey key = index.byKey key') ∧
      ∃ table, ofEntries name entries = .ok table ∧ index.Answers table := by
  have herror : ∀ error, build name entries = .error error ↔
      ofEntries name entries = .error error := by
    intro error
    rw [← map_table_build]
    cases build name entries <;> simp [Except.map]
  refine ⟨?_, ?_, ?_⟩
  · rw [exists_congr herror, ofEntries_eq_error_iff]
  · intro error h
    exact kind_of_ofEntries ((herror error).1 h)
  · intro index h
    have htable : ofEntries name entries = .ok index.table := by
      rw [← map_table_build, h]
      rfl
    cases entries with
    | nil => cases h
    | cons unknown known =>
        obtain ⟨hfilled, hmade, hentries⟩ := build_cons_eq_ok h
        have hknown := (ofEntries_cons_eq_ok.1 htable).1
        have hanswers := hfilled.answers (by rw [hmade]; exact hknown)
        rw [← hentries]
        refine ⟨?_, ?_, ?_, ?_, fun _ _ => byKey_congr, index.table, ?_, hanswers⟩
        · intro tag
          exact (hfilled.tags.finds tag).congr fun _ => Aspect.tag_answers
        · intro key
          exact (hfilled.keys.finds key).congr fun _ => Aspect.key_answers
        · intro text
          exact (hfilled.names.finds text).congr fun _ => Aspect.name_answers
        · intro text
          exact (hfilled.symbols.finds text).congr fun _ => Aspect.symbol_answers
        · rw [hentries, htable]

/-- Entries may share tag zero. One that is asked for in another version of its key is found, and
no second entry may have that version. -/
theorem versions_looked_up :
    let key := fun version => UniversalKey.ofWords (0x060E2B3401010100 + version) 0x0E01010200000000
    let entries : List TagEntry := [.unknown "TEST_UNKNOWN",
      { tag := 0, key := some (key 1), symbol := "TEST_KEY", name := "Key", format := .bytes },
      { tag := 0, symbol := "TEST_NAME", name := "Name", format := .bytes }]
    let again : TagEntry :=
      { tag := 2, key := some (key 3), symbol := "TEST_AGAIN", name := "Again", format := .bytes }
    (∃ index, build "Test" entries = .ok index ∧
      Finds entries (fun e => e.HasKey (key 2)) (index.byKey (key 2)) ∧
      index.byKey (key 2) = index.byKey (key 1) ∧ (index.byKey (key 1)).name = "Key") ∧
    ∃ error, build "Test" (entries ++ [again]) = .error error := by
  intro key entries again
  have hversion : (key 2).SameButVersion (key 1) := UniversalKey.same_iff.1 (by decide)
  have hclash : TagEntry.Clash entries[1] again :=
    .key rfl ⟨key 1, rfl, UniversalKey.same_iff.1 (by decide)⟩
  obtain ⟨-, -, hfinds⟩ := lookups_consistent "Test" entries
  constructor
  · cases hbuild : build "Test" entries with
    | error error =>
        have hmap := map_table_build "Test" entries
        rw [hbuild] at hmap
        cases hmap
    | ok index =>
        obtain ⟨-, hkey, -, -, hversions, table, htable, hanswers⟩ := hfinds index hbuild
        injection htable with htable
        refine ⟨index, rfl, hkey (key 2), hversions _ _ hversion, ?_⟩
        rw [hanswers.key, ← htable]
        rfl
  · exact (lookups_consistent "Test" (entries ++ [again])).1.2
      (.inr ⟨1, 3, entries[1], again, by decide, by decide, rfl, rfl, hclash⟩)

end Index

end MotionMetadata.Table
