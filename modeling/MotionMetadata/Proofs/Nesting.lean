import MotionMetadata.Codec.IdPack
import MotionMetadata.Codec.Series
import MotionMetadata.Proofs.Forwarding
import MotionMetadata.Proofs.WriteOrder

/-!
# Sets, series and packs that can be written again

What nests is written in a length that is added up first, so the parts have to be written in
the lengths they were counted with. For a series and for a pack of a number and a set that is
all. A set is not written in the order in which it is counted, and so what is written has to
be the same entries: the tags that its packs describe are there, because no pack is read that
describes anything else, and the rest is for the set to say. No tag may be described twice,
and the order must lose no entry, which is to say that the set is `Separate`.
-/

namespace MotionMetadata

/-- What the codecs one level further in are good for. A codec passes what is sound in its
format; a pack that follows some entries describes no others; and which entries those are does
not matter but for reading. -/
structure Carries (inner : Format → Codec) (Sound : Format → Value → Option Nat → Prop) :
    Prop where
  passes : ∀ f, (inner f).Passes (Sound f)
  describes : ∀ (f : Format) tags n, ((inner (f.after tags)).readField n).Yields fun v =>
    ∀ tag ∈ (f.described v).getD [], tag ∈ tags
  sound : ∀ (f : Format) tags v width, Sound f v width → Sound (f.after tags) v width
  length : ∀ (f : Format) tags v width,
    (inner (f.after tags)).hintedLength v width = (inner f).hintedLength v width
  content : ∀ (f : Format) tags v n,
    (inner (f.after tags)).writeContent v n = (inner f).writeContent v n

/-- Where no level is left, nothing is read. -/
theorem Reader.Yields.descend {α γ : Type} {P : α → Prop} {inner : Option γ} {k : γ → Reader α}
    (hk : ∀ a, inner = some a → (k a).Yields P) : (descend inner >>= k).Yields P := by
  cases inner with
  | none => exact fun _ _ _ hread => nomatch hread
  | some a => exact hk a rfl

namespace FieldSet

/-- Keys that are written again if they were read. -/
class WritableKey (κ : Type) [SetKey κ] : Prop where
  read_yields : (SetKey.read (κ := κ)).Yields fun key =>
    (SetKey.write key).Writes (SetKey.width key)

instance : WritableKey Tag := ⟨Ber.readTag_yields.imp fun _ h => Ber.writeTag_writes h⟩

instance : WritableKey UniversalKey where
  read_yields := (Reader.Yields.any _).imp fun key _ => by
    have h := Encoder.Writes.emit key.bytes
    rw [key.length_eq] at h
    exact h

variable {κ : Type} [SetKey κ] {table : Table} {inner : Format → Codec} {set : FieldSet κ}
variable {Sound : Format → Value → Option Nat → Prop}

/-! ## The order -/

/-- Every entry that is described is there. -/
def Described (table : Table) (set : FieldSet κ) : Prop :=
  ∀ tag ∈ held table set, tag ∈ set.map (entryTag table)

/-- No tag is described twice, and the order loses no entry. -/
structure Orderly (table : Table) (set : FieldSet κ) : Prop where
  nodup : (held table set).Nodup
  separate : Separate table set

theorem describedEntry_of_mem {tag : Tag} (h : tag ∈ set.map (entryTag table)) :
    ∃ e, describedEntry table set tag = .ok e := by
  rw [describedEntry]
  cases hfind : List.find? (fun e => SetKey.tag table e.key == tag) set with
  | some e => exact ⟨e, rfl⟩
  | none =>
      obtain ⟨e, he, rfl⟩ := List.mem_map.1 h
      exact absurd (beq_self_eq_true _) (List.find?_eq_none.1 hfind e he)

/-- There is an order, if what is described is there and nothing is described twice. -/
theorem writeOrder_of_described (hnodup : (held table set).Nodup) (hset : Described table set) :
    ∃ order, writeOrder table set = .ok order := by
  have hnone : firstRepeated? [] (held table set) = none :=
    firstRepeated?_eq_none.2 ⟨hnodup, fun _ _ => List.not_mem_nil⟩
  have hgroup : ∀ e ∈ set.filter (isFree table set), ∃ group : FieldSet κ,
      (do return (← (describedBy table e).mapM (describedEntry table set)) ++ [e] :
        Except Error (FieldSet κ)) = .ok group ∧ True := by
    intro e he
    have hfound : ∀ tag ∈ describedBy table e, ∃ m, describedEntry table set tag = .ok m ∧
        True := by
      intro tag htag
      have hheld : tag ∈ held table set := List.mem_flatMap.2 ⟨e, (List.mem_filter.1 he).1, htag⟩
      obtain ⟨m, hm⟩ := describedEntry_of_mem (hset tag hheld)
      exact ⟨m, hm, trivial⟩
    obtain ⟨members, hmembers, _⟩ := except_mapM_of_all hfound
    refine ⟨members ++ [e], ?_, trivial⟩
    rw [hmembers]
    rfl
  obtain ⟨groups, hgroups, _⟩ := except_mapM_of_all hgroup
  refine ⟨groups.flatten, ?_⟩
  rw [writeOrder]
  dsimp only
  rw [show set.flatMap (describedBy table) = held table set from rfl, hnone]
  show (do
    let groups ← (set.filter (isFree table set)).mapM fun e => do
      return (← (describedBy table e).mapM (describedEntry table set)) ++ [e]
    return groups.flatten) = _
  rw [hgroups]
  rfl

/-! ## Entries -/

/-- An entry that is written again. -/
structure EntryForwards (table : Table) (inner : Format → Codec) (e : Entry κ Value) : Prop where
  key : (SetKey.write e.key).Writes (SetKey.width e.key)
  value : (inner (SetKey.entry table e.key).format).Forwards e.value e.width

/-- The bytes that an entry takes, as far as it has a length. -/
def entrySize (table : Table) (inner : Format → Codec) (e : Entry κ Value) : Nat :=
  match (inner (SetKey.entry table e.key).format).hintedLength e.value e.width with
  | .ok length => SetKey.width e.key + Ber.widthOfLength length + length
  | .error _ => 0

theorem writeEntry_writes (hcarries : Carries inner Sound) {e : Entry κ Value}
    (h : EntryForwards table inner e) (earlier : List Tag) :
    (writeEntry table inner earlier e).Writes (entrySize table inner e) := by
  obtain ⟨n, hlength, hwrites⟩ := h.value
  have hsize : entrySize table inner e =
      SetKey.width e.key + (Ber.widthOfLength n + n) := by
    rw [entrySize, hlength, ← Nat.add_assoc]
  rw [writeEntry, hsize]
  refine .mapError (.ofExcept ?_ (h.key.bind ((Ber.writeLength_writes n).bind
    (Codec.writeField_writes ?_))))
  · rw [hcarries.length]
    exact hlength
  · rw [hcarries.content]
    exact hwrites

theorem writeEntries_writes (hcarries : Carries inner Sound)
    (h : ∀ e ∈ set, EntryForwards table inner e) (earlier : List Tag) :
    (writeEntries table inner earlier set).Writes (set.map (entrySize table inner)).sum := by
  induction set generalizing earlier with
  | nil => exact .pure
  | cons e rest ih =>
      obtain ⟨he, hrest⟩ := List.forall_mem_cons.1 h
      rw [List.map_cons, List.sum_cons]
      exact (writeEntry_writes hcarries he earlier).bind (ih hrest _)

theorem entriesLength_eq_ok (h : ∀ e ∈ set, EntryForwards table inner e) :
    entriesLength table inner set = .ok (set.map (entrySize table inner)).sum := by
  induction set with
  | nil => rfl
  | cons e rest ih =>
      obtain ⟨he, hrest⟩ := List.forall_mem_cons.1 h
      obtain ⟨n, hlength, _⟩ := he.value
      rw [entriesLength, hlength, ih hrest, List.map_cons, List.sum_cons, entrySize, hlength]
      rfl

/-- A set of entries that are written again is written as a whole, if its order is one of
these entries. -/
theorem write_writes (hcarries : Carries inner Sound)
    (h : ∀ e ∈ set, EntryForwards table inner e) (hdescribed : Described table set)
    (horderly : Orderly table set) :
    ∃ n, encodedLength table (some inner) set = .ok n ∧
      (write table (some inner) set).Writes n := by
  obtain ⟨order, horder⟩ := writeOrder_of_described horderly.nodup hdescribed
  have hperm := ((complete_iff_separate horder).2 horderly.separate).perm
  refine ⟨(set.map (entrySize table inner)).sum, ?_, ?_⟩
  · rw [encodedLength]
    show (do let _ ← writeOrder table set; entriesLength table inner set) = _
    rw [horder]
    exact entriesLength_eq_ok h
  · have hwrites := writeEntries_writes hcarries
      (fun e he => h e (hperm.mem_iff.1 he)) ([] : List Tag)
    rw [(hperm.map (entrySize table inner)).sum_nat] at hwrites
    exact .of_silent (fun _ => rfl) (.ofExcept horder hwrites)

variable [WritableKey κ]

/-- An entry is written again if it is sound, and describes none but earlier ones. -/
theorem readEntry_yields (hcarries : Carries inner Sound) (earlier : List Tag) :
    (readEntry (κ := κ) table inner earlier).Yields fun e =>
      (Sound (SetKey.entry table e.key).format e.value e.width → EntryForwards table inner e) ∧
        ∀ tag ∈ describedBy table e, tag ∈ earlier := by
  rw [readEntry]
  refine (Reader.Yields.mapError WritableKey.read_yields).bind fun key hkey => ?_
  refine .after fun start => .after fun length => .after fun left => ?_
  dsimp only
  refine .require fun _ => ?_
  have hpasses :=
    (hcarries.passes ((SetKey.entry table key).format.after earlier.reverse)).readField length.toNat
  have hdescribes := hcarries.describes (SetKey.entry table key).format earlier.reverse length.toNat
  refine (Reader.Yields.mapError (hpasses.and hdescribes)).bind fun v hv => .pure ⟨?_, ?_⟩
  · intro hsound
    obtain ⟨n, hlength, hwrites⟩ :=
      hv.1 (some length.toNat) (.inr rfl) (hcarries.sound _ _ _ _ hsound)
    rw [hcarries.length] at hlength
    rw [hcarries.content] at hwrites
    exact ⟨hkey, n, hlength, hwrites⟩
  · exact fun tag htag => List.mem_reverse.1 (hv.2 tag htag)

theorem readEntries_yields (hcarries : Carries inner Sound) (fuel : Nat) (earlier : List Tag) :
    (readEntries (κ := κ) table inner fuel earlier).Yields fun set =>
      (∀ e ∈ set, Sound (SetKey.entry table e.key).format e.value e.width →
        EntryForwards table inner e) ∧
        ∀ tag ∈ held table set, tag ∈ earlier ∨ tag ∈ set.map (entryTag table) := by
  induction fuel generalizing earlier with
  | zero => exact .pure ⟨nofun, nofun⟩
  | succ fuel ih =>
      rw [readEntries]
      refine .after fun atEnd => .ite (fun _ => .pure ⟨nofun, nofun⟩) fun _ => ?_
      refine (readEntry_yields hcarries earlier).bind fun e he => ?_
      refine (ih (SetKey.tag table e.key :: earlier)).bind fun rest hrest => .pure ⟨?_, ?_⟩
      · exact List.forall_mem_cons.2 ⟨he.1, hrest.1⟩
      · intro tag htag
        rw [held, List.flatMap_cons, List.mem_append] at htag
        rw [List.map_cons, List.mem_cons]
        rcases htag with htag | htag
        · exact .inl (he.2 tag htag)
        · rcases hrest.2 tag htag with hbefore | hafter
          · rcases List.mem_cons.1 hbefore with heq | hbefore
            · exact .inr (.inl heq)
            · exact .inl hbefore
          · exact .inr (.inr hafter)

/-- A set is sound if it is orderly and what its entries hold is sound. -/
structure IsSound (table : Table) (Sound : Format → Value → Option Nat → Prop)
    (set : FieldSet κ) : Prop where
  entries : ∀ e ∈ set, Sound (SetKey.entry table e.key).format e.value e.width
  orderly : Orderly table set

theorem read_yields {inner : Option (Format → Codec)}
    (hcarries : ∀ codecs, inner = some codecs → Carries codecs Sound) (length : Nat) :
    (read (κ := κ) table inner length).Yields fun set => IsSound table Sound set →
      ∃ n, encodedLength table inner set = .ok n ∧ (write table inner set).Writes n := by
  refine .descend fun codecs hcodecs => ?_
  subst hcodecs
  refine .inField ?_ length
  refine (readEntries_yields (hcarries codecs rfl) length []).imp fun set hset hsound => ?_
  refine write_writes (hcarries codecs rfl) (fun e he => hset.1 e he (hsound.entries e he))
    (fun tag htag => ?_) hsound.orderly
  exact (hset.2 tag htag).resolve_left List.not_mem_nil

end FieldSet

namespace Codec

variable {Sound : Format → Value → Option Nat → Prop} {inner : Option (Format → Codec)}

theorem localSet_passes (description : String) (table : Table)
    (hcarries : ∀ codecs, inner = some codecs → Carries codecs Sound) :
    (localSet description table inner).Passes fun v _ =>
      ∀ set, v.asLocalSet? = some set → FieldSet.IsSound table Sound set := by
  refine passes_of_takes (fun length => ?_) fun _ _ => rfl
  refine (FieldSet.read_yields hcarries length).bind fun set hset => .pure fun hsound => ?_
  obtain ⟨n, hn, hwrites⟩ := hset (hsound set rfl)
  exact ⟨n, ⟨rfl, hn, .ofExcept rfl hwrites⟩, fun _ h => nomatch h⟩

theorem universalSet_passes (description : String) (table : Table)
    (hcarries : ∀ codecs, inner = some codecs → Carries codecs Sound) :
    (universalSet description table inner).Passes fun v _ =>
      ∀ set, v.asUniversalSet? = some set → FieldSet.IsSound table Sound set := by
  refine passes_of_takes (fun length => ?_) fun _ _ => rfl
  refine (FieldSet.read_yields hcarries length).bind fun set hset => .pure fun hsound => ?_
  obtain ⟨n, hn, hwrites⟩ := hset (hsound set rfl)
  exact ⟨n, ⟨rfl, hn, .ofExcept rfl hwrites⟩, fun _ h => nomatch h⟩

end Codec

/-! ## Series and packs of a number and a set -/

namespace Series

variable {element : Codec} {P : Value → Prop}

/-- The items of a series have what is read for any item. -/
theorem readItems_yields (hitem : ∀ n, (element.readField n).Yields P) (fuel : Nat) :
    (readItems element fuel).Yields fun items => ∀ item ∈ items, P item := by
  induction fuel with
  | zero => exact .pure nofun
  | succ fuel ih =>
      have hone : (readItem element).Yields P := by
        rw [readItem]
        exact .after fun start => .after fun length => .after fun left => .require fun _ =>
          hitem length.toNat
      rw [readItems]
      refine .after fun atEnd => .ite (fun _ => .pure nofun) fun _ => ?_
      exact hone.bind fun item hitem => ih.bind fun rest hrest =>
        .pure (List.forall_mem_cons.2 ⟨hitem, hrest⟩)

theorem writeItems_writes {items : List Value}
    (h : ∀ item ∈ items, element.Forwards item none) :
    ∃ n, itemsLength element items = .ok n ∧
      (Encoder.each (writeItem element) items).Writes n := by
  induction items with
  | nil => exact ⟨0, rfl, .pure⟩
  | cons item rest ih =>
      obtain ⟨⟨n, hlength, hwrites⟩, hrest⟩ := List.forall_mem_cons.1 h
      obtain ⟨m, hm, hwritesRest⟩ := ih hrest
      have hone : (writeItem element item).Writes (Ber.widthOfLength n + n) :=
        .ofExcept hlength ((Ber.writeLength_writes n).bind (Codec.writeField_writes hwrites))
      refine ⟨Ber.widthOfLength n + n + m, ?_, hone.bind hwritesRest⟩
      exact except_bind_eq_ok.2 ⟨n, hlength, except_bind_eq_ok.2 ⟨m, hm, rfl⟩⟩

end Series

namespace Codec

theorem series_passes (description : String) (SoundItem : Value → Prop) {element : Option Codec}
    (hitem : ∀ codec, element = some codec → ∀ n, (codec.readField n).Yields fun v =>
      SoundItem v → codec.Forwards v none) :
    (series description element).Passes fun v _ =>
      ∀ items, v.asSeries? = some items → ∀ item ∈ items, SoundItem item := by
  refine passes_of_takes (fun length => ?_) fun _ _ => rfl
  refine .descend fun codec hcodec => ?_
  subst hcodec
  refine (Reader.Yields.inField (Series.readItems_yields (hitem codec rfl) length) length).bind
    fun items hitems => .pure fun hsound => ?_
  obtain ⟨n, hn, hwrites⟩ := Series.writeItems_writes fun item hi =>
    hitems item hi (hsound items rfl item hi)
  refine ⟨n, ⟨rfl, hn, ?_⟩, fun _ h => nomatch h⟩
  exact .of_silent (fun _ => rfl) (.ofExcept rfl hwrites)

theorem idPack_passes (description : String) (SoundItem : Value → Prop) {set : Option Codec}
    (shown : Codec)
    (hset : ∀ codec, set = some codec → ∀ n, (codec.readField n).Yields fun v =>
      SoundItem v → codec.Forwards v none) :
    (idPack description set shown).Passes fun v _ =>
      ∀ content, v.field? "set" = some content → SoundItem content := by
  refine passes_of_takes (fun length => ?_) fun _ _ => rfl
  refine .descend fun codec hcodec => ?_
  subst hcodec
  refine Ber.readTag_yields.bind fun id hid => .after fun left => ?_
  refine (hset codec rfl left).bind fun content hcontent => .pure fun hsound => ?_
  obtain ⟨n, hlength, hwrites⟩ := hcontent (hsound content rfl)
  refine ⟨Ber.tagWidth id + n, ⟨rfl, ?_, ?_⟩, fun _ h => nomatch h⟩
  · show (do
      let length ← codec.fieldLength content
      return Ber.tagWidth id + length) = _
    exact except_bind_eq_ok.2 ⟨n, hlength, rfl⟩
  · refine .of_silent (fun _ => rfl) (.ofExcept rfl ((Ber.writeTag_writes hid).bind ?_))
    exact .ofExcept rfl (.ofExcept hlength (writeField_writes hwrites))

end Codec

end MotionMetadata
