import MotionMetadata.Proofs.Reencoding
import MotionMetadata.Proofs.SteadyPacks

/-!
# Sets, series and packs are as steady as their parts

A set adds keys, lengths and an order to what its entries write, and none of these looks at the
position or is refused for depth. So a set is steady if its entries are, and if a level is left
for them; where none is left, that is the one reason there is for a refusal. The same goes for
series, and for packs of a number and a set.
-/

namespace MotionMetadata

open Encoder

variable {deep : Prop}

/-- Where a level is left, what follows is as shallow as it is there. -/
theorem Shallow.descend {α γ : Type} {inner : Option γ} {k : γ → Except Error α}
    (hnone : inner = none → deep) (hk : ∀ a, inner = some a → Shallow deep (k a)) :
    Shallow deep (descend inner >>= k) := by
  cases inner with
  | none => exact fun _ _ _ => hnone rfl
  | some a => exact hk a rfl

theorem Encoder.Steady.descend {α γ : Type} {inner : Option γ} {k : γ → Encoder α}
    (hnone : inner = none → deep) (hk : ∀ a, inner = some a → (k a).Steady deep) :
    (descend inner >>= k).Steady deep := by
  cases inner with
  | none => exact ⟨nofun, fun _ _ _ => hnone rfl⟩
  | some a =>
      have hsilent : (MotionMetadata.descend (some a) >>= k : Encoder α) = k a :=
        funext fun _ => bind_of_silent rfl
      exact hsilent ▸ hk a rfl

namespace FieldSet

/-- Keys that nest nothing. -/
class SteadyKey (κ : Type) [SetKey κ] : Prop where
  read : (SetKey.read (κ := κ)).Shallow False
  write : ∀ key : κ, (SetKey.write key).Steady False

instance : SteadyKey Tag := ⟨Ber.readTag_shallow, Ber.writeTag_steady⟩

instance : SteadyKey UniversalKey := ⟨UniversalKey.read_shallow, fun _ => .emit _⟩

variable {κ : Type} [SetKey κ] {table : Table} {inner : Format → Codec} {set order : FieldSet κ}

/-! ## The order -/

theorem writeOrder_shallow (table : Table) (set : FieldSet κ) :
    Shallow deep (writeOrder table set) := by
  rw [writeOrder]
  dsimp only
  split
  · exact .raise rfl
  · refine .bind (.mapM fun e _ => .bind (.mapM fun tag _ => ?_) fun _ => .ok _) fun _ => .ok _
    rw [describedEntry]
    split
    · exact .ok _
    · exact .raise rfl

theorem mem_of_writeOrder (h : writeOrder table set = .ok order) {e : Entry κ Value}
    (he : e ∈ order) : e ∈ set := by
  obtain ⟨_, groups, rfl, hgroups⟩ := writeOrder_eq_ok h
  obtain ⟨found, hperm, _, hmem⟩ := Groups.split hgroups
  rcases List.mem_append.1 (hperm.mem_iff.1 he) with hfound | hfree
  · exact hmem e hfound
  · exact (List.mem_filter.1 hfree).1

/-! ## Entries -/

/-- The codec of an entry accepts its value, whatever stands before it. -/
structure EntryAccepted (deep : Prop) (table : Table) (inner : Format → Codec)
    (e : Entry κ Value) : Prop where
  alone : (inner (SetKey.entry table e.key).format).Accepts deep e.value
  after : ∀ tags, (inner ((SetKey.entry table e.key).format.after tags)).Accepts deep e.value

/-- It does if it does so anywhere. -/
theorem entryAccepted_iff {Sound : Format → Value → Option Nat → Prop}
    (hcarries : Carries inner Sound) {e : Entry κ Value} (tags : List Tag) :
    (inner ((SetKey.entry table e.key).format.after tags)).Accepts deep e.value ↔
      EntryAccepted deep table inner e := by
  have hsame : ∀ tags,
      (inner ((SetKey.entry table e.key).format.after tags)).Accepts deep e.value ↔
        (inner (SetKey.entry table e.key).format).Accepts deep e.value := by
    intro tags
    refine ⟨fun h => ⟨fun hint => ?_, fun length => ?_⟩,
      fun h => ⟨fun hint => ?_, fun length => ?_⟩⟩
    · exact hcarries.length _ tags _ _ ▸ h.length hint
    · exact hcarries.content _ tags _ _ ▸ h.content length
    · exact (hcarries.length _ tags _ _).symm ▸ h.length hint
    · exact (hcarries.content _ tags _ _).symm ▸ h.content length
  exact ⟨fun h => ⟨(hsame tags).1 h, fun tags' => (hsame tags').2 ((hsame tags).1 h)⟩,
    fun h => h.after tags⟩

variable [SteadyKey κ]

theorem writeEntry_steady {e : Entry κ Value} (h : EntryAccepted deep table inner e)
    (earlier : List Tag) : (writeEntry table inner earlier e).Steady deep := by
  have hcodec := h.after earlier.reverse
  rw [writeEntry]
  refine .within (.bind (.ofExcept (hcodec.length e.width)) fun length => ?_)
  refine .bind ((SteadyKey.write e.key).mono False.elim) fun _ => ?_
  exact .bind (Ber.writeLength_steady length) fun _ => hcodec.writeField length

theorem writeEntries_steady (h : ∀ e ∈ set, EntryAccepted deep table inner e)
    (earlier : List Tag) : (writeEntries table inner earlier set).Steady deep := by
  induction set generalizing earlier with
  | nil => exact .pure _
  | cons e rest ih =>
      obtain ⟨he, hrest⟩ := List.forall_mem_cons.1 h
      exact .bind (writeEntry_steady he earlier) fun _ => ih hrest _

omit [SteadyKey κ] in
theorem entriesLength_shallow (h : ∀ e ∈ set, EntryAccepted deep table inner e) :
    Shallow deep (entriesLength table inner set) := by
  induction set with
  | nil => exact .ok _
  | cons e rest ih =>
      obtain ⟨he, hrest⟩ := List.forall_mem_cons.1 h
      exact .bind (he.alone.length e.width) fun _ => .bind (ih hrest) fun _ => .ok _

/-! ## Sets -/

variable {codecs : Option (Format → Codec)}

theorem write_steady (hnone : codecs = none → deep)
    (h : ∀ inner, codecs = some inner → ∀ e ∈ set, EntryAccepted deep table inner e) :
    (write table codecs set).Steady deep := by
  rw [write]
  refine .descend hnone fun inner hinner => ?_
  refine .ofExcept_bind (writeOrder_shallow table set) fun order horder => ?_
  exact writeEntries_steady (fun e he => h inner hinner e (mem_of_writeOrder horder he)) []

omit [SteadyKey κ] in
theorem encodedLength_shallow (hnone : codecs = none → deep)
    (h : ∀ inner, codecs = some inner → ∀ e ∈ set, EntryAccepted deep table inner e) :
    Shallow deep (encodedLength table codecs set) := by
  rw [encodedLength]
  refine .descend hnone fun inner hinner => ?_
  exact .bind (writeOrder_shallow table set) fun _ => entriesLength_shallow (h inner hinner)

end FieldSet

/-! ## Codecs -/

namespace Codec

variable {codecs : Option (Format → Codec)} {description name : String} {table : Table}
  {value : Value}

/-- A codec of sets, which a value holds or does not. -/
theorem set_steady {κ : Type} [SetKey κ] [FieldSet.SteadyKey κ] {codec : Codec}
    (held : Option (FieldSet κ))
    (hwrite : ∀ length, codec.write value length =
      (Encoder.ofExcept (value.expect name held) >>= FieldSet.write table codecs))
    (hnatural : codec.naturalLength value =
      (value.expect name held >>= FieldSet.encodedLength table codecs))
    (hnone : codecs = none → deep)
    (h : ∀ set, held = some set → ∀ inner, codecs = some inner → ∀ e ∈ set,
      FieldSet.EntryAccepted deep table inner e) : codec.Steady deep value where
  write length := by
    rw [hwrite]
    exact .ofExcept_bind (value.expect_shallow _ _) fun set hset =>
      FieldSet.write_steady hnone (h set (Value.expect_eq_ok.1 hset))
  natural := by
    rw [hnatural]
    exact .bind_of (value.expect_shallow _ _) fun set hset =>
      FieldSet.encodedLength_shallow hnone (h set (Value.expect_eq_ok.1 hset))

theorem series_steady {element : Option Codec} (hnone : element = none → deep)
    (h : ∀ items, value.asSeries? = some items → ∀ codec, element = some codec → ∀ item ∈ items,
      codec.Accepts deep item) : (series description element).Steady deep value where
  write _ := by
    refine .descend hnone fun codec hcodec => ?_
    refine .ofExcept_bind value.requireSeries_shallow fun items hitems => .each fun item hitem => ?_
    have haccepts := h items (Value.expect_eq_ok.1 hitems) codec hcodec item hitem
    exact .bind (.ofExcept haccepts.fieldLength) fun length =>
      .bind (Ber.writeLength_steady length) fun _ => haccepts.writeField length
  natural := by
    refine .descend hnone fun codec hcodec => ?_
    refine .bind_of value.requireSeries_shallow fun items hitems => ?_
    have haccepts := h items (Value.expect_eq_ok.1 hitems) codec hcodec
    clear hitems
    induction items with
    | nil => exact .ok _
    | cons item rest ih =>
        obtain ⟨hitem, hrest⟩ := List.forall_mem_cons.1 haccepts
        exact .bind hitem.fieldLength fun _ => .bind (ih hrest) fun _ => .ok _

theorem idPack_steady {set : Option Codec} (shown : Codec) (hnone : set = none → deep)
    (h : ∀ content, value.field "set" = .ok content → ∀ codec, set = some codec →
      codec.Accepts deep content) : (idPack description set shown).Steady deep value where
  write _ := by
    refine .descend hnone fun codec hcodec => ?_
    refine .bind (.ofExcept (value.uintField_shallow _)) fun id => ?_
    refine .bind ((Ber.writeTag_steady id)) fun _ => ?_
    refine .ofExcept_bind (value.field_shallow _) fun content hcontent => ?_
    have haccepts := h content hcontent codec hcodec
    exact .bind (.ofExcept haccepts.fieldLength) fun length => haccepts.writeField length
  natural := by
    refine .descend hnone fun codec hcodec => ?_
    refine .bind (value.uintField_shallow _) fun id => ?_
    refine .bind_of (value.field_shallow _) fun content hcontent => ?_
    exact .bind (h content hcontent codec hcodec).fieldLength fun _ => .ok _

end Codec

/-! ## Formats -/

namespace Format

variable {registry : Registry} {inner : Option (Format → Codec)}

theorem layer_accepts
    (hcarries : ∀ codecs, inner = some codecs → Carries codecs (SoundAt registry))
    (h : ∀ codecs, inner = some codecs → ∀ f v, (codecs f).Accepts True v) (f : Format)
    (value : Value) : (layer registry inner f).Accepts True value := by
  have hentry : ∀ {κ : Type} [SetKey κ] {table : Table} (codecs : Format → Codec),
      inner = some codecs → ∀ e : Entry κ Value, FieldSet.EntryAccepted True table codecs e :=
    fun codecs hcodecs e => (FieldSet.entryAccepted_iff (hcarries codecs hcodecs) []).1
      (h codecs hcodecs _ _)
  refine Codec.Steady.accepts ?_
  cases f with
  | plain p => exact p.steady value
  | series element =>
      refine Codec.series_steady (fun _ => trivial) fun items _ codec hcodec item _ => ?_
      obtain ⟨codecs, hcodecs, rfl⟩ := Option.map_eq_some_iff.1 hcodec
      exact h codecs hcodecs element item
  | localSet standard trailer =>
      exact Codec.set_steady value.asLocalSet? (fun _ => rfl) rfl (fun _ => trivial)
        fun _ _ codecs hcodecs e _ => hentry codecs hcodecs e
  | universalSet standard =>
      exact Codec.set_steady value.asUniversalSet? (fun _ => rfl) rfl (fun _ => trivial)
        fun _ _ codecs hcodecs e _ => hentry codecs hcodecs e
  | idPack pack =>
      refine Codec.idPack_steady _ (fun _ => trivial) fun content _ codec hcodec => ?_
      obtain ⟨codecs, hcodecs, rfl⟩ := Option.map_eq_some_iff.1 hcodec
      exact h codecs hcodecs _ content

/-- Whatever is written is written the same wherever it stands. -/
theorem codec_accepts (registry : Registry) (levels : Nat) (f : Format) (value : Value) :
    (codec registry levels f).Accepts True value := by
  have h : Carries (codec registry levels) (SoundAt registry) ∧
      ∀ f v, (codec registry levels f).Accepts True v := by
    refine codec_of_layer (P := fun codecs => Carries codecs (SoundAt registry) ∧
      ∀ f v, (codecs f).Accepts True v) (fun inner hinner => ?_) levels
    have hcarries := fun codecs hcodecs => (hinner codecs hcodecs).1
    exact ⟨layer_carries hcarries,
      layer_accepts hcarries fun codecs hcodecs => (hinner codecs hcodecs).2⟩
  exact h.2 f value

end Format

end MotionMetadata
