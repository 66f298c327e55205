import MotionMetadata.Proofs.Lasting
import MotionMetadata.Proofs.Reencoding
import MotionMetadata.Proofs.Refusals

/-!
# Forgotten widths

A packet whose sets have forgotten the widths of their entries is written like the packet
itself, if the codecs would have found these widths without being told. Only entries without
parts are asked: what nests is measured anew in any case.

What is read without parts has nothing to forget. So the two packets are the same but for the
widths, and where a codec is given the same value and finds the same length it does the same.
The order of a set is the same too, for it asks for keys and for what the packs of the set
describe, and the widths are neither.
-/

namespace MotionMetadata

open Value

/-! ## Codecs that miss no width -/

/-- What comes after a result that was worked out. -/
theorem Encoder.ofExcept_ok_bind {α β : Type} (a : α) (f : α → Encoder β) :
    (ofExcept (.ok a) >>= f) = f a :=
  funext fun _ => bind_of_silent (ofExcept_ok a)

/-- What lies a level further in. -/
theorem Encoder.descend_some_bind {α β : Type} (a : α) (f : α → Encoder β) :
    (descend (some a) >>= f) = f a :=
  ofExcept_ok_bind a f

namespace Codec

variable {codec : Codec} {v : Value} {width : Option Nat}

/-- Without its widths the value takes the length that it takes with them, and is written the
same. -/
structure Retells (codec : Codec) (v : Value) (width : Option Nat) : Prop where
  length : codec.hintedLength (v.reread id) none = codec.hintedLength v width
  content : ∀ n, codec.writeContent (v.reread id) n = codec.writeContent v n

theorem Retells.field (h : codec.Retells v width) (n : Nat) :
    codec.writeField (v.reread id) n = codec.writeField v n := by
  rw [writeField, h.content]
  rfl

/-- A value with nothing to forget, whose width is no news to the codec. -/
theorem retells_of_lasts (hv : v.Lasts)
    (hwidth : ∀ w, width = some w → codec.keepsWidth v w → codec.fieldLength v = .ok w) :
    codec.Retells v width := by
  rw [Value.Lasts] at hv
  refine ⟨?_, fun n => by rw [hv]⟩
  rw [hv]
  cases width with
  | none => rfl
  | some w =>
      show codec.fieldLength v = if codec.keepsWidth v w then .ok w else codec.fieldLength v
      split
      · next hkeeps => exact hwidth w rfl hkeeps
      · rfl

/-- A codec that measures whatever it is given. -/
theorem retells_of_measured (hfits : ∀ v n, codec.fits v n = false)
    (hfixed : codec.constraint.fixedLength = none)
    (hnatural : codec.naturalLength (v.reread id) = codec.naturalLength v)
    (hwrite : ∀ n, codec.write (v.reread id) n = codec.write v n) : codec.Retells v width := by
  have hkeeps : ∀ w, codec.keepsWidth v w = false := fun w => by
    rw [keepsWidth, hfits, Bool.and_false]
  have hhinted : codec.hintedLength v width = codec.fieldLength v := by
    cases width with
    | none => rfl
    | some w => rw [hintedLength, hkeeps]; rfl
  have hdecoded : v.isDecoded → (v.reread id).isDecoded := by
    cases v <;> exact id
  cases hv : v.isDecoded with
  | false =>
      have hlasts : v.Lasts := by
        cases v <;> first | rfl | cases hv
      exact retells_of_lasts hlasts fun w _ hw => by rw [hkeeps] at hw; cases hw
  | true =>
      rw [hv] at hdecoded
      refine ⟨?_, fun n => ?_⟩
      · rw [hhinted]
        show codec.fieldLength (v.reread id) = _
        rw [fieldLength_of_isDecoded (hdecoded rfl), fieldLength_of_isDecoded hv, hfixed]
        exact hnatural
      · rw [writeContent_of_isDecoded (hdecoded rfl), writeContent_of_isDecoded hv, hwrite]

end Codec

namespace FieldSet

variable {κ : Type} [SetKey κ] {table : Table} {inner : Format → Codec} {set order : FieldSet κ}

/-! ### The order -/

theorem mapM_map_result {α β γ : Type} {f : α → Except Error β} {f' : α → Except Error γ}
    {g : β → γ} {items : List α} (h : ∀ a ∈ items, f' a = (f a).map g) :
    items.mapM f' = (items.mapM f).map (List.map g) := by
  induction items with
  | nil => rfl
  | cons a rest ih =>
      obtain ⟨ha, hrest⟩ := List.forall_mem_cons.1 h
      rw [List.mapM_cons, List.mapM_cons, ha, ih hrest]
      cases f a with
      | error e => rfl
      | ok b => cases rest.mapM f <;> rfl

theorem describedEntry_map {g : Entry κ Value → Entry κ Value} (hkey : ∀ e, (g e).key = e.key)
    (tag : Tag) : describedEntry table (set.map g) tag = (describedEntry table set tag).map g := by
  have hsame : (fun e : Entry κ Value => SetKey.tag table e.key == tag) ∘ g =
      fun e => SetKey.tag table e.key == tag := by
    funext e
    show (SetKey.tag table (g e).key == tag) = _
    rw [hkey]
  rw [describedEntry, describedEntry, List.find?_map, hsame]
  cases List.find? (fun e => SetKey.tag table e.key == tag) set <;> rfl

/-- An entry behind those that it describes. -/
def group (table : Table) (set : FieldSet κ) (e : Entry κ Value) : Except Error (FieldSet κ) := do
  return (← (describedBy table e).mapM (describedEntry table set)) ++ [e]

theorem group_map {g : Entry κ Value → Entry κ Value} (hkey : ∀ e, (g e).key = e.key)
    {e : Entry κ Value} (hdescribed : describedBy table (g e) = describedBy table e) :
    group table (set.map g) (g e) = (group table set e).map (List.map g) := by
  rw [group, group, hdescribed, mapM_map_result fun tag _ => describedEntry_map hkey tag]
  cases (describedBy table e).mapM (describedEntry table set) with
  | error error => rfl
  | ok members =>
      show Except.ok (members.map g ++ [g e]) = Except.ok ((members ++ [e]).map g)
      rw [List.map_append]
      rfl

/-- A change that leaves the keys and what is described leaves the order. -/
theorem writeOrder_map {g : Entry κ Value → Entry κ Value} (hkey : ∀ e, (g e).key = e.key)
    (hdescribed : ∀ e ∈ set, describedBy table (g e) = describedBy table e) :
    writeOrder table (set.map g) = (writeOrder table set).map (List.map g) := by
  have hheld : (set.map g).flatMap (describedBy table) = held table set := by
    rw [List.flatMap_map]
    exact List.flatMap_congr hdescribed
  have hfree : (set.map g).filter (fun e => !(held table set).contains (SetKey.tag table e.key)) =
      (set.filter (isFree table set)).map g := by
    rw [List.filter_map]
    congr 2
    funext e
    show (!(held table set).contains (SetKey.tag table (g e).key)) = _
    rw [hkey]
    rfl
  rw [writeOrder, writeOrder]
  dsimp only
  rw [hheld, show set.flatMap (describedBy table) = held table set from rfl]
  cases firstRepeated? [] (held table set) with
  | some tag => rfl
  | none =>
      dsimp only
      rw [hfree, List.mapM_map]
      show (do
        let groups ← (set.filter (isFree table set)).mapM fun e => group table (set.map g) (g e)
        return groups.flatten) = Except.map _ (do
        let groups ← (set.filter (isFree table set)).mapM (group table set)
        return groups.flatten)
      rw [mapM_map_result fun e he => group_map hkey (hdescribed e (List.mem_filter.1 he).1)]
      cases (set.filter (isFree table set)).mapM (group table set) with
      | error error => rfl
      | ok groups => exact congrArg Except.ok List.map_flatten.symm

/-! ### Entries -/

/-- An entry whose width is not missed, and that describes the same without it. -/
structure EntryRetells (table : Table) (inner : Format → Codec) (e : Entry κ Value) : Prop where
  value : (inner (SetKey.entry table e.key).format).Retells e.value e.width
  described : describedBy table (rereadEntry id e) = describedBy table e

variable {Sound : Format → Value → Option Nat → Prop}

/-- Which entries come before does not matter to what is written. -/
theorem retells_after (hcarries : Carries inner Sound) {f : Format} (tags : List Tag) {v : Value}
    {width : Option Nat} :
    (inner (f.after tags)).Retells v width ↔ (inner f).Retells v width := by
  constructor
  · rintro ⟨hlength, hcontent⟩
    simp only [hcarries.length, hcarries.content] at hlength hcontent
    exact ⟨hlength, hcontent⟩
  · rintro ⟨hlength, hcontent⟩
    exact ⟨by simp only [hcarries.length, hlength], by simp only [hcarries.content, hcontent,
      implies_true]⟩

theorem entriesLength_reread (h : ∀ e ∈ set, EntryRetells table inner e) :
    entriesLength table inner (set.map (rereadEntry id)) = entriesLength table inner set := by
  induction set with
  | nil => rfl
  | cons e rest ih =>
      obtain ⟨he, hrest⟩ := List.forall_mem_cons.1 h
      rw [List.map_cons, entriesLength, entriesLength, ih hrest]
      show (do
        let length ← (inner (SetKey.entry table e.key).format).hintedLength (e.value.reread id) none
        return SetKey.width e.key + Ber.widthOfLength length + length +
          (← entriesLength table inner rest)) = _
      rw [he.value.length]

theorem writeEntry_reread (hcarries : Carries inner Sound) {e : Entry κ Value}
    (h : EntryRetells table inner e) (earlier : List Tag) :
    writeEntry table inner earlier (rereadEntry id e) = writeEntry table inner earlier e := by
  have hafter := (retells_after hcarries earlier.reverse).2 h.value
  rw [writeEntry, writeEntry]
  show Encoder.mapError _ (do
    let length ← Encoder.ofExcept ((inner ((SetKey.entry table e.key).format.after
      earlier.reverse)).hintedLength (e.value.reread id) none)
    SetKey.write e.key
    Ber.writeLength length
    (inner ((SetKey.entry table e.key).format.after earlier.reverse)).writeField
      (e.value.reread id) length) = _
  simp only [hafter.length, hafter.field]
  rfl

theorem writeEntries_reread (hcarries : Carries inner Sound)
    (h : ∀ e ∈ set, EntryRetells table inner e) (earlier : List Tag) :
    writeEntries table inner earlier (set.map (rereadEntry id)) =
      writeEntries table inner earlier set := by
  induction set generalizing earlier with
  | nil => rfl
  | cons e rest ih =>
      obtain ⟨he, hrest⟩ := List.forall_mem_cons.1 h
      rw [List.map_cons, writeEntries, writeEntries, writeEntry_reread hcarries he, ← ih hrest]
      rfl

theorem writeOrder_reread (h : ∀ e ∈ set, EntryRetells table inner e) :
    writeOrder table (set.map (rereadEntry id)) =
      (writeOrder table set).map (List.map (rereadEntry id)) :=
  writeOrder_map (fun _ => rfl) fun e he => (h e he).described

theorem write_reread (hcarries : Carries inner Sound)
    (h : ∀ e ∈ set, EntryRetells table inner e) :
    write table (some inner) (set.map (rereadEntry id)) = write table (some inner) set := by
  have hopen : ∀ set : FieldSet κ, write table (some inner) set =
      Encoder.ofExcept (writeOrder table set) >>= writeEntries table inner [] :=
    fun set => Encoder.descend_some_bind inner _
  rw [hopen, hopen, writeOrder_reread h]
  cases horder : writeOrder table set with
  | error error => rfl
  | ok order =>
      show Encoder.ofExcept (.ok (order.map (rereadEntry id))) >>= _ = _
      rw [Encoder.ofExcept_ok_bind, Encoder.ofExcept_ok_bind]
      exact writeEntries_reread hcarries (fun e he => h e (mem_of_writeOrder horder he)) []

theorem encodedLength_reread (h : ∀ e ∈ set, EntryRetells table inner e) :
    encodedLength table (some inner) (set.map (rereadEntry id)) =
      encodedLength table (some inner) set := by
  show (do
    let _ ← writeOrder table (set.map (rereadEntry id))
    entriesLength table inner (set.map (rereadEntry id))) =
      (do let _ ← writeOrder table set; entriesLength table inner set)
  rw [writeOrder_reread h, entriesLength_reread h]
  cases writeOrder table set <;> rfl

end FieldSet

namespace Series

variable {element : Codec} {items : List Value}

theorem writeItem_reread {item : Value} (h : element.Retells item none) :
    writeItem element (item.reread id) = writeItem element item := by
  show (do
    let length ← Encoder.ofExcept (element.hintedLength (item.reread id) none)
    Ber.writeLength length
    element.writeField (item.reread id) length) = _
  simp only [h.length, h.field]
  rfl

theorem each_reread (h : ∀ item ∈ items, element.Retells item none) :
    Encoder.each (writeItem element) (items.map (reread id)) =
      Encoder.each (writeItem element) items := by
  induction items with
  | nil => rfl
  | cons item rest ih =>
      obtain ⟨hitem, hrest⟩ := List.forall_mem_cons.1 h
      rw [List.map_cons, Encoder.each, Encoder.each, writeItem_reread hitem, ih hrest]

theorem itemsLength_reread (h : ∀ item ∈ items, element.Retells item none) :
    itemsLength element (items.map (reread id)) = itemsLength element items := by
  induction items with
  | nil => rfl
  | cons item rest ih =>
      obtain ⟨hitem, hrest⟩ := List.forall_mem_cons.1 h
      rw [List.map_cons, itemsLength, itemsLength, ih hrest,
        show element.fieldLength (item.reread id) = element.fieldLength item from hitem.length]

end Series

/-- A pack as it is read. -/
def IdPack.recordOf (number : UInt64) (content : Value) : Value :=
  .record [("id", .uint number), ("set", content)]

namespace Codec

variable {width : Option Nat} (description : String)

theorem series_retells {element : Codec} {items : List Value}
    (h : ∀ item ∈ items, element.Retells item none) :
    (Codec.series description (some element)).Retells (.series items) width := by
  refine retells_of_measured (fun _ _ => rfl) rfl ?_ fun n => ?_
  · rw [reread_series]
    exact Series.itemsLength_reread h
  · rw [reread_series]
    show (descend (some element) >>= fun element =>
      Encoder.ofExcept (.ok (items.map (reread id))) >>= Encoder.each (Series.writeItem element)) =
        (descend (some element) >>= fun element => Encoder.ofExcept (.ok items) >>=
          Encoder.each (Series.writeItem element))
    rw [Encoder.descend_some_bind, Encoder.descend_some_bind, Encoder.ofExcept_ok_bind,
      Encoder.ofExcept_ok_bind, Series.each_reread h]

theorem idPack_retells {set : Codec} (shown : Codec) (number : UInt64) {content : Value}
    (h : set.Retells content none) :
    (Codec.idPack description (some set) shown).Retells (IdPack.recordOf number content) width := by
  have hlength : set.fieldLength (content.reread id) = set.fieldLength content := h.length
  refine retells_of_measured (fun _ _ => rfl) rfl ?_ fun n => ?_
  · show (do return Ber.tagWidth number + (← set.fieldLength (content.reread id))) = _
    rw [hlength]
    rfl
  · have hopen : ∀ c, (Codec.idPack description (some set) shown).write
        (IdPack.recordOf number c) n = (do
          Ber.writeTag number
          let length ← Encoder.ofExcept (set.fieldLength c)
          set.writeField c length) := by
      intro c
      show (descend (some set) >>= fun set => Encoder.ofExcept (.ok number) >>= fun id => do
        Ber.writeTag id
        let content ← Encoder.ofExcept (.ok c)
        let length ← Encoder.ofExcept (set.fieldLength content)
        set.writeField content length) = _
      simp only [Encoder.descend_some_bind, Encoder.ofExcept_ok_bind]
    show (Codec.idPack description (some set) shown).write
      (IdPack.recordOf number (content.reread id)) n = _
    rw [hopen, hopen]
    simp only [hlength, h.field]

end Codec

/-! ## Parts whose widths are no news -/

namespace Placed

/-- A width that is remembered and would be kept is the length that the codec finds by itself.
This is asked of values without parts, since nothing else keeps its width. -/
def Natural (part : Placed) : Prop :=
  ∀ f width, part.format = .plain f → part.width = some width →
    f.codec.keepsWidth part.value width → f.codec.fieldLength part.value = .ok width

/-- All widths in a part are natural. -/
def AllNatural (registry : Registry) (part : Placed) : Prop :=
  ∀ inner, Inside registry part inner → inner.Natural

variable {registry : Registry} {f : Format} {v : Value} {width : Option Nat}

theorem AllNatural.after (h : AllNatural registry ⟨f, v, width⟩) (tags : List Tag) :
    AllNatural registry ⟨f.after tags, v, width⟩ := by
  cases f with
  | plain p =>
      cases p with
      | correlation preceding =>
          intro part hpart
          obtain rfl := hpart.eq_of_plain
          intro g w hg hw hkeeps
          injection hg with hg
          subst hg
          exact h _ (.here _) (.correlation preceding) w rfl hw hkeeps
      | _ => exact h
  | _ => exact h

end Placed

/-- A codec retells what it reads, if all widths in it are natural, and the entry that holds it
describes the same afterwards. -/
structure Retold (registry : Registry) (codec : Codec) (f : Format) (v : Value) : Prop where
  retells : ∀ width, Placed.AllNatural registry ⟨f, v, width⟩ → codec.Retells v width
  described : f.described (v.reread id) = f.described v

namespace Format

variable {registry : Registry} {inner : Option (Format → Codec)} {codecs : Format → Codec}
variable {Sound : Format → Value → Option Nat → Prop}

theorem described_after (f : Format) (tags : List Tag) (v : Value) :
    (f.after tags).described v = f.described v := by
  cases f with
  | plain p => cases p <;> rfl
  | _ => rfl

/-- A row of fields whose codecs retell what they read. -/
theorem readEntry_retold {κ : Type} [SetKey κ] {table : Table} (hcarries : Carries codecs Sound)
    (h : ∀ f n, ((codecs f).readField n).Yields (Retold registry (codecs f) f))
    (earlier : List Tag) :
    (FieldSet.readEntry (κ := κ) table codecs earlier).Yields fun e =>
      Placed.AllNatural registry ⟨(SetKey.entry table e.key).format, e.value, e.width⟩ →
        FieldSet.EntryRetells table codecs e := by
  rw [FieldSet.readEntry]
  refine .after fun key => .after fun start => .after fun length => .after fun left => ?_
  dsimp only
  refine .require fun _ => ?_
  refine (Reader.Yields.mapError (h _ length.toNat)).bind fun v hv => .pure fun hnatural => ⟨?_, ?_⟩
  · exact (FieldSet.retells_after hcarries earlier.reverse).1
      (hv.retells _ (hnatural.after earlier.reverse))
  · have hdescribed := hv.described
    rw [described_after, described_after] at hdescribed
    exact congrArg (Option.getD · []) hdescribed

variable {f : Format} {codec : Codec}

/-- Empty fields and kept bytes have nothing to forget. -/
theorem retold_of_lasts {v : Value} (hv : v.Lasts)
    (hwidth : ∀ width, Placed.AllNatural registry ⟨f, v, width⟩ → ∀ w, width = some w →
      codec.keepsWidth v w → codec.fieldLength v = .ok w) : Retold registry codec f v where
  retells width hnatural := Codec.retells_of_lasts hv (hwidth width hnatural)
  described := by
    rw [Lasts] at hv
    rw [hv]

/-- A field has nothing to forget, or it is what its codec reads. -/
theorem readField_retold (hread : ∀ n, (codec.read n).Yields (Retold registry codec f)) (n : Nat) :
    (codec.readField n).Yields (Retold registry codec f) := by
  have hkept : ∀ v : Value, v.Lasts → v.isDecoded = false → Retold registry codec f v :=
    fun v hv hdecoded => retold_of_lasts hv fun _ _ w _ hkeeps => by
      rw [Codec.keepsWidth, hdecoded] at hkeeps
      cases hkeeps
  exact Codec.readField_yields (hkept _ lasts_empty rfl) (fun _ => hkept _ rfl rfl)
    fun _ _ => hread n

/-- A set is retold by the codecs that have read its entries. -/
theorem set_retold {κ : Type} [SetKey κ] [FieldSet.LocalKey κ] {table : Table}
    {wrap : FieldSet κ → Value}
    (hcarries : ∀ codecs, inner = some codecs → Carries codecs Sound)
    (h : ∀ codecs, inner = some codecs → ∀ f n,
      ((codecs f).readField n).Yields (Retold registry (codecs f) f))
    (hfits : ∀ v n, codec.fits v n = false) (hfixed : codec.constraint.fixedLength = none)
    (hread : ∀ n, codec.read n = FieldSet.read table inner n >>= fun set => pure (wrap set))
    (hwrite : ∀ set n, codec.write (wrap set) n = FieldSet.write table inner set)
    (hnatural : ∀ set, codec.naturalLength (wrap set) = FieldSet.encodedLength table inner set)
    (hreread : ∀ set, (wrap set).reread id = wrap (set.map (rereadEntry id)))
    (hdescribed : ∀ v, f.described v = none)
    (hinside : ∀ set e width part, e ∈ set →
      Inside registry ⟨(SetKey.entry table e.key).format, e.value, e.width⟩ part →
        Inside registry ⟨f, wrap set, width⟩ part) (n : Nat) :
    (codec.read n).Yields (Retold registry codec f) := by
  rw [hread]
  refine Reader.Yields.bind (P := fun set => ∃ codecs, inner = some codecs ∧
    ∀ e ∈ set, Placed.AllNatural registry
      ⟨(SetKey.entry table e.key).format, e.value, e.width⟩ →
        FieldSet.EntryRetells table codecs e) (.descend fun codecs hcodecs => ?_) fun set hset =>
          .pure ⟨fun width hall => ?_, by rw [hdescribed, hdescribed]⟩
  · subst hcodecs
    refine (Reader.Yields.inField (FieldSet.readEntries_readsRow.yields
      (fun earlier => readEntry_retold (hcarries codecs rfl) (h codecs rfl) earlier) n) n).imp
        fun set hset => ⟨codecs, rfl, hset⟩
  · obtain ⟨codecs, rfl, hset⟩ := hset
    have hentries : ∀ e ∈ set, FieldSet.EntryRetells table codecs e := fun e he =>
      hset e he fun part hpart => hall part (hinside set e width part he hpart)
    refine Codec.retells_of_measured hfits hfixed ?_ fun n => ?_
    · rw [hreread, hnatural, hnatural, FieldSet.encodedLength_reread hentries]
    · rw [hreread, hwrite, hwrite, FieldSet.write_reread (hcarries codecs rfl) hentries]

theorem layer_retold (hcarries : ∀ codecs, inner = some codecs → Carries codecs Sound)
    (h : ∀ codecs, inner = some codecs → ∀ f n,
      ((codecs f).readField n).Yields (Retold registry (codecs f) f)) (f : Format) (n : Nat) :
    ((layer registry inner f).readField n).Yields (Retold registry (layer registry inner f) f) := by
  cases f with
  | plain p =>
      exact (p.readField_lasts n).imp fun v hv =>
        retold_of_lasts hv fun width hnatural w hw hkeeps =>
          hnatural _ (.here _) p w rfl hw hkeeps
  | localSet standard trailer =>
      exact readField_retold (set_retold hcarries h (fun _ _ => rfl) rfl (fun _ => rfl)
        (fun _ _ => Encoder.ofExcept_ok_bind _ _) (fun _ => rfl) reread_localSet (fun _ => rfl)
        fun _ _ _ _ => .localEntry) n
  | universalSet standard =>
      exact readField_retold (set_retold hcarries h (fun _ _ => rfl) rfl (fun _ => rfl)
        (fun _ _ => Encoder.ofExcept_ok_bind _ _) (fun _ => rfl) reread_universalSet (fun _ => rfl)
        fun _ _ _ _ => .universalEntry) n
  | series element =>
      refine readField_retold (fun n => ?_) n
      refine .descend fun codec hcodec => ?_
      obtain ⟨codecs, rfl, rfl⟩ := Option.map_eq_some_iff.1 hcodec
      refine (Reader.Yields.inField (Series.readItems_yields (h codecs rfl element) n) n).bind
        fun items hitems => .pure ⟨fun width hnatural => ?_, rfl⟩
      exact Codec.series_retells _ fun item hitem =>
        (hitems item hitem).retells none fun part hpart => hnatural part (.item hitem hpart)
  | idPack pack =>
      refine readField_retold (fun n => ?_) n
      refine .descend fun codec hcodec => ?_
      obtain ⟨codecs, rfl, rfl⟩ := Option.map_eq_some_iff.1 hcodec
      refine .after fun number => .after fun left => (h codecs rfl _ left).bind
        fun content hcontent => .pure ⟨fun width hnatural => ?_, rfl⟩
      exact Codec.idPack_retells _ _ number
        (hcontent.retells none fun part hpart => hnatural part (.content rfl hpart))

/-- At every level, what is read is retold. -/
theorem codec_retold (registry : Registry) (levels : Nat) (f : Format) (n : Nat) :
    ((f.codec registry levels).readField n).Yields
      (Retold registry (f.codec registry levels) f) := by
  have hboth : Carries (Format.codec registry levels) (SoundAt registry) ∧
      ∀ (f : Format) n, ((f.codec registry levels).readField n).Yields
        (Retold registry (f.codec registry levels) f) := by
    refine codec_of_layer (P := fun codecs => Carries codecs (SoundAt registry) ∧ ∀ f n,
      ((codecs f).readField n).Yields (Retold registry (codecs f) f)) (fun inner h => ?_) levels
    exact ⟨layer_carries fun codecs hcodecs => (h codecs hcodecs).1,
      layer_retold (fun codecs hcodecs => (h codecs hcodecs).1)
        fun codecs hcodecs => (h codecs hcodecs).2⟩
  exact hboth.2 f n

end Format

/-! ## Packets -/

namespace Packet

variable {registry : Registry} {p : Packet}

/-- The packet as it is read back, every double changed by `r`. What became of its checksum is
forgotten like the widths. -/
def reread (r : Binary64 → Binary64) (p : Packet) : Packet :=
  { key := p.key, value := p.value.reread r }

theorem readHere_retold (registry : Registry) :
    (readHere registry).Yields fun p =>
      Retold registry (codec registry p.key) (formatOf registry p.key) p.value := by
  rw [readHere]
  refine .after fun start => .after fun key => .require fun _ => ?_
  refine .after fun lengthStart => .after fun length => .after fun left => .require fun _ => ?_
  refine .after fun stop => ?_
  dsimp only
  split
  · exact .throw _
  · next closing checksum _ =>
      exact (Reader.Yields.mapError (Format.codec_retold registry maxDepth
        (formatOf registry key) (length.toNat - closing))).bind fun value hvalue =>
          .after fun _ => .pure hvalue

/-- A decoded packet is encoded the same without its widths, if they are natural. -/
theorem encode_reread {b : Bytes} (hdecode : decode registry b = .ok p)
    (hnatural : Placed.AllNatural registry ⟨formatOf registry p.key, p.value, none⟩) :
    encode registry (p.reread id) = encode registry p := by
  have hread : (read registry).Yields fun p =>
      Retold registry (codec registry p.key) (formatOf registry p.key) p.value := by
    refine .restoring (.after fun c => ?_)
    split
    · exact .raiseAt _ _
    · exact .after fun _ => readHere_retold registry
  have hretells := (hread.onBytes hdecode).retells none hnatural
  have hlength : ((entry registry p.key).format.outermost registry).fieldLength
      (p.value.reread id) =
        ((entry registry p.key).format.outermost registry).fieldLength p.value := hretells.length
  have hfield : ((entry registry p.key).format.outermost registry).writeField
      (p.value.reread id) =
        ((entry registry p.key).format.outermost registry).writeField p.value :=
    funext hretells.field
  rw [encode, encode]
  congr 1
  unfold write
  dsimp only [reread]
  rw [hlength, hfield]

end Packet

end MotionMetadata
