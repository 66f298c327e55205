import MotionMetadata.Proofs.Spellings

/-!
# Series element by element

The bytes of a series are its elements: a length and that many bytes, over and over, to the very
end. The lengths alone say where one element stops and the next begins, so a string splits into
elements in one way or not at all, whatever the elements are. Each is read from its own bytes as
if nothing stood around it, and the only thing that can go wrong there is that it nests too deep.

What is written for some items splits into one element for each. That they are read again as so
many elements is therefore a matter of their lengths, but that they are read at all is not: bytes
that are kept for an item are written without a look inside, and they may nest deeper than levels
are left.
-/

namespace MotionMetadata

namespace Series

/-- An element as it is spelled: its length, and its bytes. -/
structure Chunk where
  header : Bytes
  content : Bytes

namespace Chunk

def bytes (k : Chunk) : Bytes := k.header ++ k.content

/-- The length is spelled so that it is read. -/
def Spelled (k : Chunk) : Prop := Ber.LengthSpelling k.content.length k.header

end Chunk

/-- The bytes are the elements, one after another and nothing else. -/
structure Splits (w : Bytes) (chunks : List Chunk) : Prop where
  spelled : ∀ k ∈ chunks, k.Spelled
  bytes : w = chunks.flatMap Chunk.bytes

/-- What the elements are, each read from its own bytes alone. -/
def meaning (element : Codec) (chunks : List Chunk) : Except Error (List Value) :=
  chunks.mapM fun k => element.onField k.content

/-- Some element nests deeper than levels are left. -/
def TooDeep (element : Codec) (chunks : List Chunk) : Prop :=
  ∃ k ∈ chunks, ∃ e, element.onField k.content = .error e ∧ e.kind = .depth

/-- The chunk is what the codec writes for the item, in the length it works out for it. -/
def Holds (element : Codec) (item : Value) (k : Chunk) : Prop :=
  element.fieldLength item = .ok k.content.length ∧
    ∃ position, element.writeField item k.content.length position = .ok ((), k.content)

variable {element : Codec} {chunks chunks' : List Chunk} {k k' : Chunk} {w t t' : Bytes}
  {c d : Cursor} {v : Value} {items : List Value}

/-! ## There is one split -/

theorem Splits.nil : Splits [] [] := ⟨List.forall_mem_nil _, rfl⟩

theorem Splits.cons (hk : k.Spelled) (h : Splits w chunks) :
    Splits (k.bytes ++ w) (k :: chunks) :=
  ⟨List.forall_mem_cons.2 ⟨hk, h.spelled⟩, by rw [List.flatMap_cons, ← h.bytes]⟩

theorem Chunk.Spelled.bytes_ne_nil (h : k.Spelled) : k.bytes ≠ [] := by
  simp [bytes, Ber.LengthSpelling.ne_nil h]

/-- An element ends where its own length says. -/
theorem Chunk.Spelled.unique (h : k.Spelled) (h' : k'.Spelled)
    (heq : k.bytes ++ t = k'.bytes ++ t') : k' = k ∧ t' = t := by
  obtain ⟨header, content⟩ := k
  obtain ⟨header', content'⟩ := k'
  rw [bytes, bytes, List.append_assoc, List.append_assoc] at heq
  obtain ⟨hlength, hheader, hrest⟩ :=
    (Ber.LengthSpelling.reads h).unique (Ber.LengthSpelling.reads h') heq
  have hcount : content'.length = content.length := by
    have hvalues := congrArg UInt64.toNat hlength
    rwa [Ber.LengthSpelling.toNat h', Ber.LengthSpelling.toNat h] at hvalues
  obtain ⟨hcontent, ht⟩ := List.append_inj hrest hcount
  dsimp only at hheader hcontent
  rw [hheader, hcontent, ht]
  exact ⟨rfl, rfl⟩

/-- A string splits in one way or not at all. -/
theorem Splits.unique (h : Splits w chunks) (h' : Splits w chunks') : chunks' = chunks :=
  flatMap_injective (fun _ hk => hk.bytes_ne_nil) (fun hk hk' => hk.unique hk') h.spelled
    h'.spelled (h.bytes.symm.trans h'.bytes)

/-! ## What the elements are -/

theorem meaning_eq_ok : meaning element chunks = .ok items ↔
    List.Forall₂ (fun k item => element.onField k.content = .ok item) chunks items :=
  except_mapM_eq_ok

/-- Elements are something each, or one of them is too deep. -/
theorem meaning_eq_error : (∃ e, meaning element chunks = .error e) ↔ TooDeep element chunks := by
  induction chunks with
  | nil => exact iff_of_false nofun fun ⟨_, hk, _⟩ => nomatch hk
  | cons k chunks ih =>
      rw [meaning, List.mapM_cons]
      cases hvalue : element.onField k.content with
      | error e =>
          exact iff_of_true ⟨e, rfl⟩
            ⟨k, List.mem_cons_self .., e, hvalue, Codec.onField_error hvalue⟩
      | ok v =>
          have hrest : TooDeep element (k :: chunks) ↔ TooDeep element chunks := by
            simp [TooDeep, hvalue]
          rw [hrest, ← ih, meaning, except_bind_ok]
          cases chunks.mapM fun k => element.onField k.content with
          | ok items => exact iff_of_false nofun nofun
          | error e => exact iff_of_true ⟨e, rfl⟩ ⟨e, rfl⟩

theorem exists_meaning : (∃ items, meaning element chunks = .ok items) ↔
    ¬ TooDeep element chunks := by
  rw [← meaning_eq_error]
  cases meaning element chunks with
  | ok items => exact iff_of_true ⟨items, rfl⟩ fun ⟨_, h⟩ => nomatch h
  | error e => exact iff_of_false (fun ⟨_, h⟩ => nomatch h) fun h => h ⟨e, rfl⟩

/-! ## Reading -/

/-- An element that is there is read as what its bytes are alone, and only depth stands in the
way. -/
theorem readItem_spelled (hlocal : ∀ n, Reader.Local (element.read n)) (hk : k.Spelled)
    (hc : c.rest = k.bytes ++ t) :
    match element.onField k.content with
    | .ok v => readItem element c = .ok v (c.advance k.bytes.length)
    | .error _ => ∃ e, readItem element c = .error e (c.advance k.bytes.length) ∧
        e.kind = .depth := by
  rw [Chunk.bytes, List.append_assoc] at hc
  have hrest : (c.advance k.header.length).rest = k.content ++ t :=
    Cursor.rest_advance_of_append hc
  have hleft : k.content.length ≤ (c.advance k.header.length).rest.length := by
    rw [hrest, List.length_append]
    exact Nat.le_add_right ..
  have hfield : readItem element c =
      element.readField k.content.length (c.advance k.header.length) := by
    rw [readItem, Reader.bind_of_ok (Reader.position_apply _),
      Reader.bind_of_ok (Ber.LengthSpelling.reads hk _ _ hc),
      Reader.bind_of_ok (Reader.remaining_apply _), Ber.LengthSpelling.toNat hk, if_pos hleft]
  rw [hfield, Chunk.bytes, List.length_append, ← Cursor.advance_advance]
  exact Codec.readField_eq_onField hlocal hrest

/-- An element that was read stands there. -/
theorem readItem_eq_ok (hlocal : ∀ n, Reader.Local (element.read n))
    (h : readItem element c = .ok v d) :
    ∃ (k : Chunk) (t : Bytes), k.Spelled ∧ c.rest = k.bytes ++ t ∧
      element.onField k.content = .ok v ∧ d = c.advance k.bytes.length := by
  have hread := h
  rw [readItem, Reader.bind_of_ok (Reader.position_apply _)] at hread
  obtain ⟨length, after, hlength, hread⟩ := Reader.bind_eq_ok.1 hread
  obtain ⟨header, t, hheader, hc, rfl⟩ := Ber.readLength_eq_ok.1 hlength
  have hrest : (c.advance header.length).rest = t := Cursor.rest_advance_of_append hc
  rw [Reader.bind_of_ok (Reader.remaining_apply _), hrest] at hread
  split at hread
  · next hle =>
      have hk : Chunk.Spelled ⟨header, t.take length.toNat⟩ := by
        rwa [Chunk.Spelled, List.length_take_of_le hle]
      have hsplit : c.rest = Chunk.bytes ⟨header, t.take length.toNat⟩ ++ t.drop length.toNat := by
        rw [hc, Chunk.bytes, List.append_assoc, List.take_append_drop]
      have hone := readItem_spelled hlocal hk hsplit
      cases hvalue : element.onField (t.take length.toNat) with
      | ok v' =>
          rw [hvalue] at hone
          dsimp only at hone
          rw [h] at hone
          injection hone with hv hd
          exact ⟨_, _, hk, hsplit, hv ▸ hvalue, hd⟩
      | error e =>
          rw [hvalue] at hone
          obtain ⟨_, herror, _⟩ := hone
          rw [h] at herror
          cases herror
  · cases hread

/-- Bytes that split are read as what the elements are. If one of them is too deep, that is what
the reader says. -/
theorem readItems_splits (hlocal : ∀ n, Reader.Local (element.read n)) (hw : Splits w chunks)
    {fuel : Nat} (hc : c.rest = w) (hfuel : w.length ≤ fuel) :
    match meaning element chunks with
    | .ok items => ∃ d, readItems element fuel c = .ok items d
    | .error _ => ∃ e d, readItems element fuel c = .error e d ∧ e.kind = .depth := by
  induction chunks generalizing w fuel c with
  | nil => exact ⟨c, readItems_end (hc.trans hw.bytes)⟩
  | cons k chunks ih =>
      obtain ⟨hk, hspelled⟩ := List.forall_mem_cons.1 hw.spelled
      have hsplit : c.rest = k.bytes ++ chunks.flatMap Chunk.bytes := by
        rw [hc, hw.bytes, List.flatMap_cons]
      have hpos : 0 < k.bytes.length := List.length_pos_iff.2 hk.bytes_ne_nil
      rw [← hc, hsplit, List.length_append] at hfuel
      obtain ⟨fuel, rfl⟩ : ∃ n, fuel = n + 1 := ⟨fuel - 1, by omega⟩
      have hne : c.rest ≠ [] := by
        rw [hsplit]
        exact List.append_ne_nil_of_left_ne_nil hk.bytes_ne_nil _
      have hone := readItem_spelled hlocal hk hsplit
      have hmore := ih ⟨hspelled, rfl⟩ (Cursor.rest_advance_of_append hsplit)
        (show _ ≤ fuel by omega)
      rw [readItems_step hne, meaning, List.mapM_cons]
      cases hvalue : element.onField k.content with
      | error e =>
          rw [hvalue] at hone
          obtain ⟨e', herror, hdepth⟩ := hone
          exact ⟨e', _, Reader.bind_of_error herror, hdepth⟩
      | ok v =>
          rw [hvalue] at hone
          rw [except_bind_ok, Reader.bind_of_ok hone]
          rw [meaning] at hmore
          cases hrest : chunks.mapM fun k => element.onField k.content with
          | error e =>
              rw [hrest] at hmore
              obtain ⟨e', d, herror, hdepth⟩ := hmore
              exact ⟨e', d, Reader.bind_of_error herror, hdepth⟩
          | ok items =>
              rw [hrest] at hmore
              obtain ⟨d, hitems⟩ := hmore
              exact ⟨d, Reader.bind_of_ok hitems⟩

/-- Bytes that were read to the end split into elements, which are what was read. -/
theorem readItems_eq_ok (hlocal : ∀ n, Reader.Local (element.read n)) {fuel : Nat}
    (hfuel : c.rest.length ≤ fuel) (h : readItems element fuel c = .ok items d) :
    ∃ chunks, Splits c.rest chunks ∧ meaning element chunks = .ok items := by
  induction fuel generalizing c items with
  | zero =>
      have hempty : c.rest = [] := List.eq_nil_of_length_eq_zero (Nat.le_zero.1 hfuel)
      rw [readItems_of_nil hempty h, hempty]
      exact ⟨[], .nil, rfl⟩
  | succ fuel ih =>
      by_cases hempty : c.rest = []
      · rw [readItems_of_nil hempty h, hempty]
        exact ⟨[], .nil, rfl⟩
      · obtain ⟨item, rest, between, hitem, hrest, rfl⟩ := readItems_of_ne_nil hempty h
        obtain ⟨k, t, hk, hc, hvalue, rfl⟩ := readItem_eq_ok hlocal hitem
        have hafter : (c.advance k.bytes.length).rest = t := Cursor.rest_advance_of_append hc
        have hpos : 0 < k.bytes.length := List.length_pos_iff.2 hk.bytes_ne_nil
        rw [hc, List.length_append] at hfuel
        obtain ⟨chunks, hsplits, hmeaning⟩ := ih (by rw [hafter]; omega) hrest
        rw [hafter] at hsplits
        refine ⟨k :: chunks, hc ▸ hsplits.cons hk, ?_⟩
        rw [meaning_eq_ok] at hmeaning ⊢
        exact .cons hvalue hmeaning

/-! ## Writing -/

/-- What is written for an item is an element. -/
theorem writeItem_eq_ok {item : Value} {position : Nat} {bytes : Bytes}
    (h : writeItem element item position = .ok ((), bytes)) (hsize : bytes.length < 2 ^ 64) :
    ∃ k : Chunk, k.Spelled ∧ bytes = k.bytes ∧ Holds element item k ∧
      bytes.length = Ber.widthOfLength k.content.length + k.content.length := by
  obtain ⟨length, hlength, h⟩ := Encoder.ofExcept_bind_eq_ok.1 h
  obtain ⟨_, header, content, hber, hfield, rfl⟩ := Encoder.bind_eq_ok.1 h
  injection hber with hber
  injection hber with _ hber
  subst hber
  obtain ⟨_, hcontent⟩ := Codec.writeField_eq_ok.1 hfield
  subst hcontent
  rw [List.length_append] at hsize
  have hk := Ber.lengthBytes_spells (UInt64.ofNat content.length)
  rw [UInt64.toNat_ofNat', Nat.mod_eq_of_lt (by omega)] at hk
  refine ⟨⟨_, content⟩, hk, rfl, ⟨hlength, _, hfield⟩, ?_⟩
  rw [List.length_append, Ber.length_lengthBytes, Ber.widthOfLength]

/-- What is written for some items splits into one element for each, and its length is the one
that was worked out without writing. -/
theorem writeItems_splits {position : Nat}
    (h : Encoder.each (writeItem element) items position = .ok ((), w))
    (hsize : w.length < 2 ^ 64) :
    itemsLength element items = .ok w.length ∧
      ∃ chunks, Splits w chunks ∧ List.Forall₂ (Holds element) items chunks := by
  induction items generalizing position w with
  | nil =>
      injection h with h
      injection h with _ h
      subst h
      exact ⟨rfl, [], .nil, .nil⟩
  | cons item items ih =>
      obtain ⟨_, first, second, hfirst, hsecond, rfl⟩ := Encoder.bind_eq_ok.1 h
      rw [List.length_append] at hsize
      obtain ⟨k, hk, rfl, hholds, htotal⟩ := writeItem_eq_ok hfirst (by omega)
      obtain ⟨hmore, chunks, hsplits, hwritten⟩ := ih hsecond (by omega)
      refine ⟨?_, k :: chunks, hsplits.cons hk, .cons hholds hwritten⟩
      rw [itemsLength, hholds.1, hmore, List.length_append, htotal]
      rfl

end Series

/-! ## Series -/

namespace Codec

open Series

variable {description : String} {element : Codec} {c d : Cursor} {w t : Bytes} {v : Value}

theorem series_read (description : String) (element : Codec) (n : Nat) :
    (series description (some element)).read n = (do
      let items ← Reader.inField n (readItems element n)
      return .series items : Reader Value) := rfl

/-- A series is read exactly if its bytes split into elements that are all something. -/
theorem read_series (description : String) (hlocal : ∀ n, Reader.Local (element.read n))
    (hc : c.rest = w ++ t) :
    (series description (some element)).read w.length c = .ok v d ↔
      d = c.advance w.length ∧ ∃ chunks items, Splits w chunks ∧
        meaning element chunks = .ok items ∧ v = .series items := by
  have hfield := Cursor.rest_field_of_append hc
  rw [series_read, Reader.bind_eq_ok]
  constructor
  · rintro ⟨items, d', hitems, hpure⟩
    injection hpure with hv hd
    obtain ⟨_, rfl, d'', hitems⟩ := Reader.inField_eq_ok.1 hitems
    obtain ⟨chunks, hsplits, hmeaning⟩ := readItems_eq_ok hlocal (by rw [hfield]) hitems
    rw [hfield] at hsplits
    exact ⟨hd.symm, chunks, items, hsplits, hmeaning, hv.symm⟩
  · rintro ⟨rfl, chunks, items, hsplits, hmeaning, rfl⟩
    have hitems := readItems_splits hlocal hsplits hfield (Nat.le_refl _)
    rw [hmeaning] at hitems
    exact ⟨items, _, Reader.inField_eq_ok.2 ⟨by rw [hc]; simp, rfl, hitems⟩, rfl⟩

theorem reads_series_iff (description : String) (hlocal : ∀ n, Reader.Local (element.read n))
    (hc : c.rest = w ++ t) :
    (∃ v d, (series description (some element)).read w.length c = .ok v d) ↔
      ∃ chunks, Splits w chunks ∧ ¬ TooDeep element chunks := by
  simp only [read_series description hlocal hc]
  constructor
  · rintro ⟨v, d, _, chunks, items, hsplits, hmeaning, _⟩
    exact ⟨chunks, hsplits, exists_meaning.1 ⟨items, hmeaning⟩⟩
  · rintro ⟨chunks, hsplits, hfine⟩
    obtain ⟨items, hmeaning⟩ := exists_meaning.2 hfine
    exact ⟨_, _, rfl, chunks, items, hsplits, hmeaning, rfl⟩

/-- A series with an element that nests too deep is refused for that. -/
theorem read_series_of_tooDeep (description : String)
    (hlocal : ∀ n, Reader.Local (element.read n)) {chunks : List Chunk} (hsplits : Splits w chunks)
    (hdeep : TooDeep element chunks) (hc : c.rest = w ++ t) :
    ∃ e, (series description (some element)).read w.length c = .error e (c.advance w.length) ∧
      e.kind = .depth := by
  have hfield := Cursor.rest_field_of_append hc
  obtain ⟨e, hmeaning⟩ := meaning_eq_error.2 hdeep
  have hitems := readItems_splits hlocal hsplits hfield (Nat.le_refl _)
  rw [hmeaning] at hitems
  obtain ⟨e', d, herror, hdepth⟩ := hitems
  refine ⟨e', ?_, hdepth⟩
  rw [series_read]
  refine Reader.bind_of_error ?_
  rw [Reader.inField_of_le (by rw [hc]; simp), herror]

theorem write_series (description : String) (element : Codec) (items : List Value)
    (n position : Nat) :
    (series description (some element)).write (.series items) n position =
      Encoder.each (writeItem element) items position :=
  (Encoder.bind_of_silent (Encoder.pure_apply element)).trans
    (Encoder.bind_of_silent (Encoder.ofExcept_ok items))

/-- What was read as a series is one item for each element, and there is one split. -/
theorem items_of_read_series {origin consumed : Nat}
    (hlocal : ∀ n, Reader.Local (element.read n))
    (h : (series description (some element)).read w.length ⟨origin, consumed, w ++ t⟩ = .ok v d) :
    d = ⟨origin, consumed + w.length, t⟩ ∧ ∃ chunks items,
      (∀ chunks', Splits w chunks' ↔ chunks' = chunks) ∧ v = .series items ∧
      List.Forall₂ (fun k item => element.onField k.content = .ok item ∧
        (k.content = [] → item = .empty)) chunks items := by
  obtain ⟨rfl, chunks, items, hsplits, hmeaning, rfl⟩ := (read_series description hlocal rfl).1 h
  refine ⟨Cursor.advance_append .., chunks, items,
    fun chunks' => ⟨hsplits.unique, fun h => h ▸ hsplits⟩, rfl, ?_⟩
  refine (meaning_eq_ok.1 hmeaning).imp fun k item hitem => ⟨hitem, fun hempty => ?_⟩
  rw [hempty, onField_nil] at hitem
  injection hitem with hitem
  exact hitem.symm

/-- What is written for a series is one element for each item, and is read as so many items
unless one of the elements nests too deep. -/
theorem read_written_series {items : List Value} {n : Nat} {buffer out : Bytes}
    (hlocal : ∀ n, Reader.Local (element.read n))
    (h : ((series description (some element)).write (.series items) n).appendTo buffer =
      (.ok (), out))
    (hsize : out.length < 2 ^ 64) :
    ∃ w chunks, out = buffer ++ w ∧
      (series description (some element)).naturalLength (.series items) = .ok w.length ∧
      Splits w chunks ∧ List.Forall₂ (Holds element) items chunks ∧
      ∀ origin consumed t,
        let outcome :=
          (series description (some element)).read w.length ⟨origin, consumed, w ++ t⟩
        (TooDeep element chunks →
          ∃ e, outcome = .error e ⟨origin, consumed + w.length, t⟩ ∧ e.kind = .depth) ∧
        (¬ TooDeep element chunks →
          ∃ items', outcome = .ok (.series items') ⟨origin, consumed + w.length, t⟩ ∧
            items'.length = items.length ∧
            List.Forall₂ (fun k item => element.onField k.content = .ok item) chunks items') := by
  obtain ⟨_, w, hw, rfl⟩ := Encoder.appendTo_eq_ok.1 h
  rw [write_series] at hw
  rw [List.length_append] at hsize
  obtain ⟨hlength, chunks, hsplits, hwritten⟩ := writeItems_splits hw (by omega)
  refine ⟨w, chunks, rfl, hlength, hsplits, hwritten,
    fun origin consumed t => ⟨fun hdeep => ?_, fun hfine => ?_⟩⟩
  · rw [← Cursor.advance_append]
    exact read_series_of_tooDeep description hlocal hsplits hdeep rfl
  · obtain ⟨items', hmeaning⟩ := exists_meaning.2 hfine
    have heach := meaning_eq_ok.1 hmeaning
    refine ⟨items', ?_, by rw [← heach.length_eq, hwritten.length_eq], heach⟩
    exact (read_series description hlocal rfl).2
      ⟨(Cursor.advance_append ..).symm, chunks, items', hsplits, hmeaning, rfl⟩

end Codec

namespace Format

theorem codec_series (registry : Registry) (element : Format) (levels : Nat) :
    (Format.series element).codec registry levels =
      .series (Format.series element).description
        ((Format.inward registry levels).map fun inner => inner element) := by
  cases levels <;> rfl

theorem inward_local {registry : Registry} {levels : Nat} {inner : Format → Codec}
    (h : Format.inward registry levels = some inner) (f : Format) (n : Nat) :
    Reader.Local ((inner f).read n) := by
  cases levels with
  | zero => cases h
  | succ levels =>
      injection h with h
      subst h
      exact fun _ => Format.codec_alike registry levels f n

end Format

namespace Series

/-- Reading a series, with `levels` levels left, accepts exactly the strings that split into
elements of which none is too deep, if a level is left for them. There is one item for each and
in their order, the one that the codec makes of its bytes alone. Whatever items are written, the
bytes have the length that was worked out for them and split into one element for each item. They
are read as so many items, each being what the codec makes of what it wrote, unless it is for
depth that one of these is refused. The bound is that of any buffer there is. -/
theorem elements_kept (registry : Registry) (element : Format) (levels : Nat) :
    let codec := (Format.series element).codec registry levels
    (∀ (w t : Bytes) (origin consumed : Nat),
      let outcome := codec.read w.length ⟨origin, consumed, w ++ t⟩
      ((∃ v d, outcome = .ok v d) ↔
        ∃ inner chunks, Format.inward registry levels = some inner ∧ Splits w chunks ∧
          ¬ TooDeep (inner element) chunks) ∧
      ∀ v d, outcome = .ok v d → d = ⟨origin, consumed + w.length, t⟩ ∧
        ∃ inner chunks items, Format.inward registry levels = some inner ∧
          (∀ chunks', Splits w chunks' ↔ chunks' = chunks) ∧ v = .series items ∧
          List.Forall₂ (fun k item => (inner element).onField k.content = .ok item ∧
            (k.content = [] → item = .empty)) chunks items) ∧
    ∀ (items : List Value) (n : Nat) (buffer out : Bytes),
      (codec.write (.series items) n).appendTo buffer = (.ok (), out) → out.length < 2 ^ 64 →
      ∃ inner w chunks, Format.inward registry levels = some inner ∧ out = buffer ++ w ∧
        codec.naturalLength (.series items) = .ok w.length ∧ Splits w chunks ∧
        List.Forall₂ (Holds (inner element)) items chunks ∧
        ∀ origin consumed t,
          let outcome := codec.read w.length ⟨origin, consumed, w ++ t⟩
          (TooDeep (inner element) chunks →
            ∃ e, outcome = .error e ⟨origin, consumed + w.length, t⟩ ∧ e.kind = .depth) ∧
          (¬ TooDeep (inner element) chunks →
            ∃ items', outcome = .ok (.series items') ⟨origin, consumed + w.length, t⟩ ∧
              items'.length = items.length ∧
              List.Forall₂ (fun k item => (inner element).onField k.content = .ok item) chunks
                items') := by
  intro codec
  have hcodec : codec = _ := Format.codec_series registry element levels
  cases hlevels : Format.inward registry levels with
  | none =>
      rw [hlevels, Option.map_none] at hcodec
      rw [hcodec]
      -- Without a level left nothing is read and nothing is written.
      refine ⟨fun w t origin consumed => ⟨iff_of_false ?_ ?_, ?_⟩, ?_⟩
      · rintro ⟨v, d, h⟩
        cases h
      · rintro ⟨inner, chunks, h, _⟩
        cases h
      · intro v d h
        cases h
      · intro items n buffer out h
        cases h
  | some inner =>
      have hlocal := Format.inward_local hlevels element
      rw [hlevels, Option.map_some] at hcodec
      rw [hcodec]
      refine ⟨fun w t origin consumed => ⟨?_, fun v d h => ?_⟩,
        fun items n buffer out h hsize => ?_⟩
      · rw [Codec.reads_series_iff _ hlocal rfl]
        constructor
        · rintro ⟨chunks, hsplits, hfine⟩
          exact ⟨inner, chunks, rfl, hsplits, hfine⟩
        · rintro ⟨_, chunks, hinner, hsplits, hfine⟩
          injection hinner with hinner
          exact ⟨chunks, hsplits, hinner ▸ hfine⟩
      · obtain ⟨hd, chunks, items, hitems⟩ := Codec.items_of_read_series hlocal h
        exact ⟨hd, inner, chunks, items, rfl, hitems⟩
      · obtain ⟨w, chunks, hout, hwritten⟩ := Codec.read_written_series hlocal h hsize
        exact ⟨inner, w, chunks, rfl, hout, hwritten⟩

/-- With one level left, a series of series is written whose one element is a byte that was kept.
That byte would be a series of an empty element, for which no level is left. -/
theorem keptElement_not_read :
    let codec := (Format.series (.series Format.bytes)).codec Registry.published 1
    (codec.write (.series [.blob [0]]) 2).appendTo [] = (.ok (), [1, 0]) ∧
      ¬ ∃ v d, codec.read 2 (Cursor.ofBytes [1, 0]) = .ok v d := by
  refine ⟨rfl, ?_⟩
  rintro ⟨v, d, h⟩
  cases h

end Series

end MotionMetadata
