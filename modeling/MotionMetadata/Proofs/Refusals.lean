import MotionMetadata.Proofs.PacketStreams
import MotionMetadata.Proofs.SteadySets

/-!
# Which part is refused

Reading fails for its depth or it does not, and where it does, some part of it did so first. A
sequence is refused in its first part or behind it. A row of parts, as series and sets are, is
refused if one of the parts is that are reached, and how many steps the reader of the row has
been given does not show. A part with a length, or with a key and a length, is refused exactly
if its field is.
-/

namespace MotionMetadata

/-! ## Readers that are refused -/

namespace Reader

variable {α β : Type} {x : Reader α} {f : α → Reader β} {c : Cursor}

/-- The reader fails at the cursor because it would nest too deep. -/
def TooDeep (r : Reader α) (c : Cursor) : Prop :=
  ∃ e d, r c = .error e d ∧ e.kind = .depth

theorem not_tooDeep_of_ok {a : α} {d : Cursor} (h : x c = .ok a d) : ¬ x.TooDeep c := by
  rintro ⟨e, d', he, _⟩
  rw [h] at he
  cases he

theorem tooDeep_of_error {e : Error} {d : Cursor} (h : x c = .error e d) :
    x.TooDeep c ↔ e.kind = .depth := by
  refine ⟨?_, fun hdepth => ⟨e, d, h, hdepth⟩⟩
  rintro ⟨e', d', he, hdepth⟩
  rw [h] at he
  injection he with he
  exact he ▸ hdepth

theorem Shallow.not_tooDeep (h : x.Shallow False) : ¬ x.TooDeep c :=
  fun ⟨e, d, he, hdepth⟩ => h c e d he hdepth

theorem not_tooDeep_pure {a : α} : ¬ (pure a : Reader α).TooDeep c :=
  (Shallow.pure a).not_tooDeep

theorem tooDeep_bind :
    (x >>= f).TooDeep c ↔ x.TooDeep c ∨ ∃ a d, x c = .ok a d ∧ (f a).TooDeep d := by
  cases hx : x c with
  | ok a d =>
      rw [or_iff_right (not_tooDeep_of_ok hx), TooDeep, bind_of_ok hx]
      refine ⟨fun h => ⟨a, d, rfl, h⟩, ?_⟩
      rintro ⟨a', d', hok, h⟩
      injection hok with ha hd
      exact ha ▸ hd ▸ h
  | error e d =>
      rw [tooDeep_of_error hx, tooDeep_of_error (bind_of_error hx)]
      refine ⟨.inl, ?_⟩
      rintro (hdepth | ⟨a', d', hok, _⟩)
      · exact hdepth
      · cases hok

/-- A sequence whose first part is never refused. -/
theorem tooDeep_then (hx : x.Shallow False) :
    (x >>= f).TooDeep c ↔ ∃ a d, x c = .ok a d ∧ (f a).TooDeep d :=
  tooDeep_bind.trans (or_iff_right hx.not_tooDeep)

/-- A sequence whose second part is never refused. -/
theorem tooDeep_first (hf : ∀ a, (f a).Shallow False) : (x >>= f).TooDeep c ↔ x.TooDeep c :=
  tooDeep_bind.trans (or_iff_left fun ⟨a, _, _, h⟩ => (hf a).not_tooDeep h)

theorem tooDeep_within {place : String} :
    (mapError (·.within place) x).TooDeep c ↔ x.TooDeep c := by
  cases hx : x c with
  | ok a d =>
      have hmapped : mapError (·.within place) x c = .ok a d := by rw [mapError, hx]
      exact iff_of_false (not_tooDeep_of_ok hmapped) (not_tooDeep_of_ok hx)
  | error e d =>
      have hmapped : mapError (·.within place) x c = .error (e.within place) d := by
        rw [mapError, hx]
      rw [tooDeep_of_error hmapped, tooDeep_of_error hx]
      rfl

/-- A sequence that goes on only under a condition. -/
theorem tooDeep_require {p : Prop} [Decidable p] {offset : Nat} {fault : Fault}
    (h : fault.isDeep = false) :
    (if p then x else raiseAt offset fault >>= fun (_ : Unit) => x).TooDeep c ↔
      p ∧ x.TooDeep c := by
  split
  · next hp => exact (and_iff_right hp).symm
  · next hp =>
      refine iff_of_false ?_ fun hpx => hp hpx.1
      rw [tooDeep_then (.raiseAt h)]
      rintro ⟨_, _, ⟨⟩, _⟩

/-- A sequence that is over at the end of the bytes. -/
theorem tooDeep_unlessAtEnd {a : α} :
    (atEnd >>= fun done => if done then pure a else x).TooDeep c ↔
      0 < c.rest.length ∧ x.TooDeep c := by
  rw [TooDeep, bind_of_ok (atEnd_apply c)]
  cases hc : c.rest with
  | nil => exact iff_of_false not_tooDeep_pure fun h => absurd h.1 (Nat.lt_irrefl 0)
  | cons b rest => exact (and_iff_right (Nat.succ_pos _)).symm

theorem tooDeep_inField {n : Nat} (h : n ≤ c.rest.length) :
    (inField n x).TooDeep c ↔ x.TooDeep (c.field n) := by
  have hfield := @inField_of_le _ x n c h
  cases hx : x (c.field n) with
  | ok a d =>
      rw [hx] at hfield
      exact iff_of_false (not_tooDeep_of_ok hfield) (not_tooDeep_of_ok hx)
  | error e d =>
      rw [hx] at hfield
      rw [tooDeep_of_error hfield, tooDeep_of_error hx]

end Reader

/-! ## Rows

Series and sets are rows of parts that are read one after another to the end of the bytes. What
is kept between two parts is of the type `σ`. -/

namespace Reader

variable {σ α : Type} {loop : Nat → σ → Reader (List α)} {one : σ → Reader α} {next : σ → α → σ}
  {s : σ} {c : Cursor}

/-- Where parts are read when reading starts at a cursor: there, and behind each part. -/
inductive Reaches (one : σ → Reader α) (next : σ → α → σ) : σ → Cursor → σ → Cursor → Prop where
  | here (s : σ) (c : Cursor) : Reaches one next s c s c
  | behind {s t : σ} {c between d : Cursor} {a : α} (hone : one s c = .ok a between)
      (hrest : Reaches one next (next s a) between t d) : Reaches one next s c t d

/-- A reader of a row, which stops after so many parts. -/
structure ReadsRow (loop : Nat → σ → Reader (List α)) (one : σ → Reader α)
    (next : σ → α → σ) : Prop where
  zero : ∀ s, loop 0 s = pure []
  succ : ∀ n s, loop (n + 1) s = do
    if ← atEnd then
      return []
    let a ← one s
    let rest ← loop n (next s a)
    return a :: rest
  /-- No part is without bytes. -/
  consumes : ∀ s, (one s).Consumes 1

namespace ReadsRow

/-- The parts of a row have what is read for any part. -/
theorem yields (h : ReadsRow loop one next) {P : α → Prop} (hone : ∀ s, (one s).Yields P)
    (fuel : Nat) : (loop fuel s).Yields fun row => ∀ a ∈ row, P a := by
  induction fuel generalizing s with
  | zero =>
      rw [h.zero]
      exact .pure nofun
  | succ fuel ih =>
      rw [h.succ]
      refine .after fun atEnd => .ite (fun _ => .pure nofun) fun _ => ?_
      exact (hone s).bind fun a ha => ih.bind fun rest hrest =>
        .pure (List.forall_mem_cons.2 ⟨ha, hrest⟩)

/-- A row is refused if one of its parts is. -/
theorem tooDeep_iff (h : ReadsRow loop one next)
    (hpart : ∀ s c, (one s).TooDeep c → 0 < c.rest.length) {fuel : Nat}
    (hfuel : c.rest.length ≤ fuel) :
    (loop fuel s).TooDeep c ↔ ∃ t d, Reaches one next s c t d ∧ (one t).TooDeep d := by
  constructor
  · intro hdeep
    induction fuel generalizing s c with
    | zero => exact absurd (h.zero s ▸ hdeep) not_tooDeep_pure
    | succ fuel ih =>
        rw [h.succ, tooDeep_unlessAtEnd] at hdeep
        rcases tooDeep_bind.1 hdeep.2 with hone | ⟨a, between, hone, hdeep⟩
        · exact ⟨s, c, .here s c, hone⟩
        · obtain ⟨m, hm, hle, rfl⟩ := h.consumes s c a between hone
          rw [tooDeep_first fun _ => .pure _] at hdeep
          obtain ⟨t, d, hreach, hd⟩ :=
            ih (by rw [Cursor.rest_advance, List.length_drop]; omega) hdeep
          exact ⟨t, d, .behind hone hreach, hd⟩
  · rintro ⟨t, d, hreach, hdeep⟩
    induction hreach generalizing fuel with
    | here s c =>
        have hpos := hpart s c hdeep
        obtain ⟨fuel, rfl⟩ : ∃ n, fuel = n + 1 := ⟨fuel - 1, by omega⟩
        rw [h.succ, tooDeep_unlessAtEnd]
        exact ⟨hpos, tooDeep_bind.2 (.inl hdeep)⟩
    | @behind s t c between d a hone hrest ih =>
        obtain ⟨m, hm, hle, rfl⟩ := h.consumes s c a between hone
        obtain ⟨fuel, rfl⟩ : ∃ n, fuel = n + 1 := ⟨fuel - 1, by omega⟩
        rw [h.succ, tooDeep_unlessAtEnd]
        refine ⟨hm.trans hle, tooDeep_bind.2 (.inr ⟨a, _, hone, ?_⟩)⟩
        refine (tooDeep_first fun _ => .pure _).2 (ih ?_ hdeep)
        rw [Cursor.rest_advance, List.length_drop]
        omega

end ReadsRow

end Reader

open Reader

/-- A field that was read is behind the cursor. -/
theorem Codec.readField_moves {codec : Codec} {n : Nat} {c d : Cursor} {v : Value}
    (h : codec.readField n c = .ok v d) : n ≤ c.rest.length ∧ d = c.advance n := by
  rcases Nat.eq_zero_or_pos n with rfl | hpos
  · injection h with _ hd
    exact ⟨Nat.zero_le _, by rw [← hd, Cursor.advance_zero]⟩
  · rcases Nat.lt_or_ge c.rest.length n with hlt | hle
    · rw [readField, if_neg (by omega), bind_of_error (enter_of_lt hlt)] at h
      cases h
    · rw [readField_of_le hpos hle] at h
      split at h
      · injection h with _ hd
        exact ⟨hle, hd.symm⟩
      · cases h

theorem Codec.readField_consumes {codec : Codec} (n : Nat) : (codec.readField n).Consumes n :=
  fun _ _ _ h => ⟨n, Nat.le_refl n, readField_moves h⟩

theorem Codec.readField_shallow {codec : Codec} {deep : Prop} {n : Nat}
    (h : (codec.read n).Shallow deep) : (codec.readField n).Shallow deep := by
  rw [readField]
  refine .ite (fun _ => .pure _) fun _ => ((Shallow.enter n).bind fun field => ?_)
  refine .ite (fun _ => ?_) fun _ => .pure _
  cases hread : codec.read n field with
  | ok v d => exact .pure _
  | error e d =>
      rw [settle]
      by_cases hdepth : e.kind = .depth
      · rw [if_pos hdepth]
        exact .throw fun _ => h field e d hread hdepth
      · rw [if_neg hdepth]
        exact .pure _

/-- A field is refused if what reads its bytes is. -/
theorem Codec.readField_tooDeep {codec : Codec} {n : Nat} {c : Cursor} (hle : n ≤ c.rest.length)
    (hfree : codec.constraint = .free) :
    (codec.readField n).TooDeep c ↔ 0 < n ∧ (codec.read n).TooDeep (c.field n) := by
  rcases Nat.eq_zero_or_pos n with rfl | hpos
  · exact iff_of_false not_tooDeep_pure fun h => absurd h.1 (Nat.lt_irrefl 0)
  · have hfield := @readField_of_le codec n c hpos hle
    rw [content, hfree, show LengthConstraint.free.allows n = true from rfl, if_pos rfl] at hfield
    rw [and_iff_right hpos]
    cases hread : codec.read n (c.field n) with
    | ok v d =>
        rw [hread] at hfield
        exact iff_of_false (not_tooDeep_of_ok hfield) (not_tooDeep_of_ok hread)
    | error e d =>
        rw [hread, settle] at hfield
        rw [tooDeep_of_error hread]
        by_cases hdepth : e.kind = .depth
        · rw [if_pos hdepth] at hfield
          exact tooDeep_of_error hfield
        · rw [if_neg hdepth] at hfield
          exact iff_of_false (not_tooDeep_of_ok hfield) hdepth

/-- A codec that reads an empty field has no say in whether the field is empty. -/
theorem Codec.readField_tooDeep_iff {codec : Codec} {n : Nat} {c : Cursor}
    (hle : n ≤ c.rest.length) (hfree : codec.constraint = .free)
    (hempty : ¬ (codec.read 0).TooDeep (c.field 0)) :
    (codec.readField n).TooDeep c ↔ (codec.read n).TooDeep (c.field n) := by
  rw [readField_tooDeep hle hfree, and_iff_right_iff_imp]
  intro hdeep
  rcases Nat.eq_zero_or_pos n with rfl | hpos
  · exact absurd hdeep hempty
  · exact hpos

/-! ## The parts of a series -/

namespace Series

variable {element : Codec} {c c' d : Cursor} {n : Nat}

/-- At `c` stands a length, and behind it, at `d`, stand so many bytes. -/
def ItemAt (c : Cursor) (n : Nat) (d : Cursor) : Prop :=
  ∃ length, Ber.readLength c = .ok length d ∧ length.toNat = n ∧ n ≤ d.rest.length

theorem readItem_consumes : (readItem element).Consumes 1 := by
  rw [readItem]
  refine .position_bind fun start => Ber.readLength_consumes.bind (k := 0) fun length => ?_
  refine .behind (fun _ => .remaining) fun left => .require ?_
  exact fun c v d h => (Codec.readField_consumes _ c v d h).imp fun m hm => ⟨Nat.zero_le m, hm.2⟩

theorem readItem_tooDeep :
    (readItem element).TooDeep c ↔ ∃ n d, ItemAt c n d ∧ (element.readField n).TooDeep d := by
  rw [readItem, tooDeep_then .position]
  constructor
  · rintro ⟨start, _, hstart, h⟩
    injection hstart with _ hc
    subst hc
    obtain ⟨length, d, hlength, h⟩ := (tooDeep_then Ber.readLength_shallow).1 h
    obtain ⟨left, _, hleft, h⟩ := (tooDeep_then .remaining).1 h
    injection hleft with hleft hd
    subst hleft hd
    obtain ⟨hfits, hfield⟩ := (tooDeep_require rfl).1 h
    exact ⟨_, d, ⟨length, hlength, rfl, hfits⟩, hfield⟩
  · rintro ⟨_, d, ⟨length, hlength, rfl, hfits⟩, hfield⟩
    refine ⟨_, c, rfl, (tooDeep_then Ber.readLength_shallow).2 ⟨length, d, hlength, ?_⟩⟩
    exact (tooDeep_then .remaining).2 ⟨_, d, rfl, (tooDeep_require rfl).2 ⟨hfits, hfield⟩⟩

theorem ItemAt.le (h : ItemAt c n d) : n ≤ d.rest.length := h.elim fun _ h => h.2.2

theorem ItemAt.pos (h : ItemAt c n d) : 0 < c.rest.length := by
  obtain ⟨length, hlength, _⟩ := h
  obtain ⟨m, hm, hle, _⟩ := Ber.readLength_consumes c length d hlength
  omega

theorem readItems_readsRow :
    ReadsRow (fun fuel (_ : Unit) => readItems element fuel) (fun _ => readItem element)
      fun _ _ => () where
  zero _ := rfl
  succ _ _ := rfl
  consumes _ := readItem_consumes

end Series

/-! ## The entries of a set -/

namespace FieldSet

variable {κ : Type} [SetKey κ] {table : Table} {inner : Format → Codec}
  {earlier earlier' : List Tag} {c d : Cursor}

/-- At `c` stand a key and a length, and behind them, at `d`, stand so many bytes. -/
def EntryAt (c : Cursor) (key : κ) (n : Nat) (d : Cursor) : Prop :=
  ∃ between, SetKey.read c = .ok key between ∧ Series.ItemAt between n d

/-- The tags before the entry that follows an entry. -/
def behind (table : Table) (earlier : List Tag) (e : Entry κ Value) : List Tag :=
  SetKey.tag table e.key :: earlier

theorem readEntry_consumes [LocalKey κ] :
    (readEntry (κ := κ) table inner earlier).Consumes 1 := by
  have hkey : Reader.Local (SetKey.read (κ := κ)) := fun _ => LocalKey.read_alike _
  rw [readEntry]
  refine .behind (fun _ => .within (hkey _)) fun key => .position_bind fun start => ?_
  refine (Consumes.mapError Ber.readLength_consumes).bind (k := 0) fun length => ?_
  refine .behind (fun _ => .remaining) fun left => .require ?_
  refine (Consumes.mapError fun c v d h => ?_).bind (k := 0) fun v => .pure _
  exact (Codec.readField_consumes _ c v d h).imp fun m hm => ⟨Nat.zero_le m, hm.2⟩

theorem EntryAt.le {key : κ} {n : Nat} (h : EntryAt c key n d) : n ≤ d.rest.length :=
  h.elim fun _ h => h.2.le

theorem EntryAt.pos [LocalKey κ] {key : κ} {n : Nat} (h : EntryAt c key n d) :
    0 < c.rest.length := by
  have hlocal : Reader.Local (SetKey.read (κ := κ)) := fun _ => LocalKey.read_alike _
  obtain ⟨between, hkey, hitem⟩ := h
  obtain ⟨m, _, _, rfl⟩ := hlocal.consumes c key between hkey
  have hpos := hitem.pos
  rw [Cursor.rest_advance, List.length_drop] at hpos
  omega

theorem readEntries_readsRow [LocalKey κ] :
    ReadsRow (readEntries (κ := κ) table inner) (readEntry table inner) (behind table) where
  zero _ := rfl
  succ _ _ := rfl
  consumes _ := readEntry_consumes

variable [SteadyKey κ]

theorem readEntry_tooDeep :
    (readEntry (κ := κ) table inner earlier).TooDeep c ↔
      ∃ key n d, EntryAt (κ := κ) c key n d ∧
        ((inner ((SetKey.entry table key).format.after earlier.reverse)).readField
          n).TooDeep d := by
  rw [readEntry, tooDeep_then (Shallow.within SteadyKey.read)]
  constructor
  · rintro ⟨key, between, hkey, h⟩
    obtain ⟨start, _, hstart, h⟩ := (tooDeep_then .position).1 h
    injection hstart with _ hc
    subst hc
    obtain ⟨length, d, hlength, h⟩ := (tooDeep_then (.within Ber.readLength_shallow)).1 h
    obtain ⟨left, _, hleft, h⟩ := (tooDeep_then .remaining).1 h
    injection hleft with hleft hd
    subst hleft hd
    obtain ⟨hfits, h⟩ := (tooDeep_require rfl).1 h
    rw [tooDeep_first fun _ => .pure _, tooDeep_within] at h
    exact ⟨key, _, d, ⟨between, mapError_eq_ok.1 hkey, length, mapError_eq_ok.1 hlength, rfl,
      hfits⟩, h⟩
  · rintro ⟨key, _, d, ⟨between, hkey, length, hlength, rfl, hfits⟩, h⟩
    refine ⟨key, between, mapError_eq_ok.2 hkey, (tooDeep_then .position).2 ⟨_, between, rfl, ?_⟩⟩
    refine (tooDeep_then (.within Ber.readLength_shallow)).2
      ⟨length, d, mapError_eq_ok.2 hlength, (tooDeep_then .remaining).2 ⟨_, d, rfl, ?_⟩⟩
    refine (tooDeep_require rfl).2 ⟨hfits, ?_⟩
    rwa [tooDeep_first fun _ => .pure _, tooDeep_within]

end FieldSet

end MotionMetadata
