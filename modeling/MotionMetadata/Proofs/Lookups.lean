import Mathlib.Data.List.Induction
import MotionMetadata.Table

/-!
# What a table finds

A table answers four kinds of questions, by tag, by universal key and by either name, and each of
them by going through its entries. That the first entry with the answer is the only one is what a
table is checked for when it is put together. `Clash` says which entries cannot be in one table,
apart from the order of the checks: a list makes a table exactly if no two of its known entries
clash, and two entries with one answer would.

Tag zero stands for no tag. Entries may share it, and nothing is found under it.
-/

namespace MotionMetadata

/-! ## Labels of one name -/

namespace UniversalKey

variable {a b : UniversalKey}

/-- The labels have the same bytes, apart from their versions. -/
def SameButVersion (a b : UniversalKey) : Prop :=
  ∀ i, i ≠ versionIndex → a.bytes[i]? = b.bytes[i]?

theorem same_iff : a.same b = true ↔ a.SameButVersion b := by
  rw [same, beq_iff_eq, significant, significant, List.ext_getElem?_iff]
  simp only [List.getElem?_eraseIdx]
  constructor
  · intro h i hi
    rcases Nat.lt_or_gt_of_ne hi with hlt | hgt
    · have hbefore := h i
      rwa [if_pos hlt, if_pos hlt] at hbefore
    · have hbehind := h (i - 1)
      have hnot : ¬ i - 1 < versionIndex := by omega
      rwa [if_neg hnot, if_neg hnot, Nat.sub_add_cancel (by omega)] at hbehind
  · intro h i
    split
    · next hlt => exact h i (Nat.ne_of_lt hlt)
    · next hnot => exact h (i + 1) (by omega)

end UniversalKey

/-! ## Entries of one table -/

namespace TagEntry

/-- The entry has the universal key, in some version. -/
def HasKey (e : TagEntry) (key : UniversalKey) : Prop :=
  ∃ k, e.key = some k ∧ k.SameButVersion key

/-- Two entries cannot both be known to one table. -/
inductive Clash (a b : TagEntry) : Prop where
  | tag (hne : b.tag ≠ 0) (h : a.tag = b.tag)
  | key {key : UniversalKey} (hkey : b.key = some key) (h : a.HasKey key)
  | name (h : a.name = b.name)
  | symbol (h : a.symbol = b.symbol)

end TagEntry

namespace Aspect

variable {κ : Type} [BEq κ] {aspect : Aspect κ} {a b e : TagEntry} {before : List TagEntry}
  {table : String} {fault : Fault}

/-- The first entry answers to what the second answers to. -/
def Shared (aspect : Aspect κ) (a b : TagEntry) : Prop :=
  ∃ key, aspect.of b = some key ∧ aspect.answers a key = true

theorem answers_iff {key : κ} :
    aspect.answers e key = true ↔ ∃ k, aspect.of e = some k ∧ (k == key) = true := by
  rw [answers, Option.any_eq_true]

theorem tag_of_eq_some {tag : Tag} : Aspect.tag.of e = some tag ↔ tag ≠ 0 ∧ e.tag = tag := by
  show (if e.tag = 0 then none else some e.tag) = some tag ↔ _
  by_cases hzero : e.tag = 0
  · rw [if_pos hzero]
    constructor
    · intro h
      cases h
    · intro h
      obtain ⟨hne, htag⟩ := h
      exact absurd (htag.symm.trans hzero) hne
  · rw [if_neg hzero, Option.some.injEq]
    constructor
    · intro htag
      exact ⟨htag ▸ hzero, htag⟩
    · exact And.right

theorem tag_answers {tag : Tag} : Aspect.tag.answers e tag = true ↔ tag ≠ 0 ∧ e.tag = tag := by
  simp only [answers_iff, tag_of_eq_some, beq_iff_eq]
  constructor
  · intro h
    obtain ⟨k, hk, heq⟩ := h
    rwa [heq] at hk
  · intro h
    exact ⟨tag, h, rfl⟩

theorem key_answers {key : UniversalKey} : Aspect.key.answers e key = true ↔ e.HasKey key := by
  rw [answers_iff]
  constructor
  · intro h
    obtain ⟨k, hk, hsame⟩ := h
    exact ⟨k, hk, UniversalKey.same_iff.1 hsame⟩
  · intro h
    obtain ⟨k, hk, hsame⟩ := h
    exact ⟨k, hk, UniversalKey.same_iff.2 hsame⟩

theorem name_answers {text : String} : Aspect.name.answers e text = true ↔ e.name = text :=
  beq_iff_eq

theorem symbol_answers {text : String} : Aspect.symbol.answers e text = true ↔ e.symbol = text :=
  beq_iff_eq

/-- Entries that answer to one key share it. -/
theorem shared_of_answers [EquivBEq κ] {key : κ} (ha : aspect.answers a key = true)
    (hb : aspect.answers b key = true) : aspect.Shared a b := by
  obtain ⟨k, hk, hkey⟩ := answers_iff.1 ha
  obtain ⟨l, hl, hkey'⟩ := answers_iff.1 hb
  exact ⟨l, hl, answers_iff.2 ⟨k, hk, BEq.trans hkey (BEq.symm hkey')⟩⟩

theorem shared?_eq_none_iff :
    aspect.shared? table before e = none ↔ ∀ a ∈ before, ¬ aspect.Shared a e := by
  rw [shared?]
  cases hof : aspect.of e with
  | none => simp [Shared, hof]
  | some key => simp [Shared, hof]

theorem shared?_eq_some (h : aspect.shared? table before e = some fault) :
    ∃ key, fault = aspect.taken table key := by
  rw [shared?] at h
  cases hof : aspect.of e with
  | none =>
      rw [hof] at h
      cases h
  | some key =>
      rw [hof] at h
      dsimp only at h
      split at h
      · injection h with h
        exact ⟨key, h.symm⟩
      · cases h

theorem clash_iff_shared : a.Clash b ↔ Aspect.tag.Shared a b ∨ Aspect.key.Shared a b ∨
    Aspect.name.Shared a b ∨ Aspect.symbol.Shared a b := by
  constructor
  · intro h
    cases h with
    | tag hne h => exact .inl ⟨b.tag, tag_of_eq_some.2 ⟨hne, rfl⟩, tag_answers.2 ⟨hne, h⟩⟩
    | key hkey h => exact .inr (.inl ⟨_, hkey, key_answers.2 h⟩)
    | name h => exact .inr (.inr (.inl ⟨_, rfl, name_answers.2 h⟩))
    | symbol h => exact .inr (.inr (.inr ⟨_, rfl, symbol_answers.2 h⟩))
  · intro h
    rcases h with ⟨tag, hof, h⟩ | ⟨key, hof, h⟩ | ⟨text, hof, h⟩ | ⟨text, hof, h⟩
    · obtain ⟨hne, hb⟩ := tag_of_eq_some.1 hof
      exact .tag (hb ▸ hne) ((tag_answers.1 h).2.trans hb.symm)
    · exact .key hof (key_answers.1 h)
    · exact .name ((name_answers.1 h).trans (Option.some.inj hof).symm)
    · exact .symbol ((symbol_answers.1 h).trans (Option.some.inj hof).symm)

end Aspect

namespace Table

variable {name : String} {before known : List TagEntry} {entry : TagEntry} {fault : Fault}

/-- An entry is let in if it clashes with none before it. -/
theorem clash?_eq_none_iff :
    clash? name before entry = none ↔ ∀ a ∈ before, ¬ a.Clash entry := by
  simp only [clash?, Option.or_eq_none_iff, Aspect.shared?_eq_none_iff, Aspect.clash_iff_shared,
    not_or, forall_and]

theorem kind_of_clash? (h : clash? name before entry = some fault) : fault.kind = .registry := by
  simp only [clash?, Option.or_eq_some_iff] at h
  rcases h with h | ⟨-, h | ⟨-, h | ⟨-, h⟩⟩⟩
  all_goals
    obtain ⟨key, rfl⟩ := Aspect.shared?_eq_some h
    rfl

/-- The entries are let in one by one, so all are if no two clash. -/
theorem firstClash?_eq_none_iff : firstClash? name before known = none ↔
    (∀ a ∈ before, ∀ e ∈ known, ¬ a.Clash e) ∧ known.Pairwise fun a b => ¬ a.Clash b := by
  induction known generalizing before with
  | nil => exact iff_of_true rfl ⟨fun _ _ _ he => absurd he List.not_mem_nil, .nil⟩
  | cons entry rest ih =>
      rw [firstClash?, Option.or_eq_none_iff, clash?_eq_none_iff, ih]
      simp only [List.forall_mem_cons, List.pairwise_cons]
      constructor
      · intro h
        obtain ⟨hentry, ⟨hnext, hbefore⟩, hrest⟩ := h
        exact ⟨fun a ha => ⟨hentry a ha, hbefore a ha⟩, hnext, hrest⟩
      · intro h
        obtain ⟨hbefore, hnext, hrest⟩ := h
        exact ⟨fun a ha => (hbefore a ha).1, ⟨hnext, fun a ha => (hbefore a ha).2⟩, hrest⟩

theorem kind_of_firstClash? (h : firstClash? name before known = some fault) :
    fault.kind = .registry := by
  induction known generalizing before with
  | nil => cases h
  | cons entry rest ih =>
      rw [firstClash?, Option.or_eq_some_iff] at h
      rcases h with h | ⟨-, h⟩
      · exact kind_of_clash? h
      · exact ih h

/-- A list makes a table exactly if no two known entries clash. -/
theorem ofEntries_cons_eq_ok {unknown : TagEntry} {table : Table} :
    ofEntries name (unknown :: known) = .ok table ↔
      (known.Pairwise fun a b => ¬ a.Clash b) ∧ table = ⟨name, unknown, known⟩ := by
  have hnone : firstClash? name [] known = none ↔ known.Pairwise fun a b => ¬ a.Clash b :=
    firstClash?_eq_none_iff.trans (and_iff_right fun _ ha => absurd ha List.not_mem_nil)
  rw [← hnone, ofEntries]
  cases firstClash? name [] known with
  | none =>
      constructor
      · rintro ⟨⟩
        exact ⟨rfl, rfl⟩
      · rintro ⟨-, rfl⟩
        rfl
  | some fault =>
      constructor
      · rintro ⟨⟩
      · rintro ⟨⟨⟩, -⟩

theorem kind_of_ofEntries {entries : List TagEntry} {error : Error}
    (h : ofEntries name entries = .error error) : error.kind = .registry := by
  cases entries with
  | nil =>
      cases h
      rfl
  | cons unknown known =>
      rw [ofEntries] at h
      cases hclash : firstClash? name [] known with
      | none =>
          rw [hclash] at h
          cases h
      | some fault =>
          rw [hclash] at h
          cases h
          exact kind_of_firstClash? hclash

/-! ## Finding entries -/

/-- What is found among the entries of a table: the one behind the first that has the property,
or the first if none has it. -/
inductive Finds (entries : List TagEntry) (p : TagEntry → Prop) : TagEntry → Prop where
  | known {i : Nat} {e : TagEntry} (hi : 0 < i) (he : entries[i]? = some e) (hp : p e)
      (hunique : ∀ j a, 0 < j → entries[j]? = some a → p a → j = i) : Finds entries p e
  | unknown {e : TagEntry} (he : entries[0]? = some e)
      (hnone : ∀ j a, 0 < j → entries[j]? = some a → ¬ p a) : Finds entries p e

theorem pairwise_iff_getElem? {R : TagEntry → TagEntry → Prop} : known.Pairwise R ↔
    ∀ (i j : Nat) a b, i < j → known[i]? = some a → known[j]? = some b → R a b := by
  rw [List.pairwise_iff_getElem]
  constructor
  · intro h i j a b hij ha hb
    obtain ⟨hi, rfl⟩ := List.getElem?_eq_some_iff.1 ha
    obtain ⟨hj, rfl⟩ := List.getElem?_eq_some_iff.1 hb
    exact h i j hi hj hij
  · intro h i j hi hj hij
    exact h i j _ _ hij (List.getElem?_eq_getElem hi) (List.getElem?_eq_getElem hj)

/-- What has a property is found as what has the same property in other words. -/
theorem Finds.congr {entries : List TagEntry} {p q : TagEntry → Prop} {e : TagEntry}
    (h : Finds entries p e) (hiff : ∀ e, p e ↔ q e) : Finds entries q e := by
  rwa [← funext fun e => propext (hiff e)]

theorem Finds.unique {entries : List TagEntry} {p : TagEntry → Prop} {a b : TagEntry}
    (ha : Finds entries p a) (hb : Finds entries p b) : a = b := by
  cases ha with
  | known hi ha hp hunique =>
      cases hb with
      | known hj hb hp' _ =>
          rw [hunique _ _ hj hb hp', ha] at hb
          exact Option.some.inj hb
      | unknown _ hnone => exact absurd hp (hnone _ _ hi ha)
  | unknown ha hnone =>
      cases hb with
      | known hj hb hp' _ => exact absurd hp' (hnone _ _ hj hb)
      | unknown hb _ => exact Option.some.inj (ha.symm.trans hb)

/-- The first entry that answers to a key is the only one, if no two share any. -/
theorem lookup_finds {κ : Type} [BEq κ] [EquivBEq κ] {aspect : Aspect κ} {unknown : TagEntry}
    (hknown : known.Pairwise fun a b => ¬ aspect.Shared a b) (key : κ) :
    Finds (unknown :: known) (fun e => aspect.answers e key = true)
      (lookup ⟨name, unknown, known⟩ aspect key) := by
  have hpair := pairwise_iff_getElem?.1 hknown
  rw [lookup]
  cases hfound : known.find? (aspect.answers · key) with
  | none =>
      refine .unknown rfl fun j a hj ha hp => ?_
      obtain ⟨j, rfl⟩ := Nat.exists_eq_add_one.2 hj
      exact List.find?_eq_none.1 hfound a (List.mem_of_getElem? ha) hp
  | some e =>
      have hp := List.find?_some hfound
      obtain ⟨i, hi⟩ := List.mem_iff_getElem?.1 (List.mem_of_find?_eq_some hfound)
      refine .known (Nat.succ_pos i) hi hp fun j a hj ha hpa => ?_
      obtain ⟨j, rfl⟩ := Nat.exists_eq_add_one.2 hj
      rw [List.getElem?_cons_succ] at ha
      rcases Nat.lt_trichotomy j i with hlt | rfl | hgt
      · exact absurd (Aspect.shared_of_answers hpa hp) (hpair j i a e hlt ha hi)
      · rfl
      · exact absurd (Aspect.shared_of_answers hp hpa) (hpair i j e a hgt hi ha)

theorem exists_clash_iff {unknown : TagEntry} :
    (∃ (i j : Nat) (a b : TagEntry), 0 < i ∧ i < j ∧ (unknown :: known)[i]? = some a ∧
      (unknown :: known)[j]? = some b ∧ a.Clash b) ↔
      ¬ known.Pairwise fun a b => ¬ a.Clash b := by
  rw [pairwise_iff_getElem?]
  simp only [not_forall, not_not, exists_prop]
  constructor
  · rintro ⟨i, j, a, b, hi, hij, ha, hb, hclash⟩
    obtain ⟨i, rfl⟩ := Nat.exists_eq_add_one.2 hi
    obtain ⟨j, rfl⟩ := Nat.exists_eq_add_one.2 (Nat.lt_trans hi hij)
    exact ⟨i, j, a, b, Nat.lt_of_succ_lt_succ hij, ha, hb, hclash⟩
  · rintro ⟨i, j, a, b, hij, ha, hb, hclash⟩
    exact ⟨i + 1, j + 1, a, b, Nat.succ_pos i, Nat.succ_lt_succ hij, ha, hb, hclash⟩

/-- No table can be made of nothing, or of entries that clash behind the first. -/
theorem ofEntries_eq_error_iff {entries : List TagEntry} :
    (∃ error, ofEntries name entries = .error error) ↔
      entries = [] ∨ ∃ (i j : Nat) (a b : TagEntry), 0 < i ∧ i < j ∧ entries[i]? = some a ∧
        entries[j]? = some b ∧ a.Clash b := by
  cases entries with
  | nil => exact iff_of_true ⟨_, rfl⟩ (.inl rfl)
  | cons unknown known =>
      rw [exists_clash_iff, or_iff_right (List.cons_ne_nil unknown known)]
      cases h : ofEntries name (unknown :: known) with
      | ok table =>
          refine iff_of_false ?_ (not_not_intro (ofEntries_cons_eq_ok.1 h).1)
          intro h
          obtain ⟨_, herror⟩ := h
          cases herror
      | error error =>
          refine iff_of_true ⟨error, rfl⟩ fun hknown => ?_
          cases h.symm.trans (ofEntries_cons_eq_ok.2 ⟨hknown, rfl⟩)

end Table

end MotionMetadata
