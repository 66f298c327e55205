import Mathlib.Data.List.Nodup
import MotionMetadata.Codec.FieldSet
import MotionMetadata.Proofs.Writing
import MotionMetadata.Table.Transformation

/-!
# The order a set is written in

A correlation pack finds the entries it describes by counting back, so writing moves them in
front of it. The order is made from two things: the tags that some pack of the set describes,
and a search for the first entry with each of them. Neither looks at how many entries carry a
tag, or at whether a described entry describes others in turn.

What an order should be is `Complete`: the entries of the set and no others, with every pack
right behind its members. What an order that came out is, is decided by the set alone. It is
complete exactly if the set is `Separate`, that is, if no described tag is carried twice and
no described entry is a pack with members of its own. In every other set an entry is lost,
and nothing says so.
-/

namespace MotionMetadata.FieldSet

variable {κ : Type} [SetKey κ] {table : Table} {set order : FieldSet κ}

/-- The tag of an entry, by which packs describe it. -/
def entryTag (table : Table) (e : Entry κ Value) : Tag := SetKey.tag table e.key

/-- The tags that the packs of a set describe. -/
def held (table : Table) (set : FieldSet κ) : List Tag := set.flatMap (describedBy table)

/-- Whether no pack of the set describes an entry. -/
def isFree (table : Table) (set : FieldSet κ) (e : Entry κ Value) : Bool :=
  !(held table set).contains (entryTag table e)

/-- The order holds what the set holds, every entry stands right behind the entries it
describes, and the entries no pack describes are in the order they had. -/
structure Complete (table : Table) (set order : FieldSet κ) : Prop where
  perm : order.Perm set
  members : ∀ before e after, order = before ++ e :: after →
    describedBy table e <:+ before.map (entryTag table)
  free : order.filter (isFree table set) = set.filter (isFree table set)

/-- Every described tag is carried by one entry at most, and described entries describe
nothing. -/
structure Separate (table : Table) (set : FieldSet κ) : Prop where
  once : ∀ tag ∈ held table set, (set.map (entryTag table)).count tag ≤ 1
  flat : ∀ e ∈ set, entryTag table e ∈ held table set → describedBy table e = []

/-! ## What the order is made of -/

theorem firstRepeated?_eq_none {seen tags : List Tag} :
    firstRepeated? seen tags = none ↔ tags.Nodup ∧ ∀ tag ∈ tags, tag ∉ seen := by
  induction tags generalizing seen with
  | nil => simp [firstRepeated?]
  | cons tag rest ih =>
      rw [firstRepeated?]
      by_cases hseen : seen.contains tag
      · rw [if_pos hseen]
        simp only [List.contains_iff_mem] at hseen
        simp [hseen]
      · rw [if_neg hseen, ih]
        simp only [List.contains_iff_mem] at hseen
        simp only [List.nodup_cons, List.mem_cons, not_or, forall_eq_or_imp]
        constructor
        · rintro ⟨hnodup, hrest⟩
          exact ⟨⟨fun hmem => (hrest tag hmem).1 rfl, hnodup⟩, hseen,
            fun t ht => (hrest t ht).2⟩
        · rintro ⟨⟨htag, hnodup⟩, _, hrest⟩
          exact ⟨hnodup, fun t ht => ⟨fun heq => htag (heq ▸ ht), hrest t ht⟩⟩

theorem describedEntry_eq_ok {tag : Tag} {e : Entry κ Value}
    (h : describedEntry table set tag = .ok e) : e ∈ set ∧ entryTag table e = tag := by
  rw [describedEntry] at h
  split at h
  · next found hfind =>
      injection h with h
      rw [← h]
      have hfound := List.find?_some hfind
      exact ⟨List.mem_of_find?_eq_some hfind, beq_iff_eq.1 hfound⟩
  · cases h

/-- The entries that `e` describes, as they are written before it. -/
def Members (table : Table) (set : FieldSet κ) (e : Entry κ Value) (found : FieldSet κ) :
    Prop :=
  List.Forall₂ (fun tag m => describedEntry table set tag = .ok m) (describedBy table e) found

theorem Members.tags {e : Entry κ Value} {found : FieldSet κ}
    (h : Members table set e found) : found.map (entryTag table) = describedBy table e := by
  unfold Members at h
  generalize describedBy table e = tags at h ⊢
  induction h with
  | nil => rfl
  | cons hm _ ih => rw [List.map_cons, ih, (describedEntry_eq_ok hm).2]

theorem Members.mem {e m : Entry κ Value} {found : FieldSet κ}
    (h : Members table set e found) (hm : m ∈ found) : m ∈ set := by
  unfold Members at h
  generalize describedBy table e = tags at h
  induction h with
  | nil => cases hm
  | cons hfirst _ ih =>
      rcases List.mem_cons.1 hm with rfl | hrest
      · exact (describedEntry_eq_ok hfirst).1
      · exact ih hrest

/-- An order is a row of groups, one for every entry no pack describes: the entries that it
describes, and itself. No tag is described twice. -/
theorem writeOrder_eq_ok (h : writeOrder table set = .ok order) :
    (held table set).Nodup ∧
      ∃ groups : List (FieldSet κ), order = groups.flatten ∧
        List.Forall₂ (fun e group => ∃ found, Members table set e found ∧ group = found ++ [e])
          (set.filter (isFree table set)) groups := by
  rw [writeOrder] at h
  dsimp only at h
  split at h
  · cases h
  · next hnone =>
      refine ⟨(firstRepeated?_eq_none.1 hnone).1, ?_⟩
      obtain ⟨groups, hgroups, horder⟩ := except_bind_eq_ok.1 h
      injection horder with horder
      refine ⟨groups, horder.symm, ?_⟩
      refine (except_mapM_eq_ok.1 hgroups).imp ?_
      intro e group hgroup
      obtain ⟨found, hfound, hgroup⟩ := except_bind_eq_ok.1 hgroup
      injection hgroup with hgroup
      exact ⟨found, except_mapM_eq_ok.1 hfound, hgroup.symm⟩

/-! ## Counting tags

Both directions of the main statement count: a tag occurs in the order once for every free
entry that carries it and once for every time a free entry describes it. -/

theorem mem_free {e : Entry κ Value} :
    e ∈ set.filter (isFree table set) ↔ e ∈ set ∧ entryTag table e ∉ held table set := by
  simp [isFree]

/-- What the free entries describe, in the order they stand in. -/
def heldByFree (table : Table) (set : FieldSet κ) : List Tag :=
  (set.filter (isFree table set)).flatMap (describedBy table)

/-- What the entries describe that are described themselves. -/
def heldByDescribed (table : Table) (set : FieldSet κ) : List Tag :=
  (set.filter fun e => !isFree table set e).flatMap (describedBy table)

theorem held_perm (table : Table) (set : FieldSet κ) :
    (heldByFree table set ++ heldByDescribed table set).Perm (held table set) := by
  rw [heldByFree, heldByDescribed, ← List.flatMap_append, held]
  exact (List.filter_append_perm _ set).flatMap_right _

theorem count_groups {groups : List (FieldSet κ)} {free : FieldSet κ}
    (h : List.Forall₂ (fun e group => ∃ found, Members table set e found ∧ group = found ++ [e])
      free groups) (tag : Tag) :
    (groups.flatten.map (entryTag table)).count tag =
      (free.flatMap (describedBy table)).count tag + (free.map (entryTag table)).count tag := by
  induction h with
  | nil => rfl
  | @cons e group free groups hgroup _ ih =>
      obtain ⟨found, hfound, rfl⟩ := hgroup
      rw [List.flatten_cons, List.map_append, List.count_append, ih, List.flatMap_cons,
        List.map_cons, List.count_append, List.map_append, List.count_append, hfound.tags]
      simp only [List.map_cons, List.map_nil, List.count_cons, List.count_nil]
      omega

/-! ## Complete orders come from separate sets -/

section Orders

variable {groups : List (FieldSet κ)}

/-- The groups of an order, one for each free entry of the set. -/
def Groups (table : Table) (set : FieldSet κ) (free : FieldSet κ)
    (groups : List (FieldSet κ)) : Prop :=
  List.Forall₂ (fun e group => ∃ found, Members table set e found ∧ group = found ++ [e])
    free groups

theorem once_of_perm (hnodup : (held table set).Nodup)
    (hgroups : Groups table set (set.filter (isFree table set)) groups)
    (hperm : groups.flatten.Perm set) :
    ∀ tag ∈ held table set, (set.map (entryTag table)).count tag ≤ 1 := by
  intro tag htag
  have hcount := count_groups hgroups tag
  have hfree : ((set.filter (isFree table set)).map (entryTag table)).count tag = 0 := by
    rw [List.count_eq_zero]
    intro hmem
    obtain ⟨e, he, rfl⟩ := List.mem_map.1 hmem
    exact (mem_free.1 he).2 htag
  have hheld : (heldByFree table set).count tag ≤ 1 := by
    have hsplit := (held_perm table set).count_eq tag
    rw [List.count_append] at hsplit
    have hone := List.nodup_iff_count.1 hnodup tag
    omega
  rw [← (hperm.map (entryTag table)).count_eq tag, hcount, hfree]
  exact hheld

/-- A described entry stands in a complete order behind entries with the tags it describes.
Those are described by it and so by no free entry, which is the only way into the order. -/
theorem flat_of_complete (hnodup : (held table set).Nodup)
    (hgroups : Groups table set (set.filter (isFree table set)) groups)
    (hcomplete : Complete table set groups.flatten) :
    ∀ e ∈ set, entryTag table e ∈ held table set → describedBy table e = [] := by
  intro e he hheld
  rw [List.eq_nil_iff_forall_not_mem]
  intro tag htag
  obtain ⟨before, after, horder⟩ := List.append_of_mem (hcomplete.perm.mem_iff.2 he)
  have hbefore : tag ∈ before.map (entryTag table) :=
    (hcomplete.members before e after horder).subset htag
  have hcount : 0 < (groups.flatten.map (entryTag table)).count tag := by
    rw [List.count_pos_iff, horder, List.map_append]
    exact List.mem_append_left _ hbefore
  have hdescribed : 0 < (heldByDescribed table set).count tag := by
    rw [List.count_pos_iff]
    refine List.mem_flatMap.2 ⟨e, List.mem_filter.2 ⟨he, ?_⟩, htag⟩
    simp [isFree, hheld]
  have hsplit := (held_perm table set).count_eq tag
  rw [List.count_append] at hsplit
  have hone := List.nodup_iff_count.1 hnodup tag
  have hfree : ((set.filter (isFree table set)).map (entryTag table)).count tag = 0 := by
    rw [List.count_eq_zero]
    intro hmem
    obtain ⟨f, hf, hftag⟩ := List.mem_map.1 hmem
    exact (mem_free.1 hf).2 (hftag ▸ List.mem_flatMap.2 ⟨e, he, htag⟩)
  have hgroup : (groups.flatten.map (entryTag table)).count tag =
      (heldByFree table set).count tag + _ := count_groups hgroups tag
  omega

/-! ## Separate sets have complete orders -/

theorem Groups.filter_free {free : FieldSet κ} (hgroups : Groups table set free groups)
    (hfree : ∀ e ∈ free, e ∈ set ∧ isFree table set e) :
    groups.flatten.filter (isFree table set) = free := by
  unfold Groups at hgroups
  induction hgroups with
  | nil => rfl
  | @cons e group free groups hgroup _ ih =>
      obtain ⟨found, hfound, rfl⟩ := hgroup
      have he := hfree e (List.mem_cons_self ..)
      have hnone : found.filter (isFree table set) = [] := by
        rw [List.filter_eq_nil_iff]
        intro m hm
        have htag : entryTag table m ∈ describedBy table e := by
          rw [← hfound.tags]
          exact List.mem_map_of_mem hm
        have hheld : entryTag table m ∈ held table set :=
          List.mem_flatMap.2 ⟨e, he.1, htag⟩
        simp [isFree, hheld]
      rw [List.flatten_cons, List.filter_append, List.filter_append, hnone, List.nil_append,
        List.filter_cons_of_pos he.2, List.filter_nil,
        ih fun f hf => hfree f (List.mem_cons_of_mem _ hf)]
      rfl

/-- The described entries of an order, taken out of its groups. -/
theorem Groups.split {free : FieldSet κ} (hgroups : Groups table set free groups) :
    ∃ found : FieldSet κ, groups.flatten.Perm (found ++ free) ∧
      found.map (entryTag table) = free.flatMap (describedBy table) ∧ ∀ m ∈ found, m ∈ set := by
  unfold Groups at hgroups
  induction hgroups with
  | nil => exact ⟨[], .refl _, rfl, fun m hm => absurd hm List.not_mem_nil⟩
  | @cons e group free groups hgroup _ ih =>
      obtain ⟨mine, hmine, rfl⟩ := hgroup
      obtain ⟨found, hperm, htags, hmem⟩ := ih
      refine ⟨mine ++ found, ?_, ?_, ?_⟩
      · rw [List.flatten_cons, List.append_assoc, List.append_assoc]
        refine List.Perm.append_left mine ?_
        refine ((List.Perm.refl [e]).append hperm).trans ?_
        show (e :: (found ++ free)).Perm (found ++ e :: free)
        exact List.perm_middle.symm
      · rw [List.map_append, hmine.tags, htags, List.flatMap_cons]
      · intro m hm
        rcases List.mem_append.1 hm with hm | hm
        · exact hmine.mem hm
        · exact hmem m hm

theorem Groups.perm (hgroups : Groups table set (set.filter (isFree table set)) groups)
    (hnodup : (held table set).Nodup) (hsep : Separate table set) :
    groups.flatten.Perm set := by
  obtain ⟨found, hperm, htags, hmem⟩ := hgroups.split
  have hnone : heldByDescribed table set = [] := by
    rw [heldByDescribed, List.flatMap_eq_nil_iff]
    intro e he
    obtain ⟨he, hnotFree⟩ := List.mem_filter.1 he
    exact hsep.flat e he (by simpa [isFree] using hnotFree)
  have hheld : (heldByFree table set).Perm (held table set) := by
    have h := held_perm table set
    rwa [hnone, List.append_nil] at h
  -- Among the described entries of the set the tag tells which entry it is.
  have hdescribed : ((set.filter fun e => !isFree table set e).map (entryTag table)).Nodup := by
    rw [List.nodup_iff_count]
    intro tag
    by_cases htag : tag ∈ held table set
    · refine Nat.le_trans ?_ (hsep.once tag htag)
      exact (List.filter_sublist.map (entryTag table)).count_le tag
    · have : ((set.filter fun e => !isFree table set e).map (entryTag table)).count tag = 0 := by
        rw [List.count_eq_zero]
        intro hmem
        obtain ⟨e, he, rfl⟩ := List.mem_map.1 hmem
        exact htag (by simpa [isFree] using (List.mem_filter.1 he).2)
      omega
  have hfound : found.Perm (set.filter fun e => !isFree table set e) := by
    have hfoundNodup : (found.map (entryTag table)).Nodup := by
      rw [htags]
      exact hheld.nodup_iff.2 hnodup
    rw [List.perm_ext_iff_of_nodup (List.Nodup.of_map _ hfoundNodup)
      (List.Nodup.of_map _ hdescribed)]
    have hin : ∀ m ∈ found, m ∈ set.filter fun e => !isFree table set e := by
      intro m hm
      have htag : entryTag table m ∈ held table set := by
        refine hheld.mem_iff.1 ?_
        rw [heldByFree, ← htags]
        exact List.mem_map_of_mem hm
      exact List.mem_filter.2 ⟨hmem m hm, by simp [isFree, htag]⟩
    intro m
    refine ⟨hin m, fun hm => ?_⟩
    have htag : entryTag table m ∈ found.map (entryTag table) := by
      rw [htags]
      exact hheld.mem_iff.2 (by simpa [isFree] using (List.mem_filter.1 hm).2)
    obtain ⟨m', hm', heq⟩ := List.mem_map.1 htag
    rwa [← List.inj_on_of_nodup_map hdescribed (hin m' hm') hm heq]
  refine hperm.trans ((hfound.append_right _).trans ?_)
  exact List.perm_append_comm.trans (List.filter_append_perm _ set)

theorem Groups.members {free : FieldSet κ} (hgroups : Groups table set free groups)
    (hfree : ∀ e ∈ free, e ∈ set) (hsep : Separate table set) :
    ∀ before e after, groups.flatten = before ++ e :: after →
      describedBy table e <:+ before.map (entryTag table) := by
  unfold Groups at hgroups
  induction hgroups with
  | nil =>
      intro before e after h
      simp at h
  | @cons f group free groups hgroup _ ih =>
      obtain ⟨found, hfound, rfl⟩ := hgroup
      have hlater : ∀ before e after, groups.flatten = before ++ e :: after →
          describedBy table e <:+ ((found ++ [f]) ++ before).map (entryTag table) := by
        intro before e after h
        have hsuffix := ih (fun x hx => hfree x (List.mem_cons_of_mem _ hx)) before e after h
        rw [List.map_append]
        exact hsuffix.trans (List.suffix_append _ _)
      intro before e after h
      rw [List.flatten_cons] at h
      rcases List.append_eq_append_iff.1 h with ⟨more, rfl, hrest⟩ | ⟨mine, hgroup, hrest⟩
      · exact hlater more e after hrest
      · cases mine with
        | nil =>
            rw [List.append_nil] at hgroup
            have := hlater [] e after hrest.symm
            rwa [List.append_nil, hgroup] at this
        | cons e' mine =>
            injection hrest with he _
            rw [← he] at hgroup
            -- The entry is the one the group is of, or one of its members.
            rcases List.eq_nil_or_concat mine with rfl | ⟨mine, last, rfl⟩
            · obtain ⟨hbefore, hlast⟩ := List.append_inj' hgroup rfl
              injection hlast with hlast _
              rw [← hbefore, ← hlast]
              exact hfound.tags ▸ List.suffix_refl _
            · have hmem : e ∈ found := by
                have hsplit : found ++ [f] = (before ++ e :: mine) ++ [last] := by
                  rw [hgroup]
                  simp
                rw [(List.append_inj' hsplit rfl).1]
                simp
              have htag : entryTag table e ∈ held table set := by
                refine List.mem_flatMap.2 ⟨f, hfree f (List.mem_cons_self ..), ?_⟩
                rw [← hfound.tags]
                exact List.mem_map_of_mem hmem
              rw [hsep.flat e (hfound.mem hmem) htag]
              exact List.nil_suffix

end Orders

/-- An order loses nothing and puts every member in its place exactly if the set is
separate. -/
theorem complete_iff_separate (h : writeOrder table set = .ok order) :
    Complete table set order ↔ Separate table set := by
  obtain ⟨hnodup, groups, rfl, hgroups⟩ := writeOrder_eq_ok h
  have hfree : ∀ e ∈ set.filter (isFree table set), e ∈ set ∧ isFree table set e :=
    fun e he => List.mem_filter.1 he
  constructor
  · intro hcomplete
    exact ⟨once_of_perm hnodup hgroups hcomplete.perm,
      flat_of_complete hnodup hgroups hcomplete⟩
  · intro hsep
    exact ⟨Groups.perm hgroups hnodup hsep,
      Groups.members hgroups (fun e he => (hfree e he).1) hsep,
      Groups.filter_free hgroups hfree⟩

/-! ## What is written -/

/-- The bytes that some encoder of the set wrote for an entry: its key, its length and its
value, behind whatever entries it stood. -/
def WrittenAs (table : Table) (inner : Format → Codec) (e : Entry κ Value) (segment : Bytes) :
    Prop :=
  ∃ earlier position, writeEntry table inner earlier e position = .ok ((), segment)

theorem writeEntries_eq_ok {inner : Format → Codec} {entries : FieldSet κ} {bytes : Bytes}
    {earlier : List Tag} {position : Nat}
    (h : writeEntries table inner earlier entries position = .ok ((), bytes)) :
    ∃ segments : List Bytes, bytes = segments.flatten ∧
      List.Forall₂ (WrittenAs table inner) entries segments := by
  induction entries generalizing earlier position bytes with
  | nil =>
      rw [writeEntries, Encoder.pure_apply] at h
      injection h with h
      injection h with _ h
      exact ⟨[], h.symm, .nil⟩
  | cons e rest ih =>
      rw [writeEntries] at h
      obtain ⟨_, first, second, hfirst, hsecond, rfl⟩ := Encoder.bind_eq_ok.1 h
      obtain ⟨segments, rfl, hsegments⟩ := ih hsecond
      exact ⟨first :: segments, rfl, .cons ⟨earlier, position, hfirst⟩ hsegments⟩

theorem write_eq_ok {inner : Format → Codec} {position : Nat} {bytes : Bytes} :
    write table (some inner) set position = .ok ((), bytes) ↔
      ∃ order, writeOrder table set = .ok order ∧
        writeEntries table inner [] order position = .ok ((), bytes) := by
  rw [write]
  exact (Encoder.bind_of_silent (Encoder.pure_apply inner)).symm ▸ Encoder.ofExcept_bind_eq_ok

/-- Writing a set puts down one segment for every entry of the order, which is complete
exactly if the set is separate. -/
theorem written_once_iff_separate (h : writeOrder table set = .ok order) :
    (Complete table set order ↔ Separate table set) ∧
      ∀ inner position bytes, write table (some inner) set position = .ok ((), bytes) →
        ∃ segments : List Bytes, bytes = segments.flatten ∧
          List.Forall₂ (WrittenAs table inner) order segments := by
  refine ⟨complete_iff_separate h, fun inner position bytes hwrite => ?_⟩
  obtain ⟨order', horder, hentries⟩ := write_eq_ok.1 hwrite
  rw [h] at horder
  injection horder with horder
  rw [horder]
  exact writeEntries_eq_ok hentries

/-- A factor that occurs twice, and a pack with its deviation. -/
def repeatedFactor : FieldSet Tag :=
  [⟨1, .float 1, none⟩, ⟨1, .float 2, none⟩,
    ⟨9, (Correlation.plain [1] [0.5] [] 4 0).toValue, none⟩]

/-- The second factor is not written, and the order is none the wiser. -/
theorem repeatedFactor_not_complete :
    writeOrder Table.transformation repeatedFactor =
        .ok [⟨1, .float 1, none⟩, ⟨9, (Correlation.plain [1] [0.5] [] 4 0).toValue, none⟩] ∧
      ¬ Complete Table.transformation repeatedFactor
        [⟨1, .float 1, none⟩, ⟨9, (Correlation.plain [1] [0.5] [] 4 0).toValue, none⟩] := by
  have horder : writeOrder Table.transformation repeatedFactor =
      .ok [⟨1, .float 1, none⟩, ⟨9, (Correlation.plain [1] [0.5] [] 4 0).toValue, none⟩] := rfl
  refine ⟨horder, fun hcomplete => ?_⟩
  have hsep := (written_once_iff_separate horder).1.1 hcomplete
  have hheld : (1 : Tag) ∈ held Table.transformation repeatedFactor := by decide
  exact absurd (hsep.once 1 hheld) (by decide)

end MotionMetadata.FieldSet
