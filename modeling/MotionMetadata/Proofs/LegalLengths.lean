import Mathlib.Order.Bounds.Defs
import MotionMetadata.LengthConstraint

/-!
# The lengths that a constraint was given

A constraint is put together from lengths that somebody names: all of them, one, a range, or a
list in whatever order. What it allows later are these lengths and no others. A list is kept in
ascending order, each length once, and that is all that the choice of a length rests on: going
up the list, the first length that is long enough is the least, and the one at the front is
allowed because a constraint without a single length cannot be built.

`Built` has one case for each way to put a constraint together. What holds of all of them is
`Stands`, and naming a preferred length changes nothing about it but the preferred length.
-/

namespace MotionMetadata.LengthConstraint

variable {c c' : LengthConstraint} {length natural n m : Nat} {lengths : List Nat}

/-! ## One length or a range -/

/-- The only length there is, is the one that was allowed. -/
theorem eq_of_fixedLength (hfixed : c.fixedLength = some n) (hallows : c.allows length) :
    length = n := by
  rw [fixedLength] at hfixed
  rw [allows] at hallows
  split at hfixed
  · next h =>
      injection hfixed with hfixed
      rw [h] at hallows
      rw [← hfixed]
      exact eq_of_beq hallows
  · cases hfixed

theorem allows_of_fixedLength (hfixed : c.fixedLength = some n) : c.allows n := by
  rw [fixedLength] at hfixed
  split at hfixed
  · next hshape =>
      injection hfixed with hfixed
      rw [allows, hshape, hfixed]
      exact beq_self_eq_true n
  · cases hfixed

theorem allows_exactly : (exactly length).allows n = true ↔ n = length := beq_iff_eq

theorem allows_between {low high : Nat} :
    (between low high).allows n = true ↔ low ≤ n ∧ n ≤ high := by
  rw [allows, between]
  dsimp only
  rw [Bool.and_eq_true, decide_eq_true_iff, decide_eq_true_iff]

/-! ## A list of lengths -/

/-- If any length that is long enough is allowed, the one that is chosen is. -/
theorem allows_fit (hallows : c.allows length) (hle : natural ≤ length) :
    c.allows (c.fit natural) := by
  obtain ⟨shape, preferred, ascending⟩ := c
  cases shape with
  | free => rfl
  | fixed n => exact beq_self_eq_true n
  | range low high =>
      obtain ⟨hlow, hhigh⟩ := allows_between.1 hallows
      exact allows_between.2 ⟨Nat.le_max_right .., Nat.max_le.2 ⟨by omega, by omega⟩⟩
  | oneOf lengths =>
      have hmem : length ∈ lengths := List.contains_iff_mem.1 hallows
      cases hfound : lengths.find? (natural ≤ ·) with
      | none => exact absurd (decide_eq_true hle) (List.find?_eq_none.1 hfound length hmem)
      | some chosen =>
          show lengths.contains ((lengths.find? (natural ≤ ·)).getD natural) = true
          rw [hfound]
          exact List.contains_iff_mem.2 (List.mem_of_find?_eq_some hfound)

/-- Going up a list, the first length that is long enough is the least. -/
theorem find?_le (hlengths : lengths.Pairwise (· < ·)) (hmem : n ∈ lengths) (hle : natural ≤ n) :
    natural ≤ (lengths.find? (natural ≤ ·)).getD natural ∧
      (lengths.find? (natural ≤ ·)).getD natural ≤ n := by
  induction lengths with
  | nil => cases hmem
  | cons first rest ih =>
      rw [List.find?_cons]
      by_cases hfirst : natural ≤ first
      · rw [decide_eq_true hfirst]
        refine ⟨hfirst, ?_⟩
        rcases List.mem_cons.1 hmem with rfl | hmem
        · exact Nat.le_refl _
        · exact Nat.le_of_lt (List.rel_of_pairwise_cons hlengths hmem)
      · rw [decide_eq_false hfirst]
        rcases List.mem_cons.1 hmem with rfl | hmem
        · exact absurd hle hfirst
        · exact ih hlengths.of_cons hmem

/-- The least length that is long enough is no longer than any other that is. -/
theorem fit_le (hallows : c.allows n) (hle : natural ≤ n) :
    natural ≤ c.fit natural ∧ c.fit natural ≤ n := by
  obtain ⟨shape, preferred, ascending⟩ := c
  cases shape with
  | free => exact ⟨Nat.le_refl _, hle⟩
  | fixed m =>
      obtain rfl : n = m := eq_of_beq hallows
      exact ⟨hle, Nat.le_refl _⟩
  | range low high =>
      have hbounds := allows_between.1 hallows
      show natural ≤ max natural low ∧ max natural low ≤ n
      omega
  | oneOf lengths => exact find?_le ascending (List.contains_iff_mem.1 hallows) hle

/-! ## Putting constraints together -/

/-- A check that is passed is not seen in what comes out. -/
theorem refused_eq_ok {α : Type} {p : Prop} [Decidable p] {fault : Fault} {x : Except Error α}
    {a : α} : (if p then raise fault else x) = .ok a ↔ ¬ p ∧ x = .ok a := by
  by_cases hp : p
  · rw [if_pos hp]
    exact iff_of_false (fun h => by cases h) fun h => h.1 hp
  · rw [if_neg hp]
    exact (and_iff_right hp).symm

theorem ok_eq_ok : (.ok c : Except Error LengthConstraint) = .ok c' ↔ c' = c := by
  rw [Except.ok.injEq, eq_comm]

theorem fixed_eq_ok : fixed length = .ok c ↔ length ≠ 0 ∧ c = exactly length := by
  rw [fixed, refused_eq_ok, ok_eq_ok]

theorem range_eq_ok {low high : Nat} :
    range low high = .ok c ↔ low ≠ 0 ∧ low < high ∧ c = between low high := by
  rw [range, refused_eq_ok, refused_eq_ok, ok_eq_ok, Nat.not_le]

theorem oneOf_eq_ok : oneOf lengths = .ok c ↔ lengths ≠ [] ∧ 0 ∉ lengths ∧
    c = { shape := .oneOf (inOrder lengths), ascending := inOrder_pairwise lengths } := by
  rw [oneOf, refused_eq_ok, refused_eq_ok, ok_eq_ok, List.isEmpty_iff, List.contains_iff_mem]

theorem preferring_eq_ok :
    c.preferring n = .ok c' ↔ c.allows n ∧ c' = { c with preferred := some n } := by
  rw [preferring]
  by_cases hallows : c.allows n
  · rw [if_pos hallows, ok_eq_ok]
    exact (and_iff_right hallows).symm
  · rw [if_neg hallows]
    exact iff_of_false (fun h => by cases h) fun h => hallows h.1

/-- How a constraint was put together, and which lengths were named for it. -/
inductive Built : LengthConstraint → (Nat → Prop) → Prop where
  | free : Built free fun _ => True
  | fixed {c : LengthConstraint} {length : Nat} (h : fixed length = .ok c) :
      Built c fun n => n = length
  | range {c : LengthConstraint} {low high : Nat} (h : range low high = .ok c) :
      Built c fun n => low ≤ n ∧ n ≤ high
  | oneOf {c : LengthConstraint} {lengths : List Nat} (h : oneOf lengths = .ok c) :
      Built c fun n => n ∈ lengths
  | preferring {c c' : LengthConstraint} {named : Nat → Prop} {length : Nat} (h : Built c named)
      (hpreferring : c.preferring length = .ok c') : Built c' named

/-- What is allowed is what was named, zero only where everything is, and a length that is
suggested is one of them. Without a suggestion everything is allowed. -/
structure Stands (c : LengthConstraint) (named : Nat → Prop) : Prop where
  allows_iff (n : Nat) : c.allows n = true ↔ named n
  zero : c.allows 0 = c.isFree
  suggested (n : Nat) (h : c.suggested = some n) : c.allows n = true
  unsuggested (h : c.suggested = none) : c.isFree = true

namespace Stands

variable {named : Nat → Prop}

theorem free : Stands free fun _ => True where
  allows_iff _ := iff_of_true rfl trivial
  zero := rfl
  suggested _ h := by cases h
  unsuggested _ := rfl

theorem exactly (hne : length ≠ 0) : Stands (exactly length) fun n => n = length where
  allows_iff _ := allows_exactly
  zero := Bool.eq_false_iff.2 fun h => hne (allows_exactly.1 h).symm
  suggested _ h := allows_exactly.2 (Option.some.inj h).symm
  unsuggested h := by cases h

theorem between {low high : Nat} (hne : low ≠ 0) (hlt : low < high) :
    Stands (between low high) fun n => low ≤ n ∧ n ≤ high where
  allows_iff _ := allows_between
  zero := Bool.eq_false_iff.2 fun h => hne (Nat.le_zero.1 (allows_between.1 h).1)
  suggested n h := by
    obtain rfl : low = n := Option.some.inj h
    exact allows_between.2 ⟨Nat.le_refl low, Nat.le_of_lt hlt⟩
  unsuggested h := by cases h

theorem oneOf (hne : lengths ≠ []) (hzero : 0 ∉ lengths) :
    Stands { shape := .oneOf (inOrder lengths), ascending := inOrder_pairwise lengths }
      fun n => n ∈ lengths where
  allows_iff _ := List.contains_iff_mem.trans mem_inOrder
  zero := Bool.eq_false_iff.2 fun h => hzero (mem_inOrder.1 (List.contains_iff_mem.1 h))
  suggested _ h := List.contains_iff_mem.2 (List.mem_of_head? h)
  unsuggested h := by
    obtain ⟨first, hfirst⟩ := List.exists_mem_of_ne_nil lengths hne
    have hempty : inOrder lengths = [] := List.head?_eq_none_iff.1 h
    have hmem := mem_inOrder.2 hfirst
    rw [hempty] at hmem
    cases hmem

theorem preferring (h : Stands c named) (hallows : c.allows n) :
    Stands { c with preferred := some n } named where
  allows_iff := h.allows_iff
  zero := h.zero
  suggested m hm := by
    obtain rfl : n = m := Option.some.inj hm
    exact hallows
  unsuggested hnone := by cases hnone

theorem allows_suggestedOr (h : Stands c named) (backup : Nat) :
    c.allows (c.suggestedOr backup) = true := by
  rw [suggestedOr]
  cases hsuggested : c.suggested with
  | some n => exact h.suggested n hsuggested
  | none =>
      have hfree : c.shape = .free := eq_of_beq (h.unsuggested hsuggested)
      rw [allows, hfree]

theorem fit_isLeast (h : Stands c named) (hlong : ∃ n, named n ∧ natural ≤ n) :
    IsLeast {n | named n ∧ natural ≤ n} (c.fit natural) := by
  obtain ⟨n, hn, hle⟩ := hlong
  have hallows := (h.allows_iff n).2 hn
  refine ⟨⟨(h.allows_iff _).1 (allows_fit hallows hle), (fit_le hallows hle).1⟩, ?_⟩
  rintro m ⟨hm, hle⟩
  exact (fit_le ((h.allows_iff m).2 hm) hle).2

end Stands

theorem Built.stands {named : Nat → Prop} (h : Built c named) : Stands c named := by
  induction h with
  | free => exact .free
  | fixed h =>
      obtain ⟨hne, rfl⟩ := fixed_eq_ok.1 h
      exact .exactly hne
  | range h =>
      obtain ⟨hne, hlt, rfl⟩ := range_eq_ok.1 h
      exact .between hne hlt
  | oneOf h =>
      obtain ⟨hne, hzero, rfl⟩ := oneOf_eq_ok.1 h
      exact .oneOf hne hzero
  | preferring _ hpreferring ih =>
      obtain ⟨hallows, rfl⟩ := preferring_eq_ok.1 hpreferring
      exact ih.preferring hallows

/-- However a constraint was put together, it allows the lengths that were named for it, and
zero only if every length is allowed. A length can be preferred exactly if it is allowed, and is
then the one that is suggested. What is suggested is allowed, whatever the backup. Where any
length is long enough, the least of those is chosen. -/
theorem legal_lengths_chosen {named : Nat → Prop} (h : Built c named) :
    (∀ n, c.allows n = true ↔ named n) ∧
    c.allows 0 = c.isFree ∧
    (∀ n, (∃ c', c.preferring n = .ok c') ↔ c.allows n = true) ∧
    (∀ n c', c.preferring n = .ok c' →
      ∀ backup, c'.suggestedOr backup = n ∧ c'.allows (c'.suggestedOr backup) = true) ∧
    (∀ backup, c.allows (c.suggestedOr backup) = true) ∧
    ∀ natural, (∃ n, c.allows n = true ∧ natural ≤ n) →
      IsLeast {n | c.allows n = true ∧ natural ≤ n} (c.fit natural) := by
  have hc := h.stands
  refine ⟨hc.allows_iff, hc.zero, fun n => ?_, fun n c' hc' backup => ?_, hc.allows_suggestedOr,
    fun natural hlong => ?_⟩
  · simp only [preferring_eq_ok, exists_and_left, exists_eq, and_true]
  · refine ⟨?_, (h.preferring hc').stands.allows_suggestedOr backup⟩
    obtain ⟨-, rfl⟩ := preferring_eq_ok.1 hc'
    rfl
  · simp only [hc.allows_iff] at hlong ⊢
    exact hc.fit_isLeast hlong

/-- Three widths named out of order, one of them twice, with the widest preferred. -/
theorem wide_enough_of_repeated :
    let c : LengthConstraint := { shape := .oneOf [2, 4, 8], preferred := some 8 }
    Built c (fun n => n ∈ [8, 4, 2, 4]) ∧ c.allows 4 = true ∧ c.allows 0 = false ∧
      c.allows (c.suggestedOr 3) = true ∧ c.fit 3 = 4 ∧
      IsLeast {n | c.allows n = true ∧ 3 ≤ n} 4 := by
  intro c
  have hbuilt : Built c (fun n => n ∈ [8, 4, 2, 4]) :=
    .preferring (.oneOf rfl) (preferring_eq_ok.2 ⟨rfl, rfl⟩)
  obtain ⟨hallows, hzero, -, -, hsuggested, hfit⟩ := legal_lengths_chosen hbuilt
  have hfour : c.allows 4 = true := (hallows 4).2 (by decide)
  exact ⟨hbuilt, hfour, hzero, hsuggested 3, rfl, hfit 3 ⟨4, hfour, by decide⟩⟩

end MotionMetadata.LengthConstraint
