import MotionMetadata.Error

/-!
# The lengths a field may have

A field takes any length, one length, a range or a choice of lengths. An encoder that has to
pick one asks for the shortest that is long enough, or for a preferred one.
-/

namespace MotionMetadata

/-- A choice of lengths. -/
inductive LengthShape where
  | free
  | fixed (length : Nat)
  | range (low high : Nat)
  | oneOf (lengths : List Nat)
deriving DecidableEq, Inhabited

/-- The lengths that `oneOf` lists are in ascending order, each of them once. -/
def LengthShape.Ascending : LengthShape → Prop
  | oneOf lengths => lengths.Pairwise (· < ·)
  | _ => True

instance : DecidablePred LengthShape.Ascending
  | .free | .fixed _ | .range .. => instDecidableTrue
  | .oneOf lengths => inferInstanceAs (Decidable (lengths.Pairwise (· < ·)))

/-- The lengths a field may have, and the preferred one if somebody named it. -/
structure LengthConstraint where
  shape : LengthShape
  preferred : Option Nat := none
  ascending : shape.Ascending := by decide
deriving DecidableEq

instance : Inhabited LengthConstraint := ⟨{ shape := .free }⟩

namespace LengthConstraint

/-- Any length. -/
def free : LengthConstraint := { shape := .free }

/-- The one length `length`, which the caller knows is not zero. -/
def exactly (length : Nat) : LengthConstraint :=
  { shape := .fixed length, ascending := trivial }

/-- The lengths from `low` to `high`, which the caller knows are in order and not zero. -/
def between (low high : Nat) : LengthConstraint :=
  { shape := .range low high, ascending := trivial }

def fixed (length : Nat) : Except Error LengthConstraint :=
  if length = 0 then raise .zeroLength else .ok (exactly length)

/-- The lengths from `low` to `high`, both included. -/
def range (low high : Nat) : Except Error LengthConstraint :=
  if low = 0 then raise .zeroLength
  else if high ≤ low then raise .noLength
  else .ok (between low high)

/-- Puts `n` in its place in an ascending list that may hold it already. -/
def insertAscending (n : Nat) : List Nat → List Nat
  | [] => [n]
  | m :: rest =>
    if n < m then n :: m :: rest
    else if n = m then m :: rest
    else m :: insertAscending n rest

theorem mem_insertAscending {lengths : List Nat} {n m : Nat} :
    m ∈ insertAscending n lengths ↔ m = n ∨ m ∈ lengths := by
  induction lengths with
  | nil => rw [insertAscending, List.mem_singleton, or_iff_left List.not_mem_nil]
  | cons first rest ih =>
      rw [insertAscending]
      split
      · exact List.mem_cons
      · split
        · next heq => rw [heq, List.mem_cons, or_self_left]
        · rw [List.mem_cons, ih, List.mem_cons, or_left_comm]

theorem insertAscending_pairwise {lengths : List Nat} (n : Nat)
    (h : lengths.Pairwise (· < ·)) : (insertAscending n lengths).Pairwise (· < ·) := by
  induction lengths with
  | nil => exact List.pairwise_singleton ..
  | cons first rest ih =>
      obtain ⟨hfirst, hrest⟩ := List.pairwise_cons.1 h
      rw [insertAscending]
      split
      · next hlt =>
          refine List.pairwise_cons.2 ⟨fun m hm => ?_, h⟩
          rcases List.mem_cons.1 hm with rfl | hm
          · exact hlt
          · exact Nat.lt_trans hlt (hfirst m hm)
      · next hle =>
          split
          · exact h
          · next hne =>
              refine List.pairwise_cons.2 ⟨fun m hm => ?_, ih hrest⟩
              rcases mem_insertAscending.1 hm with rfl | hm
              · omega
              · exact hfirst m hm

/-- The lengths of a list in ascending order, each of them once. -/
def inOrder (lengths : List Nat) : List Nat := lengths.foldr insertAscending []

theorem mem_inOrder {lengths : List Nat} {m : Nat} : m ∈ inOrder lengths ↔ m ∈ lengths := by
  induction lengths with
  | nil => rfl
  | cons n rest ih =>
      rw [inOrder, List.foldr_cons, mem_insertAscending, List.mem_cons]
      exact or_congr_right ih

theorem inOrder_pairwise (lengths : List Nat) : (inOrder lengths).Pairwise (· < ·) := by
  induction lengths with
  | nil => exact List.Pairwise.nil
  | cons n rest ih => exact insertAscending_pairwise n ih

def oneOf (lengths : List Nat) : Except Error LengthConstraint :=
  if lengths.isEmpty then raise .noLength
  else if lengths.contains 0 then raise .zeroLength
  else .ok { shape := .oneOf (inOrder lengths), ascending := inOrder_pairwise lengths }

/-- Whether a field may have the length. A list is gone through from the front. Since it is in
ascending order, a search by halves finds a length in it exactly if this does. -/
def allows (c : LengthConstraint) (length : Nat) : Bool :=
  match c.shape with
  | .free => true
  | .fixed n => length == n
  | .range low high => low ≤ length && length ≤ high
  | .oneOf lengths => lengths.contains length

def description (c : LengthConstraint) : String :=
  match c.shape with
  | .free => "length unconstrained"
  | .fixed n => s!"length must be {n}"
  | .range low high => s!"length in [{low},{high}]"
  | .oneOf lengths => "length in \x7b" ++ ",".intercalate (lengths.map Nat.repr) ++ "\x7d"

/-- The same lengths with `length` preferred, which has to be one of them. -/
def preferring (c : LengthConstraint) (length : Nat) : Except Error LengthConstraint :=
  if c.allows length then .ok { c with preferred := some length }
  else raise (.suggestedLength length c.description)

def isFree (c : LengthConstraint) : Bool := c.shape == .free

/-- The length, if the field has just one. -/
def fixedLength (c : LengthConstraint) : Option Nat :=
  match c.shape with
  | .fixed n => some n
  | _ => none

def fixedOr (c : LengthConstraint) (backup : Nat) : Nat := c.fixedLength.getD backup

/-- The preferred length, or else the least one that is named. -/
def suggested (c : LengthConstraint) : Option Nat :=
  c.preferred.or
    (match c.shape with
    | .free => none
    | .fixed n => some n
    | .range low _ => some low
    | .oneOf lengths => lengths.head?)

def suggestedOr (c : LengthConstraint) (backup : Nat) : Nat := c.suggested.getD backup

/-- The least length that is not below `natural`. Where there is none, `natural` itself, or
the only length. -/
def fit (c : LengthConstraint) (natural : Nat) : Nat :=
  match c.shape with
  | .free => natural
  | .fixed n => n
  | .range low _ => max natural low
  | .oneOf lengths => (lengths.find? (natural ≤ ·)).getD natural

end LengthConstraint

end MotionMetadata
