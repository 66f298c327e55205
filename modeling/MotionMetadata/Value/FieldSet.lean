import MotionMetadata.Value

/-!
# Working on a set

Sets are looked up, extended and edited by key. What an edit touches forgets the width it
was decoded from, and nothing else changes.
-/

namespace MotionMetadata

/-- What the operations on a set need of its keys: when two of them name the same field. -/
class FieldKey (κ : Type) where
  same : κ → κ → Bool

instance : FieldKey Tag where
  same a b := a == b

instance : FieldKey UniversalKey where
  same := UniversalKey.same

namespace FieldSet

variable {κ : Type}

/-- Adds an entry at the end. Entries with the same key stay. -/
def add (set : FieldSet κ) (key : κ) (value : Value) : FieldSet κ := set ++ [⟨key, value, none⟩]

/-- Adds an entry that was decoded from `width` bytes. -/
def addDecoded (set : FieldSet κ) (key : κ) (value : Value) (width : Nat) : FieldSet κ :=
  set ++ [⟨key, value, some width⟩]

/-- Forgets every width. -/
def clearWidths (set : FieldSet κ) : FieldSet κ := set.map fun e => { e with width := none }

/-- The keys and values alone. -/
def toPairs (set : FieldSet κ) : List (κ × Value) := set.map fun e => (e.key, e.value)

def ofPairs (pairs : List (κ × Value)) : FieldSet κ := pairs.map fun p => ⟨p.1, p.2, none⟩

variable [FieldKey κ]

/-- The first value under `key`. -/
def find? (set : FieldSet κ) (key : κ) : Option Value :=
  (List.find? (fun e => FieldKey.same e.key key) set).map (·.value)

/-- Every value under `key`, in order. -/
def allAt (set : FieldSet κ) (key : κ) : List Value :=
  (set.filter fun e => FieldKey.same e.key key).map (·.value)

def count (set : FieldSet κ) (key : κ) : Nat := (set.allAt key).length

def has (set : FieldSet κ) (key : κ) : Bool := set.any fun e => FieldKey.same e.key key

/-- The set without the entries under `key`. -/
def erase (set : FieldSet κ) (key : κ) : FieldSet κ :=
  set.filter fun e => !FieldKey.same e.key key

/-- Changes the first value under `key` and forgets its width; nothing if there is none. -/
def modify? (set : FieldSet κ) (key : κ) (f : Value → Value) : Option (FieldSet κ) :=
  match set with
  | [] => none
  | e :: rest =>
    if FieldKey.same e.key key then some (⟨e.key, f e.value, none⟩ :: rest)
    else (modify? rest key f).map (e :: ·)

end FieldSet

end MotionMetadata
