import MotionMetadata.Table
import Std.Data.HashMap

/-!
# Tables with indexes

A table that is asked often is not gone through for every question. Its index has the places of
the entries in four maps, one for each thing that an entry can be asked for by. The maps are
filled in one pass over the entries behind the first, and the pass ends at the first entry that
would take the place of another.
-/

namespace MotionMetadata.Table

/-- The places of entries among `n`, by what the entries are asked for by. -/
structure Places (n : Nat) where
  tags : Std.HashMap Tag (Fin n) := ∅
  keys : Std.HashMap UniversalKey (Fin n) := ∅
  names : Std.HashMap String (Fin n) := ∅
  symbols : Std.HashMap String (Fin n) := ∅

namespace Places

/-- Puts a place under what an entry answers to. It is an error if one was there already. -/
def record {κ : Type} [BEq κ] [Hashable κ] {n : Nat} (aspect : Aspect κ) (table : String)
    (map : Std.HashMap κ (Fin n)) (place : Fin n) (entry : TagEntry) :
    Except Error (Std.HashMap κ (Fin n)) :=
  match aspect.of entry with
  | none => .ok map
  | some key =>
    let (present, map) := map.containsThenInsert key place
    if present then raise (aspect.taken table key) else .ok map

/-- Records the place of an entry under its tag, its universal key and its names. -/
def enter {n : Nat} (table : String) (places : Places n) (place : Fin n) (entry : TagEntry) :
    Except Error (Places n) := do
  let tags ← record .tag table places.tags place entry
  let keys ← record .key table places.keys place entry
  let names ← record .name table places.names place entry
  let symbols ← record .symbol table places.symbols place entry
  return { tags, keys, names, symbols }

end Places

/-- The entries of a table and their places. -/
structure Index where
  name : String
  /-- The first is for what the table does not know. -/
  entries : List TagEntry
  nonempty : 0 < entries.length
  places : Places entries.length

namespace Index

/-- The index of some entries, the first of which is for what the table does not know. Its own
tag and names are not recorded. -/
def build (name : String) (entries : List TagEntry) : Except Error Index :=
  if nonempty : 0 < entries.length then do
    let places ← ((List.finRange entries.length).drop 1).foldlM
      (fun places place => places.enter name place (entries.get place)) {}
    return { name, entries, nonempty, places }
  else raise (.emptyTable name)

def unknown (index : Index) : TagEntry := index.entries.get ⟨0, index.nonempty⟩

/-- The entry at a place that was looked up. -/
def entryAt (index : Index) : Option (Fin index.entries.length) → TagEntry
  | some place => index.entries.get place
  | none => index.unknown

def byTag (index : Index) (tag : Tag) : TagEntry := index.entryAt index.places.tags[tag]?

/-- The entry of a universal key, whatever its version. -/
def byKey (index : Index) (key : UniversalKey) : TagEntry :=
  index.entryAt index.places.keys[key]?

def byName (index : Index) (name : String) : TagEntry := index.entryAt index.places.names[name]?

def bySymbol (index : Index) (symbol : String) : TagEntry :=
  index.entryAt index.places.symbols[symbol]?

/-- The table of the same entries. -/
def table (index : Index) : Table where
  name := index.name
  unknown := index.unknown
  known := index.entries.tail

end Index

end MotionMetadata.Table
