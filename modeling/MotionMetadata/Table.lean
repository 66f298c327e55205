import MotionMetadata.Format
import MotionMetadata.Value.FieldSet

/-!
# Tables of tags

A table gives each tag of a set its format and its names. What a table does not know is
looked up as its unknown entry, so a decoder carries along what it does not understand. No
two known entries of a table share a tag, a universal key or a name.
-/

namespace MotionMetadata

/-- How often a tag may occur in one set. -/
inductive TagCount where
  | exactly (n : Nat)
  /-- From `low` to `high`, or any number from `low` on. -/
  | between (low : Nat) (high : Option Nat)
deriving DecidableEq, Inhabited

namespace TagCount

def optional : TagCount := .between 0 (some 1)

def any : TagCount := .between 0 none

def allows : TagCount → Nat → Bool
  | exactly n, count => count == n
  | between low none, count => low ≤ count
  | between low (some high), count => low ≤ count && count ≤ high

def display : TagCount → String
  | exactly n => s!"exactly {n}"
  | between low (some high) => s!"{low} to {high}"
  | between low none => s!"at least {low}"

end TagCount

structure TagEntry where
  /-- Zero for an entry that only has a universal key. -/
  tag : Tag
  key : Option UniversalKey := none
  /-- The name in programs. -/
  symbol : String
  /-- The name in text. -/
  name : String
  description : String := ""
  format : Format
  count : TagCount := .optional
deriving Inhabited

/-- The entry for what a table does not know. -/
def TagEntry.unknown (symbol : String) : TagEntry :=
  { tag := 0, symbol, name := "Unknown Tag", description := "Unknown tag."
    format := .bytes, count := .any }

/-- Something that an entry can be asked for by. -/
structure Aspect (κ : Type) where
  /-- What an entry answers to, if anything. -/
  of : TagEntry → Option κ
  /-- The fault of a table in which two entries answer to the same. -/
  taken : String → κ → Fault

namespace Aspect

/-- Tag zero is none. -/
def tag : Aspect Tag where
  of entry := if entry.tag = 0 then none else some entry.tag
  taken table tag := .duplicateEntry table "tag" (Nat.repr tag.toNat)

/-- The version of a universal key makes no difference. -/
def key : Aspect UniversalKey where
  of := TagEntry.key
  taken table key := .duplicateEntry table "universal key" key.display

def name : Aspect String where
  of entry := some entry.name
  taken table name := .duplicateEntry table "name" name

def symbol : Aspect String where
  of entry := some entry.symbol
  taken table symbol := .duplicateEntry table "enum name" symbol

variable {κ : Type} [BEq κ]

def answers (aspect : Aspect κ) (entry : TagEntry) (key : κ) : Bool :=
  (aspect.of entry).any (· == key)

/-- The fault of `entry` if it answers to the same as an entry before it. -/
def shared? (aspect : Aspect κ) (table : String) (before : List TagEntry) (entry : TagEntry) :
    Option Fault :=
  match aspect.of entry with
  | none => none
  | some key => if before.any (aspect.answers · key) then some (aspect.taken table key) else none

end Aspect

structure Table where
  name : String
  unknown : TagEntry
  known : List TagEntry
deriving Inhabited

namespace Table

/-- What `entry` shares with an entry before it, if anything: the first of tag, universal
key, name and symbol. -/
def clash? (table : String) (before : List TagEntry) (entry : TagEntry) : Option Fault :=
  (Aspect.tag.shared? table before entry).or <| (Aspect.key.shared? table before entry).or <|
    (Aspect.name.shared? table before entry).or <| Aspect.symbol.shared? table before entry

/-- The first clash among entries, in order. -/
def firstClash? (table : String) (before : List TagEntry) : List TagEntry → Option Fault
  | [] => none
  | entry :: rest => (clash? table before entry).or (firstClash? table (entry :: before) rest)

/-- The table of some entries, the first of which is for what it does not know. -/
def ofEntries (name : String) : List TagEntry → Except Error Table
  | [] => raise (.emptyTable name)
  | unknown :: known =>
    match firstClash? name [] known with
    | some fault => raise fault
    | none => .ok { name, unknown, known }

/-- The first entry that answers to `key`. -/
def lookup {κ : Type} [BEq κ] (table : Table) (aspect : Aspect κ) (key : κ) : TagEntry :=
  (table.known.find? (aspect.answers · key)).getD table.unknown

def byTag (table : Table) (tag : Tag) : TagEntry := table.lookup .tag tag

/-- The entry of a universal key, whatever its version. -/
def byKey (table : Table) (key : UniversalKey) : TagEntry := table.lookup .key key

def byName (table : Table) (name : String) : TagEntry := table.lookup .name name

def bySymbol (table : Table) (symbol : String) : TagEntry := table.lookup .symbol symbol

end Table

/-- The tables a decoder works with: one for each set, and one for the packets. -/
structure Registry where
  table : Standard → Table
  packets : Table

end MotionMetadata
