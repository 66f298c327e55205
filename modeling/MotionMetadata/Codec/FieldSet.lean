import MotionMetadata.Ber
import MotionMetadata.Codec
import MotionMetadata.Table
import MotionMetadata.Value.FieldSet

/-!
# Sets

A set is a row of fields, each a key, a length and a value. The table of the set tells what
format a key has, and what it does not know stays bytes. Fields are written back in their
order and in the widths they came in, with one exception: the entries that a correlation
pack describes go right before it, since the pack finds them by counting back.
-/

namespace MotionMetadata

/-- What reading and writing a set needs of its keys. -/
class SetKey (κ : Type) extends FieldKey κ where
  read : Reader κ
  write : κ → Encoder Unit
  width : κ → Nat
  display : κ → String
  /-- What a table has for the key. -/
  entry : Table → κ → TagEntry
  /-- The number correlation packs name the key by. -/
  tag : Table → κ → Tag
  /-- The key under which an entry of a table is found in a set. -/
  ofEntry? : TagEntry → Option κ

instance : SetKey Tag where
  read := Ber.readTag
  write := Ber.writeTag
  width := Ber.tagWidth
  display tag := Nat.repr tag.toNat
  entry := Table.byTag
  tag _ tag := tag
  ofEntry? e := some e.tag

instance : SetKey UniversalKey where
  read := UniversalKey.read
  write := UniversalKey.write
  width _ := 16
  display := UniversalKey.display
  entry := Table.byKey
  tag table key := (table.byKey key).tag
  ofEntry? e := e.key

namespace FieldSet

variable {κ : Type} [SetKey κ]

/-- The name of an entry as errors show it. -/
def entryPlace (table : Table) (known : TagEntry) : String := table.name ++ " " ++ known.name

/-! ## Reading -/

/-- Reads one entry. `earlier` holds the tags of those before it, the latest first. -/
def readEntry (table : Table) (inner : Format → Codec) (earlier : List Tag) :
    Reader (Entry κ Value) := do
  let key : κ ← Reader.mapError (·.within table.name) SetKey.read
  let start ← Reader.position
  let length ← Reader.mapError (·.within table.name) Ber.readLength
  let left ← Reader.remaining
  unless length.toNat ≤ left do
    raiseAt start (.fieldOverrun table.name (SetKey.display key) length left)
  let known := SetKey.entry table key
  let codec := inner (known.format.after earlier.reverse)
  let value ← Reader.mapError (·.within (entryPlace table known)) (codec.readField length.toNat)
  return ⟨key, value, some length.toNat⟩

/-- Reads entries to the end of the bytes. Each takes two bytes or more, so `fuel` suffices
when it is the number of bytes. -/
def readEntries (table : Table) (inner : Format → Codec) :
    (fuel : Nat) → (earlier : List Tag) → Reader (FieldSet κ)
  | 0, _ => return []
  | fuel + 1, earlier => do
    if (← Reader.atEnd) then
      return []
    let entry ← readEntry table inner earlier
    let rest ← readEntries table inner fuel (SetKey.tag table entry.key :: earlier)
    return entry :: rest

/-- Reads a set of `length` bytes, whose fields lie one level further in. -/
def read (table : Table) (inner : Option (Format → Codec)) (length : Nat) :
    Reader (FieldSet κ) := do
  let inner ← descend inner
  Reader.inField length (readEntries table inner length [])

/-! ## Order -/

/-- The tags of the entries that an entry describes. -/
def describedBy (table : Table) (e : Entry κ Value) : List Tag :=
  ((SetKey.entry table e.key).format.described e.value).getD []

/-- The first of some tags that has been there before. -/
def firstRepeated? (seen : List Tag) : List Tag → Option Tag
  | [] => none
  | tag :: rest => if seen.contains tag then some tag else firstRepeated? (tag :: seen) rest

/-- The first entry with a tag, which an entry describes. -/
def describedEntry (table : Table) (set : FieldSet κ) (tag : Tag) :
    Except Error (Entry κ Value) :=
  match List.find? (fun e => SetKey.tag table e.key == tag) set with
  | some e => .ok e
  | none => raise (.describedMissing table.name tag)

/-- The entries of a set in the order they are written in: each as it stands, but behind
those it describes, which do not stand anywhere else. -/
def writeOrder (table : Table) (set : FieldSet κ) : Except Error (FieldSet κ) := do
  let held := set.flatMap (describedBy table)
  match firstRepeated? [] held with
  | some tag => raise (.describedTwice table.name tag)
  | none =>
    let free := set.filter fun e => !held.contains (SetKey.tag table e.key)
    let groups ← free.mapM fun e => do
      return (← (describedBy table e).mapM (describedEntry table set)) ++ [e]
    return groups.flatten

/-! ## Writing -/

/-- Writes one entry. `earlier` holds the tags of those before it, the latest first. -/
def writeEntry (table : Table) (inner : Format → Codec) (earlier : List Tag)
    (e : Entry κ Value) : Encoder Unit :=
  let known := SetKey.entry table e.key
  let codec := inner (known.format.after earlier.reverse)
  Encoder.mapError (·.within (entryPlace table known)) do
    let length ← Encoder.ofExcept (codec.hintedLength e.value e.width)
    SetKey.write e.key
    Ber.writeLength length
    codec.writeField e.value length

def writeEntries (table : Table) (inner : Format → Codec) :
    (earlier : List Tag) → FieldSet κ → Encoder Unit
  | _, [] => pure ()
  | earlier, e :: rest => do
    writeEntry table inner earlier e
    writeEntries table inner (SetKey.tag table e.key :: earlier) rest

def write (table : Table) (inner : Option (Format → Codec)) (set : FieldSet κ) :
    Encoder Unit := do
  let inner ← descend inner
  writeEntries table inner [] (← Encoder.ofExcept (writeOrder table set))

/-- The bytes that some entries take. -/
def entriesLength (table : Table) (inner : Format → Codec) : FieldSet κ → Except Error Nat
  | [] => .ok 0
  | e :: rest => do
    let length ← (inner (SetKey.entry table e.key).format).hintedLength e.value e.width
    return SetKey.width e.key + Ber.widthOfLength length + length +
      (← entriesLength table inner rest)

/-- The bytes that a set takes. -/
def encodedLength (table : Table) (inner : Option (Format → Codec)) (set : FieldSet κ) :
    Except Error Nat := do
  let inner ← descend inner
  let _ ← writeOrder table set
  entriesLength table inner set

/-! ## Checks and text -/

/-- Whether every tag of the table occurs as often as it may. Nothing else depends on this. -/
def countsHold (table : Table) (set : FieldSet κ) : Bool :=
  table.known.all fun known =>
    match SetKey.ofEntry? (κ := κ) known with
    | some key => known.count.allows (set.count key)
    | none => true

def printEntry (table : Table) (inner : Format → Codec) (e : Entry κ Value) : String :=
  let known := SetKey.entry table e.key
  let name :=
    if known.tag = 0 && known.key.isNone then s!"Unknown ({SetKey.display e.key})"
    else known.name
  name ++ ": " ++ (inner known.format).printField e.value

/-- A set as text. What lies too deep is left out. -/
def print (table : Table) (inner : Option (Format → Codec)) (set : FieldSet κ) : String :=
  match inner with
  | some inner => "\x7b " ++ ", ".intercalate (set.map (printEntry table inner)) ++ " \x7d"
  | none => "\x7b ... \x7d"

end FieldSet

namespace Codec

def localSet (description : String) (table : Table) (inner : Option (Format → Codec)) : Codec where
  description
  constraint := .free
  read length := return .localSet (← FieldSet.read table inner length)
  write value _ := do
    FieldSet.write table inner (← Encoder.ofExcept (value.expect "local_set" value.asLocalSet?))
  naturalLength value := do
    FieldSet.encodedLength table inner (← value.expect "local_set" value.asLocalSet?)
  print value :=
    match value.asLocalSet? with
    | some set => FieldSet.print table inner set
    | none => value.display

def universalSet (description : String) (table : Table) (inner : Option (Format → Codec)) :
    Codec where
  description
  constraint := .free
  read length := return .universalSet (← FieldSet.read table inner length)
  write value _ := do
    FieldSet.write table inner
      (← Encoder.ofExcept (value.expect "universal_set" value.asUniversalSet?))
  naturalLength value := do
    FieldSet.encodedLength table inner (← value.expect "universal_set" value.asUniversalSet?)
  print value :=
    match value.asUniversalSet? with
    | some set => FieldSet.print table inner set
    | none => value.display

end Codec

end MotionMetadata
