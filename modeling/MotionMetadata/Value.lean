import MotionMetadata.Imap
import MotionMetadata.Key

/-!
# Decoded values

What a field can hold. A set keeps its entries in order and may hold a tag more than once. An
entry that was decoded remembers how wide its value was, so that an untouched one is written
back byte for byte. What is remembered is no part of the value: sets that differ in nothing
else are equal.
-/

namespace MotionMetadata

/-- One entry of a set: its key, its value, and the width the value was decoded from. -/
structure Entry (κ : Type) (α : Type) where
  key : κ
  value : α
  width : Option Nat

inductive Value where
  /-- A field of no bytes. -/
  | empty
  /-- Bytes that are not, or could not be, interpreted. -/
  | blob (bytes : Bytes)
  | uint (value : UInt64)
  | sint (value : Int64)
  | float (value : Binary64)
  /-- A scaled value that no double stands for. -/
  | imap (value : Imap)
  | string (text : String)
  | bool (value : Bool)
  | localSet (entries : List (Entry Tag Value))
  | universalSet (entries : List (Entry UniversalKey Value))
  /-- Elements of one format. -/
  | series (items : List Value)
  /-- The named parts of a pack. -/
  | record (fields : List (String × Value))

/-- The fields of a set, in order. -/
abbrev FieldSet (κ : Type) := List (Entry κ Value)

namespace Value

instance : Inhabited Value := ⟨.empty⟩

def typeName : Value → String
  | empty => "empty"
  | blob _ => "blob"
  | uint _ => "uint"
  | sint _ => "sint"
  | float _ => "float"
  | imap _ => "imap"
  | string _ => "string"
  | bool _ => "bool"
  | localSet _ => "local_set"
  | universalSet _ => "universal_set"
  | series _ => "series"
  | record _ => "record"

/-- Whether the value was interpreted. -/
def isDecoded : Value → Bool
  | empty => false
  | blob _ => false
  | _ => true

def isEmpty : Value → Bool
  | empty => true
  | _ => false

/-! ## Views

Each answers the content of one kind of value. -/

def asUint? : Value → Option UInt64
  | uint v => some v
  | _ => none

def asSint? : Value → Option Int64
  | sint v => some v
  | _ => none

def asFloat? : Value → Option Binary64
  | float v => some v
  | _ => none

/-- A double counts as the scaled value that it is. -/
def asImap? : Value → Option Imap
  | float v => some (Imap.ofBinary64 v)
  | imap v => some v
  | _ => none

def asString? : Value → Option String
  | string s => some s
  | _ => none

def asBool? : Value → Option Bool
  | bool b => some b
  | _ => none

def asSeries? : Value → Option (List Value)
  | series items => some items
  | _ => none

def asLocalSet? : Value → Option (FieldSet Tag)
  | localSet entries => some entries
  | _ => none

def asUniversalSet? : Value → Option (FieldSet UniversalKey)
  | universalSet entries => some entries
  | _ => none

/-- The first field of a record with the given name. -/
def field? : Value → String → Option Value
  | record fields, name => (fields.find? (·.1 == name)).map (·.2)
  | _, _ => none

/-- The value of a scaled field: a plain number where there is one. -/
def ofImap : Imap → Value
  | .normal v => float v
  | special => imap special

/-! ## Equality -/

mutual

/-- Equality of values, widths left aside. Numbers compare as numbers, and keys without
their version. -/
def equals : Value → Value → Bool
  | empty, empty => true
  | blob a, blob b => a == b
  | uint a, uint b => a == b
  | sint a, sint b => a == b
  | float a, float b => a.equals b
  | imap a, imap b => a.equals b
  | string a, string b => a == b
  | bool a, bool b => a == b
  | localSet a, localSet b => equalLocal a b
  | universalSet a, universalSet b => equalUniversal a b
  | series a, series b => equalItems a b
  | record a, record b => equalFields a b
  | _, _ => false
termination_by structural v => v

def equalLocal : List (Entry Tag Value) → List (Entry Tag Value) → Bool
  | [], [] => true
  | ⟨k, v, _⟩ :: rest, ⟨k', v', _⟩ :: rest' => k == k' && equals v v' && equalLocal rest rest'
  | _, _ => false
termination_by structural v => v

def equalUniversal :
    List (Entry UniversalKey Value) → List (Entry UniversalKey Value) → Bool
  | [], [] => true
  | ⟨k, v, _⟩ :: rest, ⟨k', v', _⟩ :: rest' =>
    k.same k' && equals v v' && equalUniversal rest rest'
  | _, _ => false
termination_by structural v => v

def equalItems : List Value → List Value → Bool
  | [], [] => true
  | v :: rest, v' :: rest' => equals v v' && equalItems rest rest'
  | _, _ => false
termination_by structural v => v

def equalFields : List (String × Value) → List (String × Value) → Bool
  | [], [] => true
  | (n, v) :: rest, (n', v') :: rest' => n == n' && equals v v' && equalFields rest rest'
  | _, _ => false
termination_by structural v => v

end

/-! ## Text -/

mutual

/-- A value as text, for people. Sets and series only tell their size. -/
def display : Value → String
  | empty => "(empty)"
  | blob bytes => "<" ++ " ".intercalate (bytes.map fun b => Text.upperHex [b]) ++ ">"
  | uint v => Nat.repr v.toNat
  | sint v => s!"{v.toInt}"
  | float v => v.display
  | imap v => v.display
  | string s => "\"" ++ s ++ "\""
  | bool b => if b then "true" else "false"
  | localSet entries => "\x7b" ++ s!"{entries.length} entries" ++ "\x7d"
  | universalSet entries => "\x7b" ++ s!"{entries.length} entries" ++ "\x7d"
  | series items => s!"[{items.length} items]"
  | record fields => "\x7b " ++ ", ".intercalate (displayFields fields) ++ " \x7d"

def displayFields : List (String × Value) → List String
  | [] => []
  | (name, v) :: rest => (name ++ ": " ++ display v) :: displayFields rest

end

end Value

end MotionMetadata
