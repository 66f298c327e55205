import MotionMetadata.Json.Numeral

/-!
# JSON

A JSON text as a tree. Fields keep their order and may repeat. Numbers stay numerals, since
only who asks for one knows what it should be.
-/

namespace MotionMetadata

inductive Json where
  | null
  | bool (value : Bool)
  | number (numeral : Numeral)
  | string (text : String)
  | array (items : List Json)
  | object (fields : List (String × Json))
  /-- A string whose escapes spell no text, or an object with such a key. It can be passed
  over and is good for nothing else. -/
  | broken
deriving Inhabited

namespace Json

def ofNat (n : Nat) : Json := number (.ofNat n)

def ofInt (n : Int) : Json := number (.ofInt n)

/-! ## Views -/

def asBool? : Json → Option Bool
  | bool b => some b
  | _ => none

def asString? : Json → Option String
  | string s => some s
  | _ => none

def asArray? : Json → Option (List Json)
  | array items => some items
  | _ => none

def asInteger? : Json → Option Int
  | number n => n.integer?
  | _ => none

def asUInt64? (json : Json) : Option UInt64 := do
  let n ← json.asInteger?
  if 0 ≤ n ∧ n < 2 ^ 64 then some (UInt64.ofNat n.toNat) else none

def asInt64? (json : Json) : Option Int64 := do
  let n ← json.asInteger?
  if -2 ^ 63 ≤ n ∧ n < 2 ^ 63 then some (Int64.ofInt n) else none

/-! ## Records

A record with known fields is an object, in which other fields are passed over, or an array
of the fields in order. -/

/-- The one field with a name. -/
def unique? (fields : List (String × Json)) (name : String) : Option Json :=
  match fields.filter (·.1 == name) with
  | [(_, value)] => some value
  | _ => none

/-- The fields of a record, in the order of their names. -/
def record? (names : List String) : Json → Option (List Json)
  | object fields => names.mapM (unique? fields)
  | array items => if items.length = names.length then some items else none
  | _ => none

/-! ## Depth -/

mutual

/-- How deep arrays and objects nest. -/
def height : Json → Nat
  | array items => heightOfItems items + 1
  | object fields => heightOfFields fields + 1
  | _ => 0

def heightOfItems : List Json → Nat
  | [] => 0
  | item :: rest => max item.height (heightOfItems rest)

def heightOfFields : List (String × Json) → Nat
  | [] => 0
  | (_, value) :: rest => max value.height (heightOfFields rest)

end

mutual

/-- Whether all of a tree can be taken in: it nests no deeper than `levels`, its numbers are
not too large, and nothing in it is broken. -/
def holds : (levels : Nat) → Json → Bool
  | _, null => true
  | _, bool _ => true
  | _, number n => n.binary64?.isSome
  | _, string _ => true
  | levels, array items => 0 < levels && holdsItems (levels - 1) items
  | levels, object fields => 0 < levels && holdsFields (levels - 1) fields
  | _, broken => false
termination_by structural _ json => json

def holdsItems : (levels : Nat) → List Json → Bool
  | _, [] => true
  | levels, item :: rest => holds levels item && holdsItems levels rest
termination_by structural _ items => items

def holdsFields : (levels : Nat) → List (String × Json) → Bool
  | _, [] => true
  | levels, (_, value) :: rest => holds levels value && holdsFields levels rest
termination_by structural _ fields => fields

end

end Json

end MotionMetadata
