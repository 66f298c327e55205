import MotionMetadata.Json.Parser
import MotionMetadata.Json.Printer
import MotionMetadata.Packet
import MotionMetadata.Text.Base64

/-!
# Values and packets as JSON

Every value names its kind, so that it can be read back without the tables. Sets and records
are arrays of entries, which keeps the order and the repetitions. Bytes are in base 64 and
keys in digits, and a double that JSON has no numeral for is a word. The widths that a set
remembers are left out.

Reading goes by the form first. Where the form of anything in a text is wrong, the text is
no JSON of a value at all. Only then do keys, bytes and depth get their say.
-/

namespace MotionMetadata

/-! ## Writing -/

namespace Json

/-- A double. -/
def ofBinary64 (x : Binary64) : Json :=
  if x.isFinite then number (.ofBinary64 x)
  else if x.isInfinite then string (if x.isNegative then "-inf" else "inf")
  else string "nan"

/-- A special scaled value. -/
def ofImap : Imap → Json
  | .normal v => object [("kind", string "normal"), ("value", ofBinary64 v)]
  | .nan signaling negative payload =>
    object [("kind", string "nan"), ("signaling", bool signaling), ("negative", bool negative),
      ("payload", ofNat payload.toNat)]
  | .belowMinimum => object [("kind", string "below_minimum")]
  | .aboveMaximum => object [("kind", string "above_maximum")]
  | .userDefined payload =>
    object [("kind", string "user_defined"), ("payload", ofNat payload.toNat)]

/-- A value of some kind with its content. -/
def tagged (kind : String) (content : Json) : Json :=
  object [("type", string kind), ("value", content)]

end Json

namespace Value

/-- How many levels of values the JSON form has room for: the outermost and those that may
nest in it. -/
def jsonLevels : Nat := maxDepth + 1

/-- The JSON form of a value, with room for so many levels. -/
def toJsonWithin : (levels : Nat) → Value → Except Error Json
  | 0, _ => raise .tooDeep
  | levels + 1, value =>
    match value with
    | empty => .ok (.object [("type", .string "empty")])
    | blob bytes => .ok (.tagged "blob" (.string (Text.Base64.encode bytes)))
    | uint v => .ok (.tagged "uint" (.ofNat v.toNat))
    | sint v => .ok (.tagged "sint" (.ofInt v.toInt))
    | float v => .ok (.tagged "float" (.ofBinary64 v))
    | imap v => .ok (.tagged "imap" (.ofImap v))
    | string s => .ok (.tagged "string" (.string s))
    | bool b => .ok (.tagged "bool" (.bool b))
    | localSet entries => do
      let entries ← entries.mapM fun e => do
        return .object [("tag", .ofNat e.key.toNat), ("value", ← toJsonWithin levels e.value)]
      return .tagged "local_set" (.array entries)
    | universalSet entries => do
      let entries ← entries.mapM fun e => do
        return .object [("key", .string e.key.display), ("value", ← toJsonWithin levels e.value)]
      return .tagged "universal_set" (.array entries)
    | series items => do
      return .tagged "series" (.array (← items.mapM (toJsonWithin levels)))
    | record fields => do
      let fields ← fields.mapM fun f => do
        return .object [("name", .string f.1), ("value", ← toJsonWithin levels f.2)]
      return .tagged "record" (.array fields)

/-- The JSON form of a value. Values that nest too deep have none. -/
def toJson (value : Value) : Except Error Json := value.toJsonWithin jsonLevels

end Value

namespace Packet

def toJson (packet : Packet) : Except Error Json := do
  return .object [("key", .string packet.key.display), ("value", ← packet.value.toJson)]

/-- A packet as JSON text on many lines. -/
def toJsonText (packet : Packet) : Except Error String := return (← packet.toJson).pretty

/-- Packets as the JSON text of an array. -/
def listToJsonText (packets : List Packet) : Except Error String := do
  return (Json.array (← packets.mapM toJson)).pretty

end Packet

/-! ## Reading

What is read is `none` if its form is wrong, and an error if the form is right and the
content is not. A part is `early` if it was taken in before it was known what it should be,
and then a kind has one more spelling.

How a kind may be spelled depends on its place. One in front of its content in an array, and
one of a special scaled value, is a name, or early a number. One in a field of its own is a
name, or an object that has nothing but the name. -/

namespace Json

def binary64? : Json → Option Binary64
  | number n => n.binary64?
  | string "nan" => some .nan
  | string "inf" => some .infinity
  | string "-inf" => some .negInfinity
  | _ => none

/-- A kind by its name, or early by its number among `kinds`. -/
def namedOrNumbered? (kinds : List String) (early : Bool) (json : Json) : Option String :=
  match json with
  | string s => some s
  | other => do
    if !early then none
    kinds[(← other.asUInt64?).toNat]?

/-- The kinds of special scaled values, in the order that numbers them. -/
def imapKinds : List String :=
  ["normal", "nan", "below_minimum", "above_maximum", "user_defined"]

/-- The kind of a special scaled value, and the record of its parts. The kind is a field of
the record or comes first in the array. -/
def imapParts? (early : Bool) : Json → Option (String × Json)
  | object fields => do
    return (← namedOrNumbered? imapKinds early (← unique? fields "kind"), object fields)
  | array (kind :: rest) => do
    return (← namedOrNumbered? imapKinds early kind, array rest)
  | _ => none

/-- A special scaled value from the record of its parts. -/
def imapOfParts? (kind : String) (parts : Json) : Option Imap :=
  match kind with
  | "normal" => do
    let [v] ← record? ["value"] parts | none
    return .normal (← v.binary64?)
  | "nan" => do
    let [s, n, p] ← record? ["signaling", "negative", "payload"] parts | none
    return .nan (← s.asBool?) (← n.asBool?) (← p.asUInt64?)
  | "below_minimum" => do
    let _ ← record? [] parts
    return .belowMinimum
  | "above_maximum" => do
    let _ ← record? [] parts
    return .aboveMaximum
  | "user_defined" => do
    let [p] ← record? ["payload"] parts | none
    return .userDefined (← p.asUInt64?)
  | _ => none

/-- A special scaled value. It is taken in, with `levels` levels of nesting, before anything
is asked of it. -/
def imap? (early : Bool) (levels : Nat) (json : Json) : Option Imap := do
  if !json.holds levels then none
  let (kind, parts) ← json.imapParts? early
  imapOfParts? kind parts

/-- The kinds of values, in the order that numbers them. -/
def valueKinds : List String :=
  ["empty", "blob", "uint", "sint", "float", "imap", "string", "bool", "local_set",
    "universal_set", "series", "record"]

/-- Whether a tree says nothing: it is null, or an empty object taken in early. -/
def isNothing (early : Bool) : Json → Bool
  | null => true
  | object [] => early
  | _ => false

/-- A kind by its name, or as an object with that name alone and nothing under it. -/
def namedOrWrapped? (early : Bool) (levels : Nat) : Json → Option String
  | string s => some s
  | object [(s, content)] => if 0 < levels && isNothing early content then some s else none
  | _ => none

/-- A tagged value in parts. -/
structure Tagged where
  kind : String
  content : Option Json
  /-- Whether the content was taken in early. -/
  early : Bool

/-- The kind and the content of a tagged value. Content that comes before its kind is taken
in early. -/
def tagged? (early : Bool) (levels : Nat) : Json → Option Tagged
  | array [kind, content] => do
    return ⟨← namedOrNumbered? valueKinds early kind, some content, early⟩
  | object fields =>
    match fields.filter fun f => f.1 == "type" || f.1 == "value" with
    | [("type", kind)] => do
      return ⟨← namedOrWrapped? early levels kind, none, early⟩
    | [("type", kind), ("value", content)] => do
      return ⟨← namedOrWrapped? early levels kind, some content, early⟩
    | [("value", content), ("type", kind)] => do
      if !content.holds levels then none
      return ⟨← namedOrWrapped? early levels kind, some content, true⟩
    | _ => none
  | _ => none

/-- The items of an array, where a level is left for them. -/
def items? (levels : Nat) : Json → Option (List Json)
  | array items => if 0 < levels then some items else none
  | _ => none

/-- The two fields of a record. -/
def pair? (levels : Nat) (first second : String) (json : Json) : Option (Json × Json) := do
  if levels = 0 then none
  let [a, b] ← record? [first, second] json | none
  return (a, b)

/-- The items of an array as records of two fields. -/
def pairs? (levels : Nat) (first second : String) (json : Json) :
    Option (List (Json × Json)) := do
  (← json.items? levels).mapM (pair? (levels - 1) first second)

end Json

namespace Value

/-- A value with nothing nested in it. -/
def ofScalarJson? (early : Bool) (levels : Nat) (kind : String) (content : Json) :
    Option (Except Error Value) :=
  match kind with
  | "empty" =>
    match content with
    | .null => some (.ok .empty)
    | _ => none
  | "blob" => do
    match Text.Base64.decode? (← content.asString?) with
    | some bytes => return .ok (.blob bytes)
    | none => return raise .base64
  | "uint" => do return .ok (.uint (← content.asUInt64?))
  | "sint" => do return .ok (.sint (← content.asInt64?))
  | "float" => do return .ok (.float (← content.binary64?))
  | "imap" => do return .ok (.imap (← content.imap? early levels))
  | "string" => do return .ok (.string (← content.asString?))
  | "bool" => do return .ok (.bool (← content.asBool?))
  | _ => none

def seriesOf (items : List (Except Error Value)) : Except Error Value := do
  return .series (← items.mapM id)

def localSetOf (entries : List (Tag × Except Error Value)) : Except Error Value := do
  return .localSet (← entries.mapM fun (tag, value) => do
    return ⟨tag, ← value, none⟩)

def universalSetOf (entries : List (String × Except Error Value)) : Except Error Value := do
  return .universalSet (← entries.mapM fun (text, value) => do
    let key ← UniversalKey.parse text
    return ⟨key, ← value, none⟩)

def recordOf (fields : List (String × Except Error Value)) : Except Error Value := do
  return .record (← fields.mapM fun (name, value) => do
    return (name, ← value))

/-- A value that others may be nested in, which `nested` reads from a number of levels. -/
def ofNestingJson? (nested : Nat → Json → Option (Except Error Value)) (early : Bool)
    (levels : Nat) (kind : String) (content : Json) : Option (Except Error Value) :=
  match kind with
  | "series" => do
    return seriesOf (← (← content.items? levels).mapM (nested (levels - 1)))
  | "local_set" => do
    return localSetOf (← (← content.pairs? levels "tag" "value").mapM fun (tag, value) => do
      return (← tag.asUInt64?, ← nested (levels - 2) value))
  | "universal_set" => do
    return universalSetOf (← (← content.pairs? levels "key" "value").mapM fun (key, value) => do
      return (← key.asString?, ← nested (levels - 2) value))
  | "record" => do
    return recordOf (← (← content.pairs? levels "name" "value").mapM fun (name, value) => do
      return (← name.asString?, ← nested (levels - 2) value))
  | _ => ofScalarJson? early levels kind content

/-- Reads a value from JSON that nests no deeper than `levels`, with room for `room` levels
of values. As each value takes a level, `levels` will do for `fuel`. -/
def ofJsonWithin : (fuel : Nat) → (early : Bool) → (levels room : Nat) → Json →
    Option (Except Error Value)
  | 0, _, _, _, _ => none
  | fuel + 1, early, levels, room, json => do
    if levels = 0 then none
    let parts ← json.tagged? early (levels - 1)
    let nested := (ofJsonWithin fuel parts.early · (room - 1))
    let value ← match parts.content with
      | some content => ofNestingJson? nested parts.early (levels - 1) parts.kind content
      | none => if parts.kind = "empty" then some (.ok .empty) else none
    return if room = 0 then raise .tooDeep else value

/-- What has been read, with the complaint about a wrong form. -/
def settled {α : Type} : Option (Except Error α) → Except Error α
  | some result => result
  | none => raise .json

/-- Reads a value from a tree of any depth. -/
def ofJson (json : Json) : Except Error Value :=
  settled (ofJsonWithin json.height false json.height jsonLevels json)

end Value

namespace Packet

/-- The levels of arrays and objects in a text that is read. -/
def textLevels : Nat := 127

def ofJson? (levels : Nat) (json : Json) : Option (Except Error Packet) := do
  let (key, value) ← json.pair? levels "key" "value"
  let key ← key.asString?
  let value ← Value.ofJsonWithin (levels - 1) false (levels - 1) Value.jsonLevels value
  return do
    let key ← UniversalKey.parse key
    return { key, value := ← value }

def ofJsonText (text : String) : Except Error Packet :=
  Value.settled do
    ofJson? textLevels (← Json.parse? text)

/-- Reads packets from the JSON text of an array. -/
def listOfJsonText (text : String) : Except Error (List Packet) :=
  Value.settled do
    let packets ← (← (← Json.parse? text).items? textLevels).mapM (ofJson? (textLevels - 1))
    return packets.mapM id

end Packet

end MotionMetadata
