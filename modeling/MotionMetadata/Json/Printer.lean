import MotionMetadata.Json
import MotionMetadata.Text.Quoted

/-!
# Writing JSON

A tree as text, on one line or with a line for every item and field.
-/

namespace MotionMetadata.Json

/-- A character inside a string. Only what must be escaped is. -/
def escapedChar (c : Char) : List Char :=
  if c = '"' then ['\\', '"']
  else if c = '\\' then ['\\', '\\']
  else if c = '\n' then ['\\', 'n']
  else if c = '\r' then ['\\', 'r']
  else if c = '\t' then ['\\', 't']
  else if c.toNat = 8 then ['\\', 'b']
  else if c.toNat = 12 then ['\\', 'f']
  else if c.toNat < 32 then ['\\', 'u', '0', '0'] ++ Text.hexByte (UInt8.ofNat c.toNat)
  else [c]

/-- A text in double quotes. -/
def quotedText (text : String) : String :=
  "\"" ++ String.ofList (text.toList.flatMap escapedChar) ++ "\""

mutual

/-- A tree on one line, without blanks. -/
def compact : Json → String
  | null => "null"
  | bool b => if b then "true" else "false"
  | number n => n.display
  | string s => quotedText s
  | array items => "[" ++ ",".intercalate (compactItems items) ++ "]"
  | object fields => "\x7b" ++ ",".intercalate (compactFields fields) ++ "\x7d"
  | broken => "null"

def compactItems : List Json → List String
  | [] => []
  | item :: rest => compact item :: compactItems rest

def compactFields : List (String × Json) → List String
  | [] => []
  | (key, value) :: rest => (quotedText key ++ ":" ++ compact value) :: compactFields rest

end

/-- A line break, and two blanks for each level. -/
def lineBreak (level : Nat) : String := "\n" ++ String.ofList (List.replicate (2 * level) ' ')

/-- Parts on lines of their own, in brackets. -/
def bracketed (level : Nat) (opening closing : String) (parts : List String) : String :=
  if parts.isEmpty then opening ++ closing
  else
    opening ++ lineBreak (level + 1) ++ ("," ++ lineBreak (level + 1)).intercalate parts ++
      lineBreak level ++ closing

mutual

/-- A tree on many lines, the first of which is at `level`. -/
def prettyAt : (level : Nat) → Json → String
  | _, null => "null"
  | _, bool b => if b then "true" else "false"
  | _, number n => n.display
  | _, string s => quotedText s
  | level, array items => bracketed level "[" "]" (prettyItems (level + 1) items)
  | level, object fields => bracketed level "\x7b" "\x7d" (prettyFields (level + 1) fields)
  | _, broken => "null"
termination_by structural _ json => json

def prettyItems : (level : Nat) → List Json → List String
  | _, [] => []
  | level, item :: rest => prettyAt level item :: prettyItems level rest
termination_by structural _ items => items

def prettyFields : (level : Nat) → List (String × Json) → List String
  | _, [] => []
  | level, (key, value) :: rest =>
    (quotedText key ++ ": " ++ prettyAt level value) :: prettyFields level rest
termination_by structural _ fields => fields

end

def pretty (json : Json) : String := json.prettyAt 0

/-! ## Order of fields -/

/-- Puts a field among others that are in the order of their keys. -/
def insertField (field : String × Json) : List (String × Json) → List (String × Json)
  | [] => [field]
  | other :: rest =>
    if other.1 < field.1 then other :: insertField field rest else field :: other :: rest

mutual

/-- The tree with the fields of every object in the order of their keys. -/
def sorted : Json → Json
  | array items => array (sortedItems items)
  | object fields => object (sortedFields fields)
  | other => other

def sortedItems : List Json → List Json
  | [] => []
  | item :: rest => sorted item :: sortedItems rest

def sortedFields : List (String × Json) → List (String × Json)
  | [] => []
  | (key, value) :: rest => insertField (key, sorted value) (sortedFields rest)

end

end MotionMetadata.Json
