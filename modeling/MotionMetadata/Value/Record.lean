import MotionMetadata.Value

/-!
# The fields of a record

Packs decode to records. Encoding one asks for fields by name and says what is wrong when a
field is missing or of another kind.
-/

namespace MotionMetadata.Value

/-- The complaint that `value` is not what was expected. -/
def typeFault (expected : String) (value : Value) : Fault := .wrongType expected value.typeName

/-- The content of a value by one of its views. -/
def expect {α : Type} (expected : String) (value : Value) (content : Option α) :
    Except Error α :=
  match content with
  | some a => .ok a
  | none => raise (value.typeFault expected)

def requireUint (value : Value) : Except Error UInt64 := value.expect "uint" value.asUint?

def requireSint (value : Value) : Except Error Int64 := value.expect "sint" value.asSint?

def requireFloat (value : Value) : Except Error Binary64 := value.expect "float" value.asFloat?

/-- A scaled value; the complaint asks for its common form, a double. -/
def requireImap (value : Value) : Except Error Imap := value.expect "float" value.asImap?

def requireString (value : Value) : Except Error String := value.expect "string" value.asString?

def requireSeries (value : Value) : Except Error (List Value) :=
  value.expect "series" value.asSeries?

def requireBool (value : Value) : Except Error Bool := value.expect "bool" value.asBool?

/-- Names a field in the error that its content raised. -/
def inside {α : Type} (place : String) (x : Except Error α) : Except Error α :=
  x.mapError (·.within place)

/-- A field that has to be there. -/
def field (value : Value) (name : String) : Except Error Value :=
  match value with
  | record _ =>
    match value.field? name with
    | some v => .ok v
    | none => raise (.missingField name)
  | _ => raise (value.typeFault "record")

def uintField (value : Value) (name : String) : Except Error UInt64 := do
  inside name (← value.field name).requireUint

def floatField (value : Value) (name : String) : Except Error Binary64 := do
  inside name (← value.field name).requireFloat

def imapField (value : Value) (name : String) : Except Error Imap := do
  inside name (← value.field name).requireImap

def boolField (value : Value) (name : String) : Except Error Bool := do
  inside name (← value.field name).requireBool

def stringField (value : Value) (name : String) : Except Error String := do
  inside name (← value.field name).requireString

def seriesField (value : Value) (name : String) : Except Error (List Value) := do
  inside name (← value.field name).requireSeries

/-- A field that may be left out. An empty one counts as left out. -/
def optionalField (value : Value) (name : String) : Except Error (Option Value) :=
  match value with
  | record _ => .ok ((value.field? name).filter fun v => !v.isEmpty)
  | _ => raise (value.typeFault "record")

end MotionMetadata.Value
