import MotionMetadata.Bytes
import MotionMetadata.Error

/-!
# Reading

A reader takes a cursor to a result and the cursor after it, and it keeps the cursor when it
fails: how far a failed read got is part of its answer. A cursor knows where in the whole
buffer it stands, so an error found inside a nested field still points at the right byte.
-/

namespace MotionMetadata

/-- A place in a byte string: where the string starts in the whole buffer, how much of it
is read, and what is left. -/
structure Cursor where
  origin : Nat
  consumed : Nat
  rest : Bytes
deriving DecidableEq, Inhabited

namespace Cursor

def ofBytes (data : Bytes) : Cursor := { origin := 0, consumed := 0, rest := data }

/-- The offset of the next byte in the whole buffer. -/
def position (c : Cursor) : Nat := c.origin + c.consumed

def remaining (c : Cursor) : Nat := c.rest.length

def isEmpty (c : Cursor) : Bool := c.rest.isEmpty

/-- The cursor after `n` of the bytes left. -/
def advance (c : Cursor) (n : Nat) : Cursor :=
  { c with consumed := c.consumed + n, rest := c.rest.drop n }

/-- A cursor over the next `n` bytes alone. Its positions are those of the whole. -/
def field (c : Cursor) (n : Nat) : Cursor :=
  { origin := c.position, consumed := 0, rest := c.rest.take n }

end Cursor

/-- A computation that reads at a cursor, and leaves one also when it fails. -/
abbrev Reader := EStateM Error Cursor

namespace Reader

/-- Where the next byte stands in the whole buffer. -/
def position : Reader Nat := return (← get).position

def remaining : Reader Nat := return (← get).remaining

def atEnd : Reader Bool := return (← get).isEmpty

/-- Fails without moving unless `n` bytes are left. -/
def require (n : Nat) : Reader Unit := do
  let c ← get
  unless n ≤ c.remaining do
    raiseAt c.position (.outOfBytes n c.remaining)

/-- The next `n` bytes. -/
def take (n : Nat) : Reader Bytes := do
  require n
  let c ← get
  set (c.advance n)
  return c.rest.take n

def skip (n : Nat) : Reader Unit := do
  let _ ← take n

def byte : Reader UInt8 := do
  return (← take 1).headD 0

/-- Any byte but zero is true. -/
def bool : Reader Bool := return (← byte) != 0

/-- A cursor over the next `n` bytes, which are read as a whole. -/
def enter (n : Nat) : Reader Cursor := do
  require n
  let c ← get
  set (c.advance n)
  return c.field n

/-- Reads the next `n` bytes as a field of their own. However the field's reader ends, the
field is behind the cursor. -/
def inField {α : Type} (n : Nat) (inner : Reader α) : Reader α := do
  let field ← enter n
  match inner field with
  | .ok value _ => return value
  | .error e _ => throw e

/-- Runs `reader`, and puts the cursor back if it fails. -/
def restoring {α : Type} (reader : Reader α) : Reader α := fun c =>
  match reader c with
  | .ok value c' => .ok value c'
  | .error e _ => .error e c

/-- Runs `reader` on a byte string of its own. -/
def onBytes {α : Type} (reader : Reader α) (data : Bytes) : Except Error α :=
  match reader (Cursor.ofBytes data) with
  | .ok value _ => .ok value
  | .error e _ => .error e

/-- Runs `reader` and changes the error it raises, if any. -/
def mapError {α : Type} (f : Error → Error) (reader : Reader α) : Reader α := fun c =>
  match reader c with
  | .ok value c' => .ok value c'
  | .error e c' => .error (f e) c'

/-- Runs `reader` `n` times. -/
def times {α : Type} : Nat → Reader α → Reader (List α)
  | 0, _ => return []
  | n + 1, reader => do
    let first ← reader
    let rest ← times n reader
    return first :: rest

end Reader

end MotionMetadata
