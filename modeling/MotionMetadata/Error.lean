import MotionMetadata.Imap
import MotionMetadata.Text.Quoted

/-!
# What can go wrong

An error is a cause, the places it was passed through on its way up, and the byte where it
was noticed if that is known. Causes carry the data of the case. Their wording is in one
function, and so is the kind a caller tells them apart by. Two things are no errors: a tag
no table knows, and a checksum that does not match.
-/

namespace MotionMetadata

/-- What a caller can tell apart. -/
inductive ErrorKind where
  /-- The bytes run out, or a declared length disagrees with the bytes present. -/
  | length
  /-- Bytes that do not follow their encoding. -/
  | format
  /-- A length its field does not allow. -/
  | constraint
  /-- A checksum trailer that is missing or malformed. -/
  | checksum
  /-- A value that is not what its format expects. -/
  | type
  /-- A value too large for its width or domain. -/
  | overflow
  /-- Nesting past the limit. -/
  | depth
  /-- A tag table that contradicts itself. -/
  | registry
deriving DecidableEq, Inhabited

/-- The name a kind goes by outside the library. -/
def ErrorKind.code : ErrorKind → String
  | .length => "ERR_LENGTH"
  | .format => "ERR_FORMAT"
  | .constraint => "ERR_CONSTRAINT"
  | .checksum => "ERR_CHECKSUM"
  | .type => "ERR_TYPE"
  | .overflow => "ERR_OVERFLOW"
  | .depth => "ERR_LIMIT_DEPTH"
  | .registry => "ERR_REGISTRY"

/-- How deep sets, series and packs may nest. -/
def maxDepth : Nat := 32

/-- The causes. A `String` among the data is text made for people: a key as it prints, the
description of a format, the name of a table or of a type. -/
inductive Fault where
  -- Bytes and numbers.
  | outOfBytes (wanted left : Nat)
  | integerWidth (width : Nat)
  | unsignedTooWide (value : UInt64) (width : Nat)
  | signedTooWide (value : Int64) (width : Nat)
  | lengthForm (count : Nat)
  | openTag (cutShort : Bool)
  | tagTooWide (value : UInt64) (width : Nat)
  | floatWidth (width : Nat)
  | floatTooLarge (value : Binary64)
  -- Scaled numbers.
  | scaledDomain (low high : Binary64)
  | scaledWidth (width : Nat)
  | scaledPrecision (precision : Binary64)
  | strayBits (special : String)
  | reservedPattern
  | scaledOutside (value low high : Binary64)
  | payloadTooWide (value : Imap) (width : Nat)
  | linearOutside (value low high : Binary64)
  -- Keys.
  | keyDigits (text : String)
  | keyNotAscii
  | keyDigitPair (text : String)
  | keyInvalid (key : String)
  -- Lengths a field allows.
  | zeroLength
  | noLength
  | suggestedLength (suggested : Nat) (constraint : String)
  -- Text.
  | byteNotAscii (byte : UInt8) (index : Nat)
  | textNotAscii (text : String)
  | notUtf8 (detail : String)
  | oddUtf16 (count : Nat)
  | notUtf16 (detail : String)
  | implementerNotUtf8 (detail : String)
  -- Formats, values and tables.
  | linearFormat (low high : Binary64) (width : Nat)
  | floatFormat (constraint : String)
  | wrongType (expected got : String)
  | missingField (name : String)
  | writtenLength (format : String) (written expected : Nat)
  | emptyTable (table : String)
  | duplicateEntry (table what entry : String)
  -- Nesting, series and sets.
  | tooDeep
  | elementOverrun (length : UInt64)
  | fieldOverrun (table key : String) (length : UInt64) (left : Nat)
  | describedTwice (table : String) (tag : UInt64)
  | describedMissing (table : String) (tag : UInt64)
  -- Arrays.
  | booleanWidth (width : Nat)
  | unknownProcessing (byte : UInt64)
  | noDimensions
  | zeroDimension
  | tooManyElements
  | processingReads (processing element : String)
  | arrayHeaderOverrun
  | runOutside
  | elementOverflow
  | arrayElementsOverrun
  | processingWrites (processing element : String)
  | emptyDimension
  | elementCount (sizes : List Nat) (count : Nat)
  | missingBounds
  | noElements
  | rowArrayCount (name : String) (count : Nat)
  | rowArraySizes (name : String) (sizes : List Nat)
  -- Packs.
  | describesNothing
  | scaledDeviations
  | valueLengths (sigma rho limit : Nat)
  | deviationCount (members count : Nat)
  | coefficientCount (members count : Nat)
  | describesTooMany (preceding : Nat)
  | parseControlWidth (width : Nat)
  | cornerTooLarge (name : String) (value : UInt64)
  | enumerationsTooLarge (compression dataType source : UInt64)
  | sectionOverrun (length : UInt64)
  | sectionUnread (format : String) (left : Nat)
  | userDataTooLarge (dataType id : UInt64)
  | identifierLength (name : String) (length : Nat)
  | deviceTypes (sensor platform : UInt64)
  | devicePresence
  -- Packets.
  | noTrailer
  | noPacketKey
  | packetOverrun (length : UInt64) (left : Nat)
  -- The JSON form.
  | json
  | base64
  /-- A cause of the caller's own. -/
  | other (kind : ErrorKind) (text : String)
deriving Inhabited

namespace Fault

def kind : Fault → ErrorKind
  | outOfBytes .. | writtenLength .. | elementOverrun _ | fieldOverrun .. | arrayHeaderOverrun
  | arrayElementsOverrun | elementCount .. | rowArrayCount .. | sectionOverrun _
  | sectionUnread .. | noPacketKey | packetOverrun .. => .length
  | openTag cutShort => if cutShort then .length else .format
  | integerWidth _ | unsignedTooWide .. | signedTooWide .. | tagTooWide .. | floatTooLarge _
  | scaledWidth _ | scaledOutside .. | payloadTooWide .. | linearOutside ..
  | elementOverflow | cornerTooLarge .. | enumerationsTooLarge .. | userDataTooLarge .. =>
    .overflow
  | zeroLength | noLength | suggestedLength .. => .constraint
  | linearFormat .. | floatFormat _ | emptyTable _ | duplicateEntry .. => .registry
  | wrongType .. | missingField _ | processingWrites .. | missingBounds => .type
  | tooDeep => .depth
  | noTrailer => .checksum
  | lengthForm _ | floatWidth _ | scaledDomain .. | scaledPrecision _ | strayBits _
  | reservedPattern | keyDigits _ | keyNotAscii | keyDigitPair _ | keyInvalid _
  | byteNotAscii .. | textNotAscii _ | notUtf8 _ | oddUtf16 _ | notUtf16 _
  | implementerNotUtf8 _ | describedTwice .. | describedMissing .. | booleanWidth _
  | unknownProcessing _ | noDimensions | zeroDimension | tooManyElements | processingReads ..
  | runOutside | emptyDimension | noElements | rowArraySizes .. | describesNothing
  | scaledDeviations | valueLengths .. | deviationCount .. | coefficientCount ..
  | describesTooMany _ | parseControlWidth _ | identifierLength .. | deviceTypes ..
  | devicePresence | json | base64 => .format
  | other kind _ => kind

/-- A list of sizes as messages show it. -/
def sizeList (sizes : List Nat) : String :=
  "[" ++ ", ".intercalate (sizes.map Nat.repr) ++ "]"

/-- A domain as messages show it. -/
def domainText (low high : Binary64) : String := "(" ++ low.display ++ ", " ++ high.display ++ ")"

def message : Fault → String
  | outOfBytes wanted left => s!"need {wanted} bytes, {left} remain"
  | integerWidth width => s!"integer width of {width} bytes is outside 1..=8"
  | unsignedTooWide value width => s!"{value.toNat} does not fit in {width} bytes"
  | signedTooWide value width => s!"{value.toInt} does not fit in {width} signed bytes"
  | lengthForm count => s!"unsupported BER long form with {count} length bytes"
  | openTag _ => "unterminated BER-OID value"
  | tagTooWide value width =>
    s!"{value.toNat} needs {width} BER-OID bytes; at most 8 allowed"
  | floatWidth width => s!"float of {width} bytes; must be 4 or 8"
  | floatTooLarge value => value.display ++ " overflows a 4-byte float"
  | scaledDomain low high => "invalid scaled domain " ++ domainText low high
  | scaledWidth width => s!"scaled value width of {width} bytes is outside 1..=8"
  | scaledPrecision precision => "invalid IMAP precision " ++ precision.display
  | strayBits special => s!"invalid {special} IMAP value: other bits not zero"
  | reservedPattern => "reserved IMAP value"
  | scaledOutside value low high =>
    "IMAP value " ++ value.display ++ " outside " ++ domainText low high
  | payloadTooWide value width =>
    "IMAP payload of " ++ value.display ++ s!" does not fit in {width} bytes"
  | linearOutside value low high =>
    value.display ++ " outside FLINT domain " ++ domainText low high
  | keyDigits text => "universal key " ++ Text.quoted text ++ " does not have 32 hex digits"
  | keyNotAscii => "non-ASCII universal key"
  | keyDigitPair text => "invalid hex " ++ Text.quoted text ++ " in universal key"
  | keyInvalid key => s!"invalid universal key {key}"
  | zeroLength => "length constraints cannot include zero"
  | noLength => "length constraints cannot exclude all lengths"
  | suggestedLength suggested constraint =>
    s!"suggested length {suggested} violates {constraint}"
  | byteNotAscii byte index =>
    "byte 0x" ++ Text.upperHex [byte] ++ s!" at index {index} is not ASCII"
  | textNotAscii text => Text.quoted text ++ " cannot be encoded as ASCII"
  | notUtf8 detail => s!"string is not valid UTF-8: {detail}"
  | oddUtf16 count => s!"UTF-16 string has odd byte count {count}"
  | notUtf16 detail => s!"string is not valid UTF-16: {detail}"
  | implementerNotUtf8 detail => s!"metric implementer is not UTF-8: {detail}"
  | linearFormat low high width =>
    "invalid FLINT " ++ domainText low high ++ s!" of {width} bytes"
  | floatFormat constraint => s!"float format with {constraint} admits neither 4 nor 8 bytes"
  | wrongType expected got => s!"expected {expected}, got {got}"
  | missingField name => "record is missing field " ++ Text.quoted name
  | writtenLength format written expected =>
    s!"{format}: wrote {written} bytes, expected {expected}"
  | emptyTable table => s!"{table}: table needs an unknown entry"
  | duplicateEntry table what entry => s!"{table}: duplicate {what} {entry}"
  | tooDeep => s!"nesting exceeds {maxDepth} levels"
  | elementOverrun length => s!"series element of {length.toNat} bytes overruns series"
  | fieldOverrun table key length left =>
    s!"{table}: field {key} of {length.toNat} bytes overruns set ({left} bytes left)"
  | describedTwice table tag => s!"{table}: two SDCC-FLP packs describe tag {tag.toNat}"
  | describedMissing table tag => s!"{table}: SDCC-FLP describes missing tag {tag.toNat}"
  | booleanWidth width => s!"boolean element of {width} bytes"
  | unknownProcessing byte => s!"unknown MDAP APA {byte.toNat}"
  | noDimensions => "MDAP has no dimensions"
  | zeroDimension => "MDAP dimension of size zero"
  | tooManyElements => "MDAP has too many elements"
  | processingReads processing element | processingWrites processing element =>
    s!"APA {processing} does not apply to {element} elements"
  | arrayHeaderOverrun => "MDAP header overruns field"
  | runOutside => "MDAP run leaves the array"
  | elementOverflow => "MDAP element overflows"
  | arrayElementsOverrun => "MDAP elements overrun field"
  | emptyDimension => "MDAP needs at least one non-empty dimension"
  | elementCount sizes count =>
    "MDAP of sizes " ++ sizeList sizes ++ s!" holds {count} elements"
  | missingBounds => "IMAP MDAP is missing its bounds"
  | noElements => "RLE MDAP has no elements"
  | rowArrayCount name count => s!"{name} SDCC array holds {count} elements"
  | rowArraySizes name sizes => s!"{name} SDCC array of sizes " ++ sizeList sizes
  | describesNothing => "SDCC-FLP describes no entries"
  | scaledDeviations => "IMAP standard deviations are not supported"
  | valueLengths sigma rho limit =>
    s!"SDCC-FLP value lengths {sigma} and {rho} exceed {limit}"
  | deviationCount members count =>
    s!"SDCC-FLP of {members} entries holds {count} deviations"
  | coefficientCount members count =>
    s!"SDCC-FLP of {members} entries holds {count} coefficients"
  | describesTooMany preceding =>
    s!"SDCC-FLP describes more than the {preceding} preceding entries"
  | parseControlWidth width => s!"parse control of {width} bytes"
  | cornerTooLarge name value => s!"{name} {value.toNat} exceeds 16 bits"
  | enumerationsTooLarge compression dataType source =>
    s!"range image enumerations ({compression.toNat}, {dataType.toNat}, {source.toNat})" ++
      " do not fit one byte"
  | sectionOverrun length => s!"field of {length.toNat} bytes overruns pack"
  | sectionUnread format left => s!"{format} left {left} bytes unread"
  | userDataTooLarge dataType id =>
    s!"user data type {dataType.toNat} / id {id.toNat} do not fit one byte"
  | identifierLength name length => s!"{name} of {length} bytes"
  | deviceTypes sensor platform =>
    s!"device id types {sensor.toNat} and {platform.toNat} do not fit two bits"
  | devicePresence => "device id type and device id disagree on presence"
  | noTrailer => "checksum header not present"
  | noPacketKey => "universal key not found in data buffer"
  | packetOverrun length left =>
    s!"packet value of {length.toNat} bytes overruns buffer ({left} bytes left)"
  | json => "JSON: "
  | base64 => "invalid base64 blob: "
  | other _ text => text

end Fault

/-- A cause with the names of the places around it, the outermost first, and the offset of
the byte where the problem was found. -/
structure Error where
  fault : Fault
  context : List String := []
  offset : Option Nat := none
deriving Inhabited

namespace Error

/-- Note the byte where the problem was found. An offset noted closer to it stands. -/
def atByte (e : Error) (offset : Nat) : Error := { e with offset := e.offset.or (some offset) }

/-- Note a place around the problem. -/
def within (e : Error) (place : String) : Error := { e with context := place :: e.context }

def kind (e : Error) : ErrorKind := e.fault.kind

def message (e : Error) : String :=
  e.context.foldr (fun place rest => place ++ ": " ++ rest) e.fault.message

def display (e : Error) : String :=
  e.kind.code ++ ": " ++ e.message ++
    (match e.offset with
    | some offset => s!" (at byte {offset})"
    | none => "")

end Error

/-- An error raised from a cause. -/
def raise {m : Type → Type} [MonadExceptOf Error m] {α : Type} (fault : Fault) : m α :=
  throw { fault := fault }

/-- An error raised from a cause noticed at `offset`. -/
def raiseAt {m : Type → Type} [MonadExceptOf Error m] {α : Type} (offset : Nat)
    (fault : Fault) : m α :=
  throw { fault := fault, offset := some offset }

end MotionMetadata
