import MotionMetadata.Checksum
import MotionMetadata.Pack.Correlation
import MotionMetadata.Pack.Identity
import MotionMetadata.Pack.Position
import MotionMetadata.Pack.Quality
import MotionMetadata.Pack.RangeImage
import MotionMetadata.Pack.RowArray
import MotionMetadata.Pack.Small
import MotionMetadata.Standard

/-!
# Formats

A format says what a field is made of. It is a description and nothing else, so tables of
formats are data: a format that nests a set names the set, and which table that is depends
on the registry it is read with. Formats without other formats inside have a codec of their
own here.
-/

namespace MotionMetadata

/-- Formats that have no other formats inside. -/
inductive PlainFormat where
  | blob (c : LengthConstraint)
  | uint (c : LengthConstraint)
  | sint (c : LengthConstraint)
  | berOid
  | enumeration (name : String) (c : LengthConstraint) (names : Names)
  | bool
  | float (c : LengthConstraint)
  | imap (low high : Binary64) (c : LengthConstraint)
  | linear (signed : Bool) (low high : Binary64) (c : LengthConstraint)
  | text (encoding : Text.Encoding) (characters c : LengthConstraint)
  | grid (element : GridElement)
  | rowArray (a : RowArray)
  /-- The uncertainty of entries before it, whose tags are `preceding`. -/
  | correlation (preceding : List Tag)
  | position (p : Position)
  | identity
  | metricPeriod
  | windowCorners
  | metricImplementer
  | rangeEnumerations
  | rangeSection
  | userData
  | detectorIndex
deriving Inhabited

def PlainFormat.codec : PlainFormat → Codec
  | blob c => .blob c
  | uint c => .uint c
  | sint c => .sint c
  | berOid => .berOid
  | enumeration name c names => .enumeration name c names
  | bool => .bool
  | float c => .float c
  | imap low high c => .imap low high c
  | linear signed low high c => .linear signed low high c
  | text encoding characters c => .text encoding characters c
  | grid element => .grid element
  | rowArray a => .rowArray a
  | correlation preceding => .correlation preceding
  | position p => .position p
  | identity => .identity
  | metricPeriod => .metricPeriod
  | windowCorners => .windowCorners
  | metricImplementer => .metricImplementer
  | rangeEnumerations => .rangeEnumerations
  | rangeSection => .rangeSection
  | userData => .userData
  | detectorIndex => .detectorIndex

/-- Packs of a number and a set. -/
inductive IdPack where
  | target
  | trackItem
deriving DecidableEq, Inhabited

namespace IdPack

def name : IdPack → String
  | target => "vtarget"
  | trackItem => "vtrack item"

/-- The set of the pack. -/
def standard : IdPack → Standard
  | target => .target
  | trackItem => .trackItem

end IdPack

inductive Format where
  | plain (f : PlainFormat)
  /-- Elements of one format, each preceded by its length. -/
  | series (element : Format)
  /-- A set with small tags. As a packet it may end in a checksum. -/
  | localSet (standard : Standard) (trailer : Option Checksum.Trailer)
  /-- A set with universal keys. -/
  | universalSet (standard : Standard)
  | idPack (pack : IdPack)
deriving Inhabited

namespace Format

def description : Format → String
  | plain f => f.codec.description
  | series element =>
    "series of " ++ element.description ++ " of " ++ LengthConstraint.free.description
  | localSet standard _ =>
    s!"{standard.name} local set of " ++ LengthConstraint.free.description
  | universalSet standard =>
    s!"{standard.name} universal set of " ++ LengthConstraint.free.description
  | idPack pack => s!"{pack.name} pack of " ++ LengthConstraint.free.description

def constraint : Format → LengthConstraint
  | plain f => f.codec.constraint
  | _ => .free

/-- The set that values of the format contain, if any. -/
def subset : Format → Option Standard
  | plain _ => none
  | series element => element.subset
  | localSet standard _ => some standard
  | universalSet standard => some standard
  | idPack pack => some pack.standard

/-- The trailer that closes packets of the format. -/
def trailer : Format → Option Checksum.Trailer
  | localSet _ t => t
  | _ => none

/-- The format of an entry that follows entries with the tags `preceding`. -/
@[inline] def after (f : Format) (preceding : List Tag) : Format :=
  match f with
  | plain (.correlation _) => plain (.correlation preceding)
  | other => other

/-- The tags whose entries have to be right before an entry that holds `value`. -/
def described (f : Format) (value : Value) : Option (List Tag) :=
  match f with
  | plain (.correlation _) => (Correlation.membersOf value).toOption
  | _ => none

/-! ## Making formats

What can be wrong about the numbers in a format is found when it is made. -/

/-- Bytes of any length. -/
def bytes : Format := plain (.blob .free)

/-- Any text. -/
def textOf (encoding : Text.Encoding) : Format := plain (.text encoding .free .free)

/-- Doubles of four or eight bytes, eight preferred. -/
def anyFloat : Format :=
  plain (.float
    { shape := .oneOf [4, 8], preferred := some 8, ascending := List.pairwise_pair.2 (by decide) })

def checkFloat (c : LengthConstraint) : Except Error Format :=
  if c.allows 4 || c.allows 8 then .ok (plain (.float c))
  else raise (.floatFormat c.description)

def fixedFloat (width : Nat) : Except Error Format := do
  checkFloat (← LengthConstraint.fixed width)

def checkScaled (low high : Binary64) (c : LengthConstraint) : Except Error Format :=
  match Imap.precision low high 1 with
  | .ok _ => .ok (plain (.imap low high c))
  | .error e => .error (e.within "IMAP format")

def fixedScaled (low high : Binary64) (width : Nat) : Except Error Format := do
  checkScaled low high (← LengthConstraint.fixed width)

/-- Scaled numbers of one to eight bytes, written with `suggested` if that will do. -/
def anyScaled (low high : Binary64) (suggested : Nat) : Except Error Format := do
  checkScaled low high (← (← LengthConstraint.range 1 8).preferring suggested)

def checkLinear (signed : Bool) (low high : Binary64) (width : Nat) : Except Error Format := do
  if !low.lt high || 8 < width then
    raise (.linearFormat low high width)
  return plain (.linear signed low high (← LengthConstraint.fixed width))

def unsignedLinear (low high : Binary64) (width : Nat) : Except Error Format :=
  checkLinear false low high width

/-- The signed mapping of the domain from `-bound` to `bound`. -/
def signedLinear (bound : Binary64) (width : Nat) : Except Error Format :=
  checkLinear true bound.neg bound width

/-- Locations, each with its uncertainty: a boundary, or where a track has been. -/
def locations : Format := series (plain (.position .location))

end Format

end MotionMetadata
