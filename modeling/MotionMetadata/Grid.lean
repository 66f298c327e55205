import MotionMetadata.Value.Record

/-!
# Multi-dimensional arrays

An array is its sizes and its elements in row-major order, the last dimension varying
fastest. How the elements are put on the wire is the processing algorithm, which the array
carries along so that it is written back the way it came.
-/

namespace MotionMetadata

/-- How the elements of an array are put on the wire. -/
inductive Processing where
  /-- Each element in its own encoding, all of one width. -/
  | natural
  /-- Doubles scaled over bounds that precede them. -/
  | scaled
  /-- A bit per element. -/
  | boolean
  /-- Differences from the least element, in the form of tags. -/
  | biased
  /-- A common element, and boxes of others. -/
  | runs
deriving DecidableEq, Inhabited

namespace Processing

def code : Processing → UInt64
  | natural => 1
  | scaled => 2
  | boolean => 3
  | biased => 4
  | runs => 5

def ofCode? (code : UInt64) : Option Processing :=
  match code.toNat with
  | 1 => some natural
  | 2 => some scaled
  | 3 => some boolean
  | 4 => some biased
  | 5 => some runs
  | _ => none

def name : Processing → String
  | natural => "Natural"
  | scaled => "IMAP"
  | boolean => "Boolean"
  | biased => "Unsigned Integer"
  | runs => "Run-Length Encoding"

end Processing

/-- An array with what it takes to write it the way it was read. -/
structure Grid where
  sizes : List Nat
  elements : List Value
  elementSize : Nat
  processing : Processing
  /-- The bytes of the parameters before the elements. -/
  parametersLength : Nat
  /-- The bounds of a scaled array. -/
  bounds : Option (Binary64 × Binary64)
deriving Inhabited

namespace Grid

/-- The most elements an array may have. Runs make that many of a handful of bytes. -/
def maxElements : Nat := 2 ^ 24

def natural (sizes : List Nat) (elements : List Value) (elementSize : Nat) : Grid :=
  { sizes, elements, elementSize, processing := .natural, parametersLength := 0, bounds := none }

/-- A scaled array whose bounds are written in four bytes each. -/
def scaled (sizes : List Nat) (elements : List Value) (elementSize : Nat)
    (low high : Binary64) : Grid :=
  { sizes, elements, elementSize, processing := .scaled, parametersLength := 8
    bounds := some (low, high) }

def boolean (sizes : List Nat) (elements : List Value) : Grid :=
  { sizes, elements, elementSize := 1, processing := .boolean, parametersLength := 0
    bounds := none }

/-- The least of some numbers, zero if there are none. -/
def least (values : List UInt64) : UInt64 :=
  match values with
  | [] => 0
  | first :: rest => rest.foldl (fun a b => if b < a then b else a) first

def biased (sizes : List Nat) (elements : List Value) : Grid :=
  { sizes, elements, elementSize := 1, processing := .biased
    parametersLength := Ber.tagWidth (least (elements.filterMap Value.asUint?)), bounds := none }

def runLength (sizes : List Nat) (elements : List Value) (elementSize : Nat) : Grid :=
  { sizes, elements, elementSize, processing := .runs, parametersLength := elementSize
    bounds := none }

/-- The number of elements some sizes call for. -/
def volume (sizes : List Nat) : Nat := sizes.foldr (· * ·) 1

/-- The number of elements the sizes call for, if a machine word holds it at each step of
the multiplication. -/
def count? (sizes : List Nat) : Option Nat :=
  sizes.foldlM (fun total size => if total * size < 2 ^ 64 then some (total * size) else none) 1

/-! ## The record form -/

def natValue (n : Nat) : Value := .uint (UInt64.ofNat n)

def toValue (g : Grid) : Value :=
  let head := [("sizes", Value.series (g.sizes.map natValue)),
    ("element_size", natValue g.elementSize),
    ("apa", .uint g.processing.code),
    ("apa_params_length", natValue g.parametersLength)]
  let bounds := match g.bounds with
    | some (low, high) => [("imap_minimum", Value.float low), ("imap_maximum", .float high)]
    | none => []
  .record (head ++ bounds ++ [("elements", .series g.elements)])

def ofValue (value : Value) : Except Error Grid := do
  let sizes ← value.seriesField "sizes"
  let sizes ← sizes.mapM fun n => Value.inside "sizes" n.requireUint
  let elements ← value.seriesField "elements"
  let code ← value.uintField "apa"
  let processing ← match Processing.ofCode? code with
    | some p => pure p
    | none => raise (.unknownProcessing code)
  let bounds ← match value.field? "imap_minimum", value.field? "imap_maximum" with
    | some low, some high => do
      let low ← Value.inside "imap_minimum" low.requireFloat
      let high ← Value.inside "imap_maximum" high.requireFloat
      pure (some (low, high))
    | _, _ => pure none
  let elementSize ← value.uintField "element_size"
  let parametersLength ← value.uintField "apa_params_length"
  return { sizes := sizes.map UInt64.toNat, elements, elementSize := elementSize.toNat
           processing, parametersLength := parametersLength.toNat, bounds }

/-- Whether two arrays are the same, their elements compared as values. -/
def equals (a b : Grid) : Bool :=
  a.sizes == b.sizes && Value.equalItems a.elements b.elements &&
    a.elementSize == b.elementSize && a.processing == b.processing &&
    a.parametersLength == b.parametersLength &&
    (match a.bounds, b.bounds with
    | none, none => true
    | some (l, h), some (l', h') => l.equals l' && h.equals h'
    | _, _ => false)

def print (g : Grid) : String :=
  "\x7b sizes: (" ++ ", ".intercalate (g.sizes.map Nat.repr) ++ "), apa: " ++
    g.processing.name ++ ", elements: (" ++
    ", ".intercalate (g.elements.map Value.display) ++ ") \x7d"

/-! ## Places -/

/-- How far apart in row-major order neighbours along each dimension are. -/
def strides : List Nat → List Nat
  | [] => []
  | _ :: rest => volume rest :: strides rest

/-- The place of the element with index `i`, given the strides. -/
def placeOf : List Nat → Nat → List Nat
  | [], _ => []
  | stride :: rest, i => i / stride :: placeOf rest (i % stride)

end Grid

end MotionMetadata
