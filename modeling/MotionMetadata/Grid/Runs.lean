import MotionMetadata.Grid

/-!
# Boxes in an array

An array with few different elements is sent as its most common one and boxes of others,
each with the place it starts at and its extent. They are found in one pass in row-major
order. A box begins as a single element and grows along its row. One that begins right below
an unfinished box of the same element, along the dimension that box may still grow in, is a
child of it. When the child spans what it has to, it becomes the parent's next layer and
stops being a box of its own. An interruption takes the parent away.
-/

namespace MotionMetadata.Grid

/-- A box of equal elements. -/
structure Box where
  value : Value
  start : List Nat
  extent : List Nat
deriving Inhabited

/-- Whether `place` is in the box that starts at `start` and has the extent `extent`. -/
def inBox : (start extent place : List Nat) → Bool
  | s :: start, n :: extent, p :: place => s ≤ p && p < s + n && inBox start extent place
  | _, _, _ => true

/-- Whether a box lies in an array: it has some extent along every dimension, and ends
inside. -/
def fitsInside : (sizes start extent : List Nat) → Bool
  | size :: sizes, s :: start, n :: extent =>
    0 < n && s + n ≤ size && fitsInside sizes start extent
  | _, _, _ => true

/-- The element at `place`: that of the last box it is in, or else the common one. -/
def paintedAt (common : Value) (boxes : List Box) (place : List Nat) : Value :=
  boxes.foldl (fun seen b => if inBox b.start b.extent place then b.value else seen) common

/-- The elements of an array that was painted with boxes. -/
def paint (sizes : List Nat) (common : Value) (boxes : List Box) : List Value :=
  let steps := strides sizes
  (List.range (volume sizes)).map fun i => paintedAt common boxes (placeOf steps i)

/-! ## Filling boxes

An array is painted by filling its boxes, one after the other. Within a box the offsets from
its start count like an odometer, the last dimension fastest. -/

/-- Moves offsets on by one. An offset that has gone through its extent starts again and moves
the one before it; the answer tells whether all of them have. -/
def tick : (extent offsets : List Nat) → List Nat × Bool
  | n :: extent, o :: offsets =>
    match tick extent offsets with
    | (rest, false) => (o :: rest, false)
    | (rest, true) => if o + 1 < n then ((o + 1) :: rest, false) else (0 :: rest, true)
  | _, _ => ([], true)

/-- The number of offsets within an extent, where no extent counts as one. -/
def span : List Nat → Nat
  | [] => 1
  | n :: extent => max n 1 * span extent

/-- How often offsets can be moved on before all of them have gone through. -/
def ticksLeft : (extent offsets : List Nat) → Nat
  | n :: extent, o :: offsets => (n - 1 - o) * span extent + ticksLeft extent offsets
  | _, _ => 0

theorem ticksLeft_lt (extent offsets : List Nat) : ticksLeft extent offsets < span extent := by
  induction extent generalizing offsets with
  | nil => simp [ticksLeft, span]
  | cons n extent ih =>
      have hpos : 0 < span extent := Nat.zero_lt_of_lt (ih [])
      cases offsets with
      | nil => exact Nat.mul_pos (by omega) hpos
      | cons o offsets =>
          calc
            (n - 1 - o) * span extent + ticksLeft extent offsets
              < (n - 1 - o) * span extent + span extent := Nat.add_lt_add_left (ih offsets) _
            _ = (n - 1 - o + 1) * span extent := (Nat.succ_mul _ _).symm
            _ ≤ max n 1 * span extent := Nat.mul_le_mul_right _ (by omega)

theorem ticksLeft_tick {extent offsets next : List Nat} (h : tick extent offsets = (next, false)) :
    ticksLeft extent next < ticksLeft extent offsets := by
  induction extent generalizing offsets next with
  | nil => simp [tick] at h
  | cons n extent ih =>
      cases offsets with
      | nil => simp [tick] at h
      | cons o offsets =>
          rw [tick] at h
          match hrest : tick extent offsets with
          | (rest, false) =>
              rw [hrest] at h
              injection h with h _
              subst h
              exact Nat.add_lt_add_left (ih hrest) _
          | (rest, true) =>
              rw [hrest] at h
              dsimp only at h
              split at h
              · next hlt =>
                  injection h with h _
                  subst h
                  have hsplit : n - 1 - o = n - 1 - (o + 1) + 1 := by omega
                  rw [ticksLeft, ticksLeft, hsplit, Nat.succ_mul, Nat.add_assoc]
                  exact Nat.add_lt_add_left (Nat.lt_add_right _ (ticksLeft_lt extent rest)) _
              · injection h with _ h
                cases h

/-- The offsets that a walk through a box comes by, from some of them on. -/
def walk (extent offsets : List Nat) : List (List Nat) :=
  offsets :: match _h : tick extent offsets with
    | (next, false) => walk extent next
    | (_, true) => []
termination_by ticksLeft extent offsets
decreasing_by exact ticksLeft_tick ‹_›

/-- The index of a place, given the strides. -/
def indexOf : (steps place : List Nat) → Nat
  | step :: steps, p :: place => p * step + indexOf steps place
  | _, _ => 0

/-- The indices of a box in an array with some strides, as a walk through it comes by them. -/
def Box.indices (steps : List Nat) (b : Box) : List Nat :=
  (walk b.extent (b.extent.map fun _ => 0)).map fun offsets =>
    indexOf steps (b.start.zipWith (· + ·) offsets)

/-- Fills a box with its element. -/
def fill (steps : List Nat) (elements : Array Value) (b : Box) : Array Value :=
  (b.indices steps).foldl (fun elements i => elements.setIfInBounds i b.value) elements

/-- The elements of an array whose boxes were filled one after the other. -/
def fillBoxes (sizes : List Nat) (common : Value) (boxes : List Box) : List Value :=
  (boxes.foldl (fill (strides sizes)) (Array.replicate (volume sizes) common)).toList

/-! ## The common element -/

/-- The order of elements of one type. -/
def elementOrder : Value → Value → Ordering
  | .uint a, .uint b => compare a.toNat b.toNat
  | .sint a, .sint b => compare a.toInt b.toInt
  | .float a, .float b => compare a.totalKey b.totalKey
  | .bool a, .bool b => compare a.toNat b.toNat
  | _, _ => .eq

/-- Counts one more of `element`. -/
def tally (element : Value) : List (Value × Nat) → List (Value × Nat)
  | [] => [(element, 1)]
  | (e, n) :: rest =>
    if e.equals element then (e, n + 1) :: rest else (e, n) :: tally element rest

/-- Whether the first of two counted elements goes before the second: it is more common, or
as common and less. -/
def preferred (a b : Value × Nat) : Bool :=
  match compare b.2 a.2 with
  | .lt => true
  | .eq => elementOrder a.1 b.1 == .lt
  | .gt => false

/-- The most common element, the least one of several. -/
def commonElement? (elements : List Value) : Option Value :=
  match elements.foldl (fun counts e => tally e counts) [] with
  | [] => none
  | first :: rest =>
    some (rest.foldl (fun best c => if preferred c best then c else best) first).1

/-! ## Finding boxes -/

/-- A box that may still grow. -/
structure OpenBox where
  box : Box
  /-- The box this one would become a layer of. -/
  parent : Option Nat
  /-- The dimension it looks to grow along, counted from the last one. -/
  rank : Nat
deriving Inhabited

/-- The number of the first dimensions, `limit` at most, along which `place` is in the last
layer of the box; and whether it is past the box along the next of them. -/
def lastLayers : (limit : Nat) → (start extent place : List Nat) → Nat × Bool
  | limit + 1, s :: start, n :: extent, p :: place =>
    if s + n ≤ p then (0, true)
    else if p + 1 < s + n then (0, false)
    else
      let (count, past) := lastLayers limit start extent place
      (count + 1, past)
  | _, _, _, _ => (0, false)

namespace OpenBox

def dimensions (b : OpenBox) : Nat := b.box.start.length

/-- The box as seen from `place`. Once the pass has left it along a dimension, it cannot
grow along a later one. -/
def seenFrom (b : OpenBox) (place : List Nat) : OpenBox :=
  let (count, past) :=
    lastLayers (b.dimensions - (b.rank + 1)) b.box.start b.box.extent place
  if past then { b with rank := b.dimensions - count - 1 } else b

/-- The dimension it looks to grow along. -/
def growing (b : OpenBox) : Nat := b.dimensions - b.rank - 1

/-- The place its next layer starts at. -/
def nextLayerStart (b : OpenBox) : List Nat :=
  b.box.start.mapIdx fun i s => if i = b.growing then s + b.box.extent.getD i 0 else s

/-- The place its next layer ends at. -/
def nextLayerEnd (b : OpenBox) : List Nat :=
  b.box.start.mapIdx fun i s =>
    if i = b.growing then s + b.box.extent.getD i 0 else s + b.box.extent.getD i 0 - 1

/-- Whether a next layer may start at `place`. A row grows by elements, not layers. -/
def layerStartsAt (b : OpenBox) (place : List Nat) : Bool :=
  b.rank != 0 && b.nextLayerStart == place

def layerEndsAt (b : OpenBox) (place : List Nat) : Bool := b.nextLayerEnd == place

/-- The box with one more layer along the dimension it grows in. -/
def extended (b : OpenBox) : OpenBox :=
  { b with box := { b.box with extent := b.box.extent.modify b.growing (· + 1) } }

end OpenBox

/-- A pass over the array: the boxes begun so far, `none` for one that became a layer of
another; the one growing along the current row; and the last place that was in a box. -/
structure Pass where
  boxes : List (Option OpenBox)
  current : Option Nat
  place : List Nat
deriving Inhabited

namespace Pass

def at? (p : Pass) (i : Nat) : Option OpenBox := (p.boxes.getD i none)

def put (p : Pass) (i : Nat) (b : Option OpenBox) : Pass := { p with boxes := p.boxes.set i b }

/-- Ends the current box. It will be no layer. -/
def interrupt (p : Pass) : Pass :=
  match p.current with
  | none => p
  | some i =>
    match p.at? i with
    | some b => { p.put i (some { b with parent := none }) with current := none }
    | none => { p with current := none }

/-- Makes the box `child` a layer of its parent if it ends where that layer does, and goes
on with the parent. A parent is older than its child, so `fuel` boxes are enough. -/
def absorb : (fuel child : Nat) → Pass → Pass
  | 0, _, p => p
  | fuel + 1, child, p =>
    match (p.at? child).bind (·.parent) with
    | none => p
    | some parent =>
      match p.at? parent with
      | none => p
      | some b =>
        let b := b.seenFrom p.place
        if b.layerEndsAt p.place then
          absorb fuel parent ((p.put parent (some b.extended)).put child none)
        else p.put parent (some b)

/-- Ends the current box, which is complete. -/
def complete (p : Pass) : Pass :=
  match p.current with
  | none => p
  | some child => absorb p.boxes.length child { p with current := none }

/-- Looks among the boxes, the oldest first, for one that has a layer of `element` starting
at `place`; the boxes before it are seen from there. -/
def findParent (element : Value) (place : List Nat) :
    (index : Nat) → List (Option OpenBox) → List (Option OpenBox) × Option Nat
  | _, [] => ([], none)
  | index, none :: rest =>
    let (rest, parent) := findParent element place (index + 1) rest
    (none :: rest, parent)
  | index, some b :: rest =>
    let b := b.seenFrom place
    if b.layerStartsAt place && b.box.value.equals element then (some b :: rest, some index)
    else
      let (rest, parent) := findParent element place (index + 1) rest
      (some b :: rest, parent)

/-- Begins a box at `place`. -/
def begin (p : Pass) (element : Value) (place : List Nat) : Pass :=
  let (boxes, parent) := findParent element place 0 p.boxes
  let box : Box := { value := element, start := place, extent := place.map fun _ => 1 }
  { boxes := boxes ++ [some { box, parent, rank := 0 }]
    current := some boxes.length
    place }

/-- The current box if it is one of `element`. -/
def continuing? (p : Pass) (element : Value) : Option (Nat × OpenBox) := do
  let i ← p.current
  let b ← p.at? i
  if b.box.value.equals element then some (i, b) else none

/-- Grows the current box by an element of its row, or begins another. -/
def grow (p : Pass) (element : Value) (place : List Nat) : Pass :=
  match p.continuing? element with
  | some (i, b) =>
    let extent := b.box.extent.modify (b.dimensions - 1) (· + 1)
    { p.put i (some { b with box := { b.box with extent } }) with place }
  | none => p.interrupt.begin element place

/-- Completes the current box if the element just taken was the last it can have: the end of
its parent's layer, or of a row. -/
def settle (p : Pass) (lastColumn : Nat) : Pass :=
  match p.current.bind p.at? with
  | none => p
  | some b =>
    match b.parent with
    | none => if p.place.getLast? == some lastColumn then p.complete else p
    | some parent =>
      match p.at? parent with
      | none => p
      | some above =>
        let above := above.seenFrom p.place
        let p := p.put parent (some above)
        if above.layerEndsAt p.place then p.complete else p

/-- Takes one element. The common one ends the current box. -/
def step (common : Value) (steps : List Nat) (lastColumn : Nat) (p : Pass)
    (indexed : Value × Nat) : Pass :=
  if indexed.1.equals common then p.interrupt
  else (p.grow indexed.1 (placeOf steps indexed.2)).settle lastColumn

end Pass

/-- The boxes of an array, in the order they were begun. -/
def findBoxes (sizes : List Nat) (elements : List Value) (common : Value) : List Box :=
  let lastColumn := (sizes.getLast?.getD 0) - 1
  let pass := elements.zipIdx.foldl (Pass.step common (strides sizes) lastColumn)
    { boxes := [], current := none, place := sizes.map fun _ => 0 }
  pass.complete.boxes.filterMap fun slot => slot.map (·.box)

end MotionMetadata.Grid
