import MotionMetadata.Proofs.Filling
import MotionMetadata.Proofs.PacketStreams

/-!
# Arrays read from boxes

Whoever writes an array that is sent as boxes chooses its sizes and where the boxes are, so
nothing may be believed of them that was not looked at. The reader looks at each box once, when
all of it is there. A box that has no extent or ends outside is where the reader stops, whatever
was read before it; with every other one the odometer stays inside the array. The boxes are then
filled in the order they stand in, and what an element is read as can be told from them: it is
the element of the last box that holds its place.

The fuel of the row of boxes never ends it. A box takes a byte at least, because an array has a
dimension and so a box has a coordinate.
-/

namespace MotionMetadata

open Reader (Consumes)

theorem Reader.Consumes.mono {α : Type} {x : Reader α} {m k : Nat} (hx : x.Consumes m)
    (hk : k ≤ m) : x.Consumes k := by
  intro c a d h
  obtain ⟨n, hn, hle, hd⟩ := hx c a d h
  exact ⟨n, Nat.le_trans hk hn, hle, hd⟩

theorem Reader.Consumes.times {α : Type} {x : Reader α} {m : Nat} (hx : x.Consumes m) (n : Nat) :
    (times n x).Consumes (n * m) := by
  induction n with
  | zero => rw [Nat.zero_mul]; exact .pure []
  | succ n ih =>
      rw [Nat.succ_mul, Nat.add_comm _ m]
      exact hx.bind fun a => ih.bind fun rest => .pure (a :: rest)

theorem Ber.readTag_consumes : Ber.readTag.Consumes 1 := by
  intro c v d h
  obtain ⟨value, width, hscan, _, rfl⟩ := Ber.readTag_eq_ok.1 h
  obtain ⟨front, last, rest, hrest, hwidth, _⟩ := Ber.scanTag_eq_some hscan
  refine ⟨width, by omega, ?_, rfl⟩
  rw [hrest, List.length_append, List.length_cons]
  omega

namespace Grid

variable {element : GridElement} {sizes : List Nat} {elementSize length stop : Nat}
  {c d d' : Cursor} {common : Value} {boxes : List Box} {b : Box}

/-! ## A box on the wire -/

/-- The box that stands at a cursor, be it in the array or not. -/
def BoxAt (element : GridElement) (dimensions elementSize : Nat) (c : Cursor) (b : Box)
    (d : Cursor) : Prop :=
  ∃ c₁ c₂ start extent, element.read elementSize c = .ok b.value c₁ ∧
    Reader.times dimensions Ber.readTag c₁ = .ok start c₂ ∧
    Reader.times dimensions Ber.readTag c₂ = .ok extent d ∧
    b.start = start.map UInt64.toNat ∧ b.extent = extent.map UInt64.toNat

theorem BoxAt.dimensions {dimensions : Nat} (h : BoxAt element dimensions elementSize c b d) :
    b.start.length = dimensions ∧ b.extent.length = dimensions := by
  obtain ⟨_, _, start, extent, _, hstart, hextent, hb, hb'⟩ := h
  have htags := (Reader.Yields.any Ber.readTag).times dimensions
  rw [hb, hb', List.length_map, List.length_map]
  exact ⟨(htags _ _ _ hstart).1, (htags _ _ _ hextent).1⟩

theorem BoxAt.lies_iff (h : BoxAt element sizes.length elementSize c b d) :
    b.Lies sizes ↔ fitsInside sizes b.start b.extent = true := by
  rw [Box.lies_iff, and_iff_right h.dimensions.1, and_iff_right h.dimensions.2]

/-- A box is read as it stands, or it is not in the array. -/
theorem BoxAt.readBox (h : BoxAt element sizes.length elementSize c b d) :
    readBox element sizes elementSize c = if fitsInside sizes b.start b.extent then .ok b d
      else .error { fault := .runOutside, offset := some c.position } d := by
  obtain ⟨c₁, c₂, start, extent, hvalue, hstart, hextent, hb, hb'⟩ := h
  rw [Grid.readBox, Reader.bind_of_ok (Reader.position_apply c), Reader.bind_of_ok hvalue,
    Reader.bind_of_ok hstart, Reader.bind_of_ok hextent, ← hb, ← hb']
  dsimp only
  split <;> rfl

/-- A box that is read stands there and is in the array. -/
theorem readBox_eq_ok : readBox element sizes elementSize c = .ok b d ↔
    BoxAt element sizes.length elementSize c b d ∧ b.Lies sizes := by
  constructor
  · intro h
    obtain ⟨_, _, hposition, hread⟩ := Reader.bind_eq_ok.1 h
    cases hposition
    obtain ⟨value, c₁, hvalue, hread⟩ := Reader.bind_eq_ok.1 hread
    obtain ⟨start, c₂, hstart, hread⟩ := Reader.bind_eq_ok.1 hread
    obtain ⟨extent, c₃, hextent, hread⟩ := Reader.bind_eq_ok.1 hread
    dsimp only at hread
    split at hread
    · next hfits =>
        cases hread
        have hat : BoxAt element sizes.length elementSize c
            ⟨value, start.map UInt64.toNat, extent.map UInt64.toNat⟩ d :=
          ⟨c₁, c₂, start, extent, hvalue, hstart, hextent, rfl, rfl⟩
        exact ⟨hat, hat.lies_iff.2 hfits⟩
    · cases hread
  · rintro ⟨hat, hlies⟩
    rw [hat.readBox, if_pos (hat.lies_iff.1 hlies)]

theorem readBox_consumes (hsizes : sizes ≠ []) :
    (readBox element sizes elementSize).Consumes 1 := by
  have hpos : 0 < sizes.length := List.length_pos_iff.2 hsizes
  have htags := Ber.readTag_consumes.times sizes.length
  refine .position_bind fun _ => .behind (fun _ => element.read_alike elementSize) fun value => ?_
  refine (htags.mono (show 1 ≤ sizes.length * 1 by omega)).bind (k := 0) fun start => ?_
  exact (htags.mono (Nat.zero_le _)).bind fun extent => .require (.pure _)

/-! ## The row of boxes -/

/-- The boxes that stand between two cursors one after the other, each begun before `stop` and
each in the array. -/
inductive BoxesTo (element : GridElement) (sizes : List Nat) (elementSize stop : Nat) :
    Cursor → List Box → Cursor → Prop where
  | none {c : Cursor} : BoxesTo element sizes elementSize stop c [] c
  | box {c c' d : Cursor} {b : Box} {boxes : List Box} (hbefore : c.position < stop)
      (hat : BoxAt element sizes.length elementSize c b c') (hlies : b.Lies sizes)
      (hrest : BoxesTo element sizes elementSize stop c' boxes d) :
      BoxesTo element sizes elementSize stop c (b :: boxes) d

theorem BoxesTo.lies (h : BoxesTo element sizes elementSize stop c boxes d) :
    ∀ b ∈ boxes, b.Lies sizes := by
  induction h with
  | none => simp
  | box _ _ hlies _ ih => exact List.forall_mem_cons.2 ⟨hlies, ih⟩

/-- The row that is read ends where it has to. -/
theorem boxesTo_of_readBoxes (hsizes : sizes ≠ []) {fuel : Nat} (hfuel : c.rest.length < fuel)
    (h : readBoxes (readBox element sizes elementSize) stop fuel c = .ok boxes d) :
    BoxesTo element sizes elementSize stop c boxes d ∧ stop ≤ d.position := by
  induction fuel generalizing c boxes with
  | zero => omega
  | succ fuel ih =>
      rw [readBoxes, Reader.bind_of_ok (Reader.position_apply c)] at h
      split at h
      · next hbefore =>
          obtain ⟨b, c', hone, h⟩ := Reader.bind_eq_ok.1 h
          obtain ⟨rest, d', hrest, h⟩ := Reader.bind_eq_ok.1 h
          cases h
          obtain ⟨n, hn, hle, rfl⟩ := readBox_consumes hsizes c b c' hone
          have hless : (c.advance n).rest.length < fuel := by
            rw [Cursor.rest_advance, List.length_drop]
            omega
          obtain ⟨hboxes, hstop⟩ := ih hless hrest
          obtain ⟨hat, hlies⟩ := readBox_eq_ok.1 hone
          exact ⟨.box hbefore hat hlies hboxes, hstop⟩
      · next hend =>
          cases h
          exact ⟨.none, Nat.le_of_not_lt hend⟩

/-- Where a box ends the row because it is not in the array, that is what the row ends with. -/
theorem BoxesTo.readBoxes_outside (h : BoxesTo element sizes elementSize stop c boxes d)
    (hsizes : sizes ≠ []) (hbefore : d.position < stop)
    (hat : BoxAt element sizes.length elementSize d b d') (hout : ¬ b.Lies sizes) {fuel : Nat}
    (hfuel : c.rest.length < fuel) :
    readBoxes (readBox element sizes elementSize) stop fuel c =
      .error { fault := .runOutside, offset := some d.position } d' := by
  induction h generalizing fuel with
  | @none c =>
      obtain ⟨fuel, rfl⟩ : ∃ n, fuel = n + 1 := ⟨fuel - 1, by omega⟩
      have hone := hat.readBox
      rw [if_neg (hat.lies_iff.not.1 hout)] at hone
      rw [readBoxes, Reader.bind_of_ok (Reader.position_apply c), if_pos hbefore]
      exact Reader.bind_of_error hone
  | @box c c' d first rest hfirst hat' hlies hrest ih =>
      obtain ⟨fuel, rfl⟩ : ∃ n, fuel = n + 1 := ⟨fuel - 1, by omega⟩
      have hone := readBox_eq_ok.2 ⟨hat', hlies⟩
      obtain ⟨n, hn, hle, rfl⟩ := readBox_consumes hsizes c first c' hone
      have hless : (c.advance n).rest.length < fuel := by
        rw [Cursor.rest_advance, List.length_drop]
        omega
      rw [readBoxes, Reader.bind_of_ok (Reader.position_apply c), if_pos hfirst,
        Reader.bind_of_ok hone]
      exact Reader.bind_of_error (ih hbefore hat hless)

/-! ## The array -/

/-- An array that is sent as boxes, as far as it has been read at `d`: its header, the common
element, and some of its boxes. -/
def Begun (element : GridElement) (length : Nat) (c : Cursor) (header : Header) (common : Value)
    (boxes : List Box) (d : Cursor) : Prop :=
  ∃ c₁ c₂, readHeader element c = .ok header c₁ ∧ header.processing = .runs ∧
    c₁.position - c.position ≤ length ∧ element.read header.elementSize c₁ = .ok common c₂ ∧
    BoxesTo element header.sizes header.elementSize (c.position + length) c₂ boxes d

theorem readElements_processing (header : Header) (left stop : Nat) :
    (readElements element header left stop).Yields fun g =>
      g.processing = header.processing := by
  rw [readElements]
  cases header.processing with
  | natural => exact .require fun _ => .after fun _ => .pure rfl
  | scaled => exact .require fun _ => .after fun _ => .after fun _ => .after fun _ => .pure rfl
  | biased => exact .after fun _ => .after fun _ => .pure rfl
  | boolean => exact .after fun _ => .pure rfl
  | runs => exact .after fun _ => .after fun _ => .after fun _ => .pure rfl

/-- An array that is read from boxes is filled with all that stand there. -/
theorem begun_of_read {g : Grid} (h : read element length c = .ok g d)
    (hruns : g.processing = .runs) : ∃ header common boxes,
      Begun element length c header common boxes d ∧ header.sizes = g.sizes ∧
      c.position + length ≤ d.position ∧ g.elements = fillBoxes header.sizes common boxes := by
  obtain ⟨_, _, hposition, h⟩ := Reader.bind_eq_ok.1 h
  cases hposition
  obtain ⟨header, c₁, hheader, h⟩ := Reader.bind_eq_ok.1 h
  obtain ⟨_, _, hposition, h⟩ := Reader.bind_eq_ok.1 h
  cases hposition
  dsimp only at h
  split at h
  · next hused =>
      have hsame : header.processing = .runs :=
        (readElements_processing header _ _ _ _ _ h).symm.trans hruns
      rw [readElements, hsame] at h
      obtain ⟨common, c₂, hcommon, h⟩ := Reader.bind_eq_ok.1 h
      obtain ⟨_, _, hremaining, h⟩ := Reader.bind_eq_ok.1 h
      cases hremaining
      obtain ⟨boxes, d', hboxes, h⟩ := Reader.bind_eq_ok.1 h
      cases h
      have hsizes := (readHeader_yields element _ _ _ hheader).1.1
      obtain ⟨hrow, hstop⟩ := boxesTo_of_readBoxes hsizes (Nat.lt_succ_self _) hboxes
      exact ⟨header, common, boxes, ⟨c₁, c₂, hheader, hsame, hused, hcommon, hrow⟩, rfl,
        hstop, rfl⟩
  · cases h

/-- A box that is not in the array is where reading it ends. -/
theorem Begun.read_outside {header : Header}
    (h : Begun element length c header common boxes d) (hbefore : d.position < c.position + length)
    (hat : BoxAt element header.sizes.length header.elementSize d b d')
    (hout : ¬ b.Lies header.sizes) :
    read element length c = .error { fault := .runOutside, offset := some d.position } d' := by
  obtain ⟨c₁, c₂, hheader, hruns, hused, hcommon, hrow⟩ := h
  have hsizes := (readHeader_yields element _ _ _ hheader).1.1
  have hboxes := hrow.readBoxes_outside hsizes hbefore hat hout (Nat.lt_succ_self _)
  rw [read_of_header hheader hused, readElements, hruns]
  dsimp only
  rw [Reader.bind_of_ok hcommon, Reader.bind_of_ok (Reader.remaining_apply _)]
  exact Reader.bind_of_error hboxes

/-! ## What is seen -/

/-- What is seen at a place: the element of the last box that holds it, and the common one if
none does. -/
inductive Shows (common : Value) (place : List Nat) : List Box → Value → Prop where
  | common {boxes : List Box} (hnone : ∀ b ∈ boxes, ¬ b.Holds place) :
      Shows common place boxes common
  | last {before after : List Box} {b : Box} (hholds : b.Holds place)
      (hafter : ∀ b' ∈ after, ¬ b'.Holds place) :
      Shows common place (before ++ b :: after) b.value

theorem paintedAt_shows (hboxes : ∀ b ∈ boxes, b.Lies sizes) {place : List Nat}
    (hplace : place.length = sizes.length) :
    Shows common place boxes (paintedAt common boxes place) := by
  induction boxes using List.reverseRecOn with
  | nil => exact .common (by simp)
  | append_singleton rest b ih =>
      have hrest := ih fun b' hb' => hboxes b' (List.mem_append_left _ hb')
      have hb := (hboxes b (by simp)).inBox_iff hplace
      have hpainted : paintedAt common (rest ++ [b]) place =
          if inBox b.start b.extent place then b.value else paintedAt common rest place := by
        rw [paintedAt, List.foldl_append]
        rfl
      rw [hpainted]
      by_cases hholds : b.Holds place
      · rw [if_pos (hb.2 hholds)]
        exact .last hholds (by simp)
      · rw [if_neg (hb.not.2 hholds)]
        generalize paintedAt common rest place = e at hrest
        cases hrest with
        | common hnone =>
            refine .common fun b' hb' => ?_
            rcases List.mem_append.1 hb' with hb' | hb'
            · exact hnone b' hb'
            · exact List.mem_singleton.1 hb' ▸ hholds
        | @last before after b₀ hholds₀ hafter =>
            rw [List.append_assoc, List.cons_append]
            refine .last hholds₀ fun b' hb' => ?_
            rcases List.mem_append.1 hb' with hb' | hb'
            · exact hafter b' hb'
            · exact List.mem_singleton.1 hb' ▸ hholds

/-- An array that is read from boxes has as many elements as its sizes call for, and at every
place the element of the last box there that holds it, or else the common one. A box with an
empty extent or one that ends outside is refused. Filling any other box takes as many steps as
the box has places, sets the elements of exactly those, and no index is outside the array. -/
theorem runs_painted (element : GridElement) (length : Nat) (c : Cursor) :
    (∀ g d, read element length c = .ok g d → g.processing = .runs →
      g.elements.length = volume g.sizes ∧ volume g.sizes ≤ maxElements ∧
      ∃ header common boxes, Begun element length c header common boxes d ∧
        header.sizes = g.sizes ∧ c.position + length ≤ d.position ∧
        ∀ place, Inside g.sizes place → ∃ e, Shows common place boxes e ∧
          g.elements[indexOf (strides g.sizes) place]? = some e) ∧
    (∀ header common boxes d b d', Begun element length c header common boxes d →
      d.position < c.position + length →
      BoxAt element header.sizes.length header.elementSize d b d' → ¬ b.Lies header.sizes →
      read element length c = .error { fault := .runOutside, offset := some d.position } d') ∧
    (∀ (sizes : List Nat) (b : Box) (elements : Array Value), b.Lies sizes →
      elements.size = volume sizes →
      (b.indices (strides sizes)).length = volume b.extent ∧ (b.indices (strides sizes)).Nodup ∧
      (∀ i ∈ b.indices (strides sizes), i < elements.size) ∧
      (∀ place, Inside sizes place →
        (indexOf (strides sizes) place ∈ b.indices (strides sizes) ↔ b.Holds place)) ∧
      (fill (strides sizes) elements b).size = elements.size ∧
      ∀ i : Nat, (fill (strides sizes) elements b)[i]? =
        if i ∈ b.indices (strides sizes) then some b.value else elements[i]?) := by
  refine ⟨fun g d hread hruns => ?_, fun header common boxes d b d' hbegun hbefore hat hout =>
    hbegun.read_outside hbefore hat hout, fun sizes b elements hlies hsize =>
    ⟨hlies.length_indices _, hlies.nodup_indices, fun i hi => ?_, fun place hplace => ?_,
      size_fill _ _ _, hlies.getElem?_fill hsize⟩⟩
  · have hreadable := read_yields element length _ _ _ hread
    obtain ⟨header, common, boxes, hbegun, hsizes, hend, helements⟩ := begun_of_read hread hruns
    refine ⟨hreadable.count, hreadable.few, header, common, boxes, hbegun, hsizes, hend,
      fun place hplace => ?_⟩
    have hlies : ∀ b ∈ boxes, b.Lies g.sizes := by
      obtain ⟨_, _, _, _, _, _, hrow⟩ := hbegun
      exact hsizes ▸ hrow.lies
    obtain ⟨hlt, hback⟩ := hplace.indexOf
    refine ⟨_, paintedAt_shows hlies hplace.length, ?_⟩
    rw [helements, hsizes, fillBoxes_eq_paint hlies, getElem?_paint hlt, hback]
  · exact hsize ▸ (hlies.mem_indices.1 hi).1
  · obtain ⟨hlt, hback⟩ := hplace.indexOf
    rw [hlies.mem_indices, hback, and_iff_right hlt]

/-- A box of two by two in an array of two by three: the array is read with it, an element of it
is set, and the same box one column further on is refused. -/
theorem twoByThree_painted :
    (∃ g d, read .uint 11 (.ofBytes [2, 2, 3, 1, 5, 0, 7, 0, 1, 2, 2]) = .ok g d ∧
      g.elements.length = 6 ∧ g.sizes = [2, 3]) ∧
    (fill [3, 1] (Array.replicate 6 (.uint 0)) ⟨.uint 7, [0, 1], [2, 2]⟩)[5]? = some (.uint 7) ∧
    ∃ d, read .uint 11 (.ofBytes [2, 2, 3, 1, 5, 0, 7, 0, 2, 2, 2]) =
      .error { fault := .runOutside, offset := some 6 } d := by
  refine ⟨?_, ?_, ?_⟩
  · have hread : read .uint 11 (.ofBytes [2, 2, 3, 1, 5, 0, 7, 0, 1, 2, 2]) = .ok
        { sizes := [2, 3], elements := fillBoxes [2, 3] (.uint 0) [⟨.uint 7, [0, 1], [2, 2]⟩]
          elementSize := 1, processing := .runs, parametersLength := 1, bounds := none }
        { origin := 0, consumed := 11, rest := [] } := rfl
    exact ⟨_, _, hread, ((runs_painted .uint 11 _).1 _ _ hread rfl).1, rfl⟩
  · have hlies : Box.Lies [2, 3] ⟨.uint 7, [0, 1], [2, 2]⟩ := Box.lies_iff.2 ⟨rfl, rfl, rfl⟩
    obtain ⟨_, _, _, hholds, _, hfill⟩ := (runs_painted .uint 11 (.ofBytes [])).2.2 [2, 3]
      ⟨.uint 7, [0, 1], [2, 2]⟩ (Array.replicate 6 (.uint 0)) hlies rfl
    have hcorner : Box.Holds ⟨.uint 7, [0, 1], [2, 2]⟩ [1, 2] := by
      rw [Box.Holds]
      decide
    exact (hfill 5).trans (if_pos ((hholds [1, 2] ⟨rfl, by decide⟩).2 hcorner))
  · have hbegun : Begun .uint 11 (.ofBytes [2, 2, 3, 1, 5, 0, 7, 0, 2, 2, 2]) ⟨[2, 3], 1, .runs, 4⟩
        (.uint 0) [] { origin := 0, consumed := 6, rest := [7, 0, 2, 2, 2] } :=
      ⟨{ origin := 0, consumed := 5, rest := [0, 7, 0, 2, 2, 2] }, _, rfl, rfl, by decide, rfl,
        .none⟩
    have hat : BoxAt .uint 2 1 { origin := 0, consumed := 6, rest := [7, 0, 2, 2, 2] }
        ⟨.uint 7, [0, 2], [2, 2]⟩ { origin := 0, consumed := 11, rest := [] } :=
      ⟨_, _, [0, 2], [2, 2], rfl, rfl, rfl, rfl, rfl⟩
    exact ⟨_, (runs_painted .uint 11 _).2.1 _ _ _ _ _ _ hbegun (by decide) hat fun hlies =>
      absurd (Box.lies_iff.1 hlies).2.2 (by decide)⟩

end Grid

end MotionMetadata
