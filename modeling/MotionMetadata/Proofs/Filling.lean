import Mathlib.Data.List.Nodup
import MotionMetadata.Proofs.Arrays
import MotionMetadata.Proofs.Painting

/-!
# Filling boxes

The offsets of a walk through a box are the places of an array that is as large as the box, and
the odometer takes the one to the next in row-major order. So a walk that starts where all
offsets are zero comes by every one of them, once, and ends. Moved to where the box starts they
are the places of the box, and the index of a place is less than the number of elements as soon
as the box ends inside. Nothing else about the odometer matters from then on: filling is setting
elements at a list of indices, and the boxes filled one after the other leave at every place the
element of the last one that has it.
-/

namespace MotionMetadata.Grid

variable {sizes extent offsets next : List Nat} {common : Value} {boxes : List Box}

/-! ## The odometer -/

theorem placeAt_zero (sizes : List Nat) : placeAt sizes 0 = sizes.map fun _ => 0 := by
  induction sizes with
  | nil => rfl
  | cons size sizes ih =>
      show 0 / volume sizes :: placeAt sizes (0 % volume sizes) = _
      rw [Nat.zero_div, Nat.zero_mod, ih]
      rfl

/-- The odometer goes to the next place, and back to the first one after the last. -/
theorem tick_placeAt {r : Nat} (h : r < volume extent) :
    tick extent (placeAt extent r) =
      if r + 1 < volume extent then (placeAt extent (r + 1), false)
      else (extent.map fun _ => 0, true) := by
  induction extent generalizing r with
  | nil =>
      have hr : r < 1 := h
      have hend : ¬ r + 1 < volume [] := show ¬ r + 1 < 1 by omega
      rw [if_neg hend]
      rfl
  | cons n extent ih =>
      have hlt : r < n * volume extent := h
      have hpos : 0 < volume extent := Nat.pos_of_ne_zero fun hzero => by
        rw [hzero] at hlt
        omega
      have hrow := ih (Nat.mod_lt r hpos)
      have hsplit : r / volume extent * volume extent + r % volume extent = r :=
        Nat.div_add_mod' r _
      show tick (n :: extent) (r / volume extent :: placeAt extent (r % volume extent)) = _
      rw [tick]
      by_cases hmore : r % volume extent + 1 < volume extent
      · -- The next place is in the same layer.
        rw [if_pos hmore] at hrow
        have hnext : r + 1 = r % volume extent + 1 + r / volume extent * volume extent := by omega
        have hdiv : (r + 1) / volume extent = r / volume extent := by
          rw [hnext, Nat.add_mul_div_right _ _ hpos, Nat.div_eq_of_lt hmore, Nat.zero_add]
        have hmod : (r + 1) % volume extent = r % volume extent + 1 := by
          rw [hnext, Nat.add_mul_mod_self_right, Nat.mod_eq_of_lt hmore]
        have hin : r + 1 < n * volume extent :=
          (Nat.div_lt_iff_lt_mul hpos).1 (hdiv ▸ (Nat.div_lt_iff_lt_mul hpos).2 hlt)
        rw [hrow, if_pos (show r + 1 < volume (n :: extent) from hin)]
        show _ = ((r + 1) / volume extent :: placeAt extent ((r + 1) % volume extent), false)
        rw [hdiv, hmod]
      · -- The layer is complete, and the next one starts where the first one does.
        rw [if_neg hmore] at hrow
        have hlast : r % volume extent + 1 = volume extent := by
          have := Nat.mod_lt r hpos
          omega
        have hnext : r + 1 = (r / volume extent + 1) * volume extent := by
          rw [Nat.succ_mul]
          omega
        rw [hrow]
        dsimp only
        by_cases hlayer : r / volume extent + 1 < n
        · have hin : r + 1 < n * volume extent :=
            hnext ▸ Nat.mul_lt_mul_of_pos_right hlayer hpos
          rw [if_pos hlayer, if_pos (show r + 1 < volume (n :: extent) from hin)]
          show _ = ((r + 1) / volume extent :: placeAt extent ((r + 1) % volume extent), false)
          rw [hnext, Nat.mul_div_cancel _ hpos, Nat.mul_mod_left, placeAt_zero]
        · have hend : ¬ r + 1 < n * volume extent := fun hin =>
            hlayer (Nat.lt_of_mul_lt_mul_right (hnext ▸ hin))
          rw [if_neg hlayer, if_neg (show ¬ r + 1 < volume (n :: extent) from hend)]
          rfl

theorem walk_of_tick (h : tick extent offsets = (next, false)) :
    walk extent offsets = offsets :: walk extent next := by
  rw [walk]
  split
  · next heq =>
      rw [h] at heq
      injection heq with heq _
      rw [heq]
  · next heq =>
      rw [h] at heq
      injection heq with _ heq
      cases heq

theorem walk_of_end (h : tick extent offsets = (next, true)) :
    walk extent offsets = [offsets] := by
  rw [walk]
  split
  · next heq =>
      rw [h] at heq
      injection heq with _ heq
      cases heq
  · rfl

/-- A walk from the `r`-th place comes by it and the `left` places behind it. -/
theorem walk_placeAt {r left : Nat} (h : r + left + 1 = volume extent) :
    walk extent (placeAt extent r) = (List.range' r (left + 1)).map (placeAt extent) := by
  induction left generalizing r with
  | zero =>
      have htick := tick_placeAt (show r < volume extent by omega)
      rw [if_neg (by omega)] at htick
      rw [walk_of_end htick]
      rfl
  | succ left ih =>
      have htick := tick_placeAt (show r < volume extent by omega)
      rw [if_pos (by omega)] at htick
      rw [walk_of_tick htick, ih (by omega), List.range'_succ (s := r), List.map_cons]

/-- A walk through a box comes by each of its places in row-major order, and ends. -/
theorem walk_zeros (h : 0 < volume extent) :
    walk extent (extent.map fun _ => 0) = (List.range (volume extent)).map (placeAt extent) := by
  obtain ⟨left, hleft⟩ := Nat.exists_eq_add_of_lt h
  have hwalk : walk extent (placeAt extent 0) =
      (List.range' 0 (left + 1)).map (placeAt extent) := walk_placeAt (by omega)
  rw [placeAt_zero] at hwalk
  rw [hwalk, List.range_eq_range', hleft, Nat.zero_add]

/-! ## Indices -/

theorem indexOf_placeAt {i : Nat} (h : i < volume sizes) :
    indexOf (strides sizes) (placeAt sizes i) = i := by
  induction sizes generalizing i with
  | nil =>
      have hi : i < 1 := h
      show 0 = i
      omega
  | cons size sizes ih =>
      have hlt : i < size * volume sizes := h
      have hpos : 0 < volume sizes := Nat.pos_of_ne_zero fun hzero => by
        rw [hzero] at hlt
        omega
      show i / volume sizes * volume sizes +
        indexOf (strides sizes) (placeAt sizes (i % volume sizes)) = i
      rw [ih (Nat.mod_lt i hpos), Nat.div_add_mod']

/-- A place of an array of some sizes. -/
structure Inside (sizes place : List Nat) : Prop where
  length : place.length = sizes.length
  lt : ∀ k < sizes.length, place.getD k 0 < sizes.getD k 0

theorem inside_placeAt {i : Nat} (h : i < volume sizes) : Inside sizes (placeAt sizes i) :=
  ⟨length_placeAt sizes i, placeAt_lt h⟩

/-- The places of an array are those of its indices. -/
theorem Inside.indexOf {place : List Nat} (h : Inside sizes place) :
    Grid.indexOf (strides sizes) place < volume sizes ∧
      placeAt sizes (Grid.indexOf (strides sizes) place) = place := by
  obtain ⟨i, hi, rfl⟩ := exists_placeAt h.length h.lt
  rw [indexOf_placeAt hi]
  exact ⟨hi, rfl⟩

/-! ## The places of a box -/

/-- A box in an array of some sizes: it has an extent along every dimension, which is not zero
and ends inside. -/
structure Box.Lies (sizes : List Nat) (b : Box) : Prop where
  start : b.start.length = sizes.length
  extent : b.extent.length = sizes.length
  fits : ∀ k < sizes.length,
    0 < b.extent.getD k 0 ∧ b.start.getD k 0 + b.extent.getD k 0 ≤ sizes.getD k 0

/-- A place that is in a box along every dimension. -/
def Box.Holds (b : Box) (place : List Nat) : Prop :=
  ∀ k < place.length, b.start.getD k 0 ≤ place.getD k 0 ∧
    place.getD k 0 < b.start.getD k 0 + b.extent.getD k 0

theorem Box.lies_iff {b : Box} : b.Lies sizes ↔ b.start.length = sizes.length ∧
    b.extent.length = sizes.length ∧ fitsInside sizes b.start b.extent = true := by
  constructor
  · exact fun h => ⟨h.start, h.extent, (fitsInside_iff rfl h.start h.extent).2 h.fits⟩
  · exact fun ⟨hstart, hextent, hfits⟩ =>
      ⟨hstart, hextent, (fitsInside_iff rfl hstart hextent).1 hfits⟩

namespace Box.Lies

variable {b : Box} (h : b.Lies sizes)

include h

theorem inBox_iff {place : List Nat} (hplace : place.length = sizes.length) :
    inBox b.start b.extent place = true ↔ b.Holds place := by
  rw [Grid.inBox_iff h.start h.extent hplace, Holds, hplace]

theorem volume_pos : 0 < volume b.extent := by
  refine Grid.volume_pos fun n hn => ?_
  obtain ⟨k, hk, rfl⟩ := List.mem_iff_getElem.1 hn
  have hpos := (h.fits k (h.extent ▸ hk)).1
  rwa [List.getD_eq_getElem _ _ hk] at hpos

/-- The offset of a place from the start of a box. -/
theorem getD_moved {offsets : List Nat} (hoffsets : offsets.length = sizes.length) {k : Nat}
    (hk : k < sizes.length) :
    (b.start.zipWith (· + ·) offsets).getD k 0 = b.start.getD k 0 + offsets.getD k 0 := by
  have hstart : k < b.start.length := h.start ▸ hk
  have hoffset : k < offsets.length := hoffsets ▸ hk
  have hzip : k < (b.start.zipWith (· + ·) offsets).length := by
    rw [List.length_zipWith]
    omega
  rw [List.getD_eq_getElem _ _ hzip, List.getElem_zipWith, List.getD_eq_getElem _ _ hstart,
    List.getD_eq_getElem _ _ hoffset]

/-- An offset inside the extent leads to a place of the box. -/
theorem moved {offsets : List Nat} (hoffsets : Inside b.extent offsets) :
    Inside sizes (b.start.zipWith (· + ·) offsets) ∧
      b.Holds (b.start.zipWith (· + ·) offsets) := by
  have hlength : offsets.length = sizes.length := hoffsets.length.trans h.extent
  have hzip : (b.start.zipWith (· + ·) offsets).length = sizes.length := by
    rw [List.length_zipWith, h.start, hlength, Nat.min_self]
  have hoffset : ∀ k < sizes.length, offsets.getD k 0 < b.extent.getD k 0 := fun k hk =>
    hoffsets.lt k (h.extent ▸ hk)
  refine ⟨⟨hzip, fun k hk => ?_⟩, fun k hk => ?_⟩
  · have hfits := (h.fits k hk).2
    have hlt := hoffset k hk
    rw [h.getD_moved hlength hk]
    omega
  · rw [hzip] at hk
    have hlt := hoffset k hk
    rw [h.getD_moved hlength hk]
    omega

/-- Every place of the box has an offset inside the extent. -/
theorem exists_moved {place : List Nat} (hplace : place.length = sizes.length)
    (hholds : b.Holds place) :
    ∃ r < volume b.extent, b.start.zipWith (· + ·) (placeAt b.extent r) = place := by
  have hlength : (place.zipWith (· - ·) b.start).length = sizes.length := by
    rw [List.length_zipWith, hplace, h.start, Nat.min_self]
  have hback : ∀ k < sizes.length,
      (place.zipWith (· - ·) b.start).getD k 0 = place.getD k 0 - b.start.getD k 0 := by
    intro k hk
    rw [List.getD_eq_getElem _ _ (hlength.symm ▸ hk), List.getElem_zipWith,
      List.getD_eq_getElem _ _ (hplace.symm ▸ hk), List.getD_eq_getElem _ _ (h.start.symm ▸ hk)]
  have hin : ∀ k < b.extent.length,
      (place.zipWith (· - ·) b.start).getD k 0 < b.extent.getD k 0 := by
    intro k hk
    rw [h.extent] at hk
    have hk' := hholds k (hplace ▸ hk)
    rw [hback k hk]
    omega
  obtain ⟨r, hr, hoffsets⟩ := exists_placeAt (hlength.trans h.extent.symm) hin
  refine ⟨r, hr, ext_getD ?_ fun k hk => ?_⟩
  · rw [hoffsets, List.length_zipWith, hlength, h.start, hplace, Nat.min_self]
  · rw [hoffsets, List.length_zipWith, hlength, h.start, Nat.min_self] at hk
    have hk' := hholds k (hplace ▸ hk)
    rw [hoffsets, h.getD_moved hlength hk, hback k hk]
    omega

theorem indices_eq (steps : List Nat) : b.indices steps = (List.range (volume b.extent)).map
    fun r => indexOf steps (b.start.zipWith (· + ·) (placeAt b.extent r)) := by
  rw [indices, walk_zeros h.volume_pos, List.map_map]
  rfl

/-- The indices of a box are those of its places. -/
theorem mem_indices {i : Nat} : i ∈ b.indices (strides sizes) ↔
    i < volume sizes ∧ b.Holds (placeAt sizes i) := by
  rw [h.indices_eq, List.mem_map]
  constructor
  · rintro ⟨r, hr, rfl⟩
    obtain ⟨hinside, hholds⟩ := h.moved (inside_placeAt (List.mem_range.1 hr))
    obtain ⟨hlt, hplace⟩ := hinside.indexOf
    exact ⟨hlt, hplace.symm ▸ hholds⟩
  · rintro ⟨hi, hholds⟩
    obtain ⟨r, hr, hplace⟩ := h.exists_moved (length_placeAt sizes i) hholds
    exact ⟨r, List.mem_range.2 hr, by rw [hplace, indexOf_placeAt hi]⟩

/-- No place of the box is come by twice. -/
theorem nodup_indices : (b.indices (strides sizes)).Nodup := by
  rw [h.indices_eq]
  refine List.Nodup.map_on (fun r hr s hs hindex => ?_) List.nodup_range
  rw [List.mem_range] at hr hs
  have hr' := (h.moved (inside_placeAt hr)).1.indexOf.2
  have hs' := (h.moved (inside_placeAt hs)).1.indexOf.2
  have hplaces : b.start.zipWith (· + ·) (placeAt b.extent r) =
      b.start.zipWith (· + ·) (placeAt b.extent s) := by
    rw [← hr', hindex, hs']
  have hlength : ∀ r, (placeAt b.extent r).length = sizes.length := fun r =>
    (length_placeAt b.extent r).trans h.extent
  refine placeAt_injective hr hs (ext_getD ((hlength r).trans (hlength s).symm) fun k hk => ?_)
  have hk' : k < sizes.length := hlength r ▸ hk
  have hsum := congrArg (fun l => l.getD k 0) hplaces
  rw [h.getD_moved (hlength r) hk', h.getD_moved (hlength s) hk'] at hsum
  exact Nat.add_left_cancel hsum

theorem length_indices (steps : List Nat) : (b.indices steps).length = volume b.extent := by
  rw [h.indices_eq, List.length_map, List.length_range]

end Box.Lies

/-! ## What is filled -/

theorem getElem?_foldl_set {indices : List Nat} {elements : Array Value} {v : Value} (j : Nat) :
    (indices.foldl (fun elements i => elements.setIfInBounds i v) elements)[j]? =
      if j ∈ indices ∧ j < elements.size then some v else elements[j]? := by
  induction indices generalizing elements with
  | nil => simp
  | cons i rest ih =>
      rw [List.foldl_cons, ih, Array.size_setIfInBounds, Array.getElem?_setIfInBounds]
      by_cases hlt : j < elements.size
      · by_cases hij : i = j
        · subst hij
          simp [hlt]
        · have hne : j ≠ i := Ne.symm hij
          simp [hlt, hij, hne]
      · have hnone : elements[j]? = none := Array.getElem?_eq_none (Nat.le_of_not_lt hlt)
        have hset : ¬ (j ∈ i :: rest ∧ j < elements.size) := fun h => hlt h.2
        rw [if_neg hset, if_neg fun h => hlt h.2, hnone]
        by_cases hij : i = j
        · rw [if_pos hij, if_neg (hij ▸ hlt)]
        · rw [if_neg hij]

/-- Filling a box sets the elements of its places and leaves all others. -/
theorem Box.Lies.getElem?_fill {b : Box} (h : b.Lies sizes) {elements : Array Value}
    (hsize : elements.size = volume sizes) (j : Nat) :
    (fill (strides sizes) elements b)[j]? =
      if j ∈ b.indices (strides sizes) then some b.value else elements[j]? := by
  rw [fill, getElem?_foldl_set]
  have hiff : (j ∈ b.indices (strides sizes) ∧ j < elements.size) ↔
      j ∈ b.indices (strides sizes) :=
    and_iff_left_of_imp fun hmem => hsize ▸ (h.mem_indices.1 hmem).1
  simp only [hiff]

theorem size_fill (steps : List Nat) (elements : Array Value) (b : Box) :
    (fill steps elements b).size = elements.size := by
  rw [fill]
  induction b.indices steps generalizing elements with
  | nil => rfl
  | cons i rest ih => exact (ih _).trans Array.size_setIfInBounds

/-- Filling boxes one after the other leaves the element of the last one at every place. -/
theorem getElem?_foldl_fill (hboxes : ∀ b ∈ boxes, b.Lies sizes) {elements : Array Value}
    (hsize : elements.size = volume sizes) {j : Nat} (hj : j < volume sizes) {e : Value}
    (he : elements[j]? = some e) :
    (boxes.foldl (fill (strides sizes)) elements)[j]? =
      some (paintedAt e boxes (placeAt sizes j)) := by
  induction boxes generalizing elements e with
  | nil => exact he
  | cons b rest ih =>
      obtain ⟨hb, hrest⟩ := List.forall_mem_cons.1 hboxes
      have hfill := hb.getElem?_fill hsize j
      have hiff : j ∈ b.indices (strides sizes) ↔
          inBox b.start b.extent (placeAt sizes j) = true := by
        rw [hb.mem_indices, hb.inBox_iff (length_placeAt sizes j), and_iff_right hj]
      have hseen : (fill (strides sizes) elements b)[j]? =
          some (if inBox b.start b.extent (placeAt sizes j) then b.value else e) := by
        rw [hfill, he]
        by_cases hin : inBox b.start b.extent (placeAt sizes j) = true
        · rw [if_pos (hiff.2 hin), if_pos hin]
        · rw [if_neg (hiff.not.2 hin), if_neg hin]
      exact ih hrest ((size_fill _ _ b).trans hsize) hseen

/-- Filling boxes paints them. -/
theorem fillBoxes_eq_paint (hboxes : ∀ b ∈ boxes, b.Lies sizes) :
    fillBoxes sizes common boxes = paint sizes common boxes := by
  have hlength : (fillBoxes sizes common boxes).length = volume sizes :=
    (fillBoxes_all (P := fun _ => True) trivial fun _ _ => trivial).1
  refine List.ext_getElem? fun j => ?_
  rcases Nat.lt_or_ge j (volume sizes) with hj | hj
  · have hempty : (Array.replicate (volume sizes) common)[j]? = some common := by
      rw [Array.getElem?_replicate, if_pos hj]
    rw [getElem?_paint hj, fillBoxes, Array.getElem?_toList,
      getElem?_foldl_fill hboxes Array.size_replicate hj hempty]
  · rw [List.getElem?_eq_none (hlength ▸ hj), List.getElem?_eq_none (length_paint ▸ hj)]

end MotionMetadata.Grid
