import MotionMetadata.Grid.Runs
import MotionMetadata.Proofs.Boxes
import MotionMetadata.Proofs.Places

/-!
# Boxes coordinate by coordinate

Whether a place is in a box, whether a box is in an array, and where its next layer starts and
ends are each decided one dimension at a time. The definitions walk down the lists; here they
are read off the coordinates, so that a proof about the pass does not have to walk again.

A box that the pass works on is `Shaped`: it is one element thick along the dimensions before
the one it grows in, and along all dimensions but the last it stays inside the array. The last
one is left out on purpose. A box grows along its row as long as its elements are equal, and
nothing in that looks at where the row ends.
-/

namespace MotionMetadata.Grid

variable {sizes start extent place place' : List Nat} {n m : Nat}

/-- The first coordinates of two places are the same. -/
def Agree (m : Nat) (p q : List Nat) : Prop := ∀ k < m, p.getD k 0 = q.getD k 0

theorem take_eq_take_iff {p q : List Nat} (hlength : p.length = q.length) :
    p.take m = q.take m ↔ Agree m p q := by
  constructor
  · intro h k hk
    have hget := congrArg (fun l => l.getD k 0) h
    simpa only [List.getD_eq_getElem?_getD, List.getElem?_take_of_lt hk] using hget
  · intro h
    refine ext_getD (by rw [List.length_take, List.length_take, hlength]) fun k hk => ?_
    rw [List.length_take] at hk
    have hkm : k < m := by omega
    simpa only [List.getD_eq_getElem?_getD, List.getElem?_take_of_lt hkm] using h k hkm

theorem agree_placeAt_between {i k j : Nat} (hik : i ≤ k) (hkj : k ≤ j)
    (h : Agree m (placeAt sizes i) (placeAt sizes j)) :
    Agree m (placeAt sizes k) (placeAt sizes i) := by
  rw [← take_eq_take_iff (by rw [length_placeAt, length_placeAt])] at h ⊢
  exact take_placeAt_between hik hkj h

/-! ## Boxes and arrays -/

theorem inBox_iff (hstart : start.length = n) (hextent : extent.length = n)
    (hplace : place.length = n) :
    inBox start extent place = true ↔ ∀ k < n, start.getD k 0 ≤ place.getD k 0 ∧
      place.getD k 0 < start.getD k 0 + extent.getD k 0 := by
  induction n generalizing start extent place with
  | zero =>
      rw [List.eq_nil_of_length_eq_zero hstart]
      simp [inBox]
  | succ n ih =>
      match start, extent, place, hstart, hextent, hplace with
      | s :: start, e :: extent, p :: place, hstart, hextent, hplace =>
          rw [inBox, Bool.and_eq_true, Bool.and_eq_true, decide_eq_true_iff, decide_eq_true_iff,
            ih (Nat.succ.inj hstart) (Nat.succ.inj hextent) (Nat.succ.inj hplace),
            Nat.forall_lt_succ_left']
          simp

theorem fitsInside_iff (hsizes : sizes.length = n) (hstart : start.length = n)
    (hextent : extent.length = n) :
    fitsInside sizes start extent = true ↔ ∀ k < n, 0 < extent.getD k 0 ∧
      start.getD k 0 + extent.getD k 0 ≤ sizes.getD k 0 := by
  induction n generalizing sizes start extent with
  | zero =>
      rw [List.eq_nil_of_length_eq_zero hsizes]
      simp [fitsInside]
  | succ n ih =>
      match sizes, start, extent, hsizes, hstart, hextent with
      | size :: sizes, s :: start, e :: extent, hsizes, hstart, hextent =>
          rw [fitsInside, Bool.and_eq_true, Bool.and_eq_true, decide_eq_true_iff,
            decide_eq_true_iff,
            ih (Nat.succ.inj hsizes) (Nat.succ.inj hstart) (Nat.succ.inj hextent),
            Nat.forall_lt_succ_left']
          simp

/-! ## How a box is seen -/

theorem lastLayers_congr {limit : Nat} (h : place.take limit = place'.take limit) :
    lastLayers limit start extent place = lastLayers limit start extent place' := by
  induction limit generalizing start extent place place' with
  | zero => rfl
  | succ limit ih =>
      match start, extent, place, place' with
      | [], _, _, _ => rfl
      | _ :: _, [], _, _ => rfl
      | _ :: _, _ :: _, [], [] => rfl
      | _ :: _, _ :: _, [], _ :: _ => cases h
      | _ :: _, _ :: _, _ :: _, [] => cases h
      | s :: start, e :: extent, p :: place, p' :: place' =>
          injection h with hfirst hrest
          subst hfirst
          rw [lastLayers, lastLayers, ih hrest]

theorem lastLayers_past {limit count : Nat}
    (h : lastLayers limit start extent place = (count, true)) :
    count < limit ∧ lastLayers count start extent place = (count, false) := by
  induction limit generalizing start extent place count with
  | zero => cases h
  | succ limit ih =>
      match start, extent, place with
      | [], _, _ => cases h
      | _ :: _, [], _ => cases h
      | _ :: _, _ :: _, [] => cases h
      | s :: start, e :: extent, p :: place =>
          rw [lastLayers] at h
          split at h
          · injection h with hcount _
            subst hcount
            exact ⟨Nat.succ_pos _, rfl⟩
          · next hnot =>
              split at h
              · cases h
              · next hlast =>
                  injection h with hcount hpast
                  obtain ⟨hlt, hagain⟩ := ih (Prod.ext rfl hpast)
                  subst hcount
                  refine ⟨Nat.succ_lt_succ hlt, ?_⟩
                  rw [lastLayers, if_neg hnot, if_neg hlast, hagain]

namespace OpenBox

variable {b : OpenBox}

/-- Seeing a box changes nothing but which dimension it looks to grow along, and that one only
for an earlier one. -/
theorem seenFrom_cases (b : OpenBox) (place : List Nat) :
    b.seenFrom place = b ∨ ∃ count, count < b.growing ∧
      b.seenFrom place = { b with rank := b.dimensions - count - 1 } ∧
      lastLayers count b.box.start b.box.extent place = (count, false) := by
  rw [seenFrom]
  cases hlast : lastLayers (b.dimensions - (b.rank + 1)) b.box.start b.box.extent place with
  | mk count past =>
      cases past with
      | false => exact .inl rfl
      | true =>
          obtain ⟨hlt, hagain⟩ := lastLayers_past hlast
          exact .inr ⟨count, by rw [growing, Nat.sub_sub]; exact hlt, rfl, hagain⟩

theorem seenFrom_congr (h : place.take b.growing = place'.take b.growing) :
    b.seenFrom place = b.seenFrom place' := by
  rw [growing, Nat.sub_sub] at h
  rw [seenFrom, seenFrom, lastLayers_congr h]

/-- Seen twice from the same place a box is the same. -/
theorem seenFrom_seenFrom (b : OpenBox) (place : List Nat) :
    (b.seenFrom place).seenFrom place = b.seenFrom place := by
  rcases b.seenFrom_cases place with h | ⟨count, hlt, h, hagain⟩
  · rw [h, h]
  · have hdims : count < b.dimensions := by
      rw [growing] at hlt
      omega
    rw [h, seenFrom]
    have hlimit : OpenBox.dimensions { b with rank := b.dimensions - count - 1 } -
        (b.dimensions - count - 1 + 1) = count := by
      show b.dimensions - _ = count
      omega
    dsimp only
    rw [hlimit, hagain]
    rfl

theorem parent_seenFrom (b : OpenBox) (place : List Nat) :
    (b.seenFrom place).parent = b.parent := by
  rcases b.seenFrom_cases place with h | ⟨_, _, h, _⟩ <;> rw [h]

theorem rank_seenFrom (b : OpenBox) (place : List Nat) : b.rank ≤ (b.seenFrom place).rank := by
  rcases b.seenFrom_cases place with h | ⟨count, hlt, h, _⟩
  · rw [h]
  · rw [h]
    rw [growing] at hlt
    show b.rank ≤ b.dimensions - count - 1
    omega

/-! ## The next layer -/

theorem length_nextLayerStart (b : OpenBox) : b.nextLayerStart.length = b.box.start.length :=
  List.length_mapIdx

theorem length_nextLayerEnd (b : OpenBox) : b.nextLayerEnd.length = b.box.start.length :=
  List.length_mapIdx

theorem getD_nextLayerStart {k : Nat} (hk : k < b.box.start.length) :
    b.nextLayerStart.getD k 0 =
      if k = b.growing then b.box.start.getD k 0 + b.box.extent.getD k 0
      else b.box.start.getD k 0 := by
  rw [List.getD_eq_getElem _ _ (by rwa [length_nextLayerStart]), List.getD_eq_getElem _ _ hk]
  exact List.getElem_mapIdx

theorem getD_nextLayerEnd {k : Nat} (hk : k < b.box.start.length) :
    b.nextLayerEnd.getD k 0 =
      if k = b.growing then b.box.start.getD k 0 + b.box.extent.getD k 0
      else b.box.start.getD k 0 + b.box.extent.getD k 0 - 1 := by
  rw [List.getD_eq_getElem _ _ (by rwa [length_nextLayerEnd]), List.getD_eq_getElem _ _ hk]
  exact List.getElem_mapIdx

theorem getD_modify {l : List Nat} {i k : Nat} (hk : k < l.length) :
    (l.modify i (· + 1)).getD k 0 = if k = i then l.getD k 0 + 1 else l.getD k 0 := by
  rw [List.getD_eq_getElem _ _ (by rwa [List.length_modify]), List.getD_eq_getElem _ _ hk,
    List.getElem_modify]
  by_cases h : i = k
  · rw [if_pos h, if_pos h.symm]
  · rw [if_neg h, if_neg (Ne.symm h)]

/-- A place is in the next layer of a box. -/
def InNextLayer (b : OpenBox) (place : List Nat) : Prop :=
  ∀ k < b.dimensions, b.nextLayerStart.getD k 0 ≤ place.getD k 0 ∧
    place.getD k 0 ≤ b.nextLayerEnd.getD k 0

/-- What a pass can rely on about a box in an array with rows behind some dimensions: it is
one element thick before the dimension it grows in, and inside along all but the last. -/
structure Shaped (front : List Nat) (b : OpenBox) : Prop where
  start : b.box.start.length = front.length + 1
  extent : b.box.extent.length = front.length + 1
  rank : b.rank ≤ front.length
  pos : ∀ k ≤ front.length, 0 < b.box.extent.getD k 0
  thin : ∀ k < b.growing, b.box.extent.getD k 0 = 1
  inside : ∀ k < front.length,
    b.box.start.getD k 0 + b.box.extent.getD k 0 ≤ front.getD k 0

section Shaped

variable {front : List Nat} {c : Nat}

theorem Shaped.growing_eq (h : b.Shaped front) : b.growing = front.length - b.rank := by
  rw [growing, dimensions, h.start]
  omega

theorem Shaped.seenFrom (h : b.Shaped front) (place : List Nat) :
    (b.seenFrom place).Shaped front := by
  rcases b.seenFrom_cases place with hsame | ⟨count, hlt, hseen, _⟩
  · rw [hsame]
    exact h
  · rw [hseen]
    have hgrowing := h.growing_eq
    have hdims : b.dimensions = front.length + 1 := h.start
    refine ⟨h.start, h.extent, ?_, h.pos, fun k hk => h.thin k ?_, h.inside⟩
    · show b.dimensions - count - 1 ≤ _
      omega
    · have hnew : OpenBox.growing { b with rank := b.dimensions - count - 1 } = count := by
        show b.dimensions - (b.dimensions - count - 1) - 1 = count
        omega
      omega

theorem Shaped.mem_iff (h : b.Shaped front) (hplace : place.length = front.length + 1) :
    inBox b.box.start b.box.extent place = true ↔ ∀ k ≤ front.length,
      b.box.start.getD k 0 ≤ place.getD k 0 ∧
        place.getD k 0 < b.box.start.getD k 0 + b.box.extent.getD k 0 := by
  rw [inBox_iff h.start h.extent hplace]
  simp only [Nat.lt_succ_iff]

theorem Shaped.getD_extended (h : b.Shaped front) {k : Nat} (hk : k ≤ front.length) :
    b.extended.box.extent.getD k 0 =
      if k = b.growing then b.box.extent.getD k 0 + 1 else b.box.extent.getD k 0 :=
  getD_modify (by rw [h.extent]; omega)

/-- A box may take its next layer if that starts inside the array. -/
theorem Shaped.extended (h : b.Shaped front)
    (hnext : ∀ k < front.length, b.nextLayerStart.getD k 0 < front.getD k 0) :
    b.extended.Shaped front := by
  have hgrowing := h.growing_eq
  refine ⟨h.start, ?_, h.rank, fun k hk => ?_, fun k hk => ?_, fun k hk => ?_⟩
  · show (b.box.extent.modify b.growing (· + 1)).length = _
    rw [List.length_modify, h.extent]
  · rw [h.getD_extended hk]
    have := h.pos k hk
    split <;> omega
  · have hkg : k < b.growing := hk
    rw [h.getD_extended (by omega), if_neg (by omega)]
    exact h.thin k hkg
  · have hstart := hnext k hk
    rw [getD_nextLayerStart (by rw [h.start]; omega)] at hstart
    have hinside := h.inside k hk
    rw [h.getD_extended (Nat.le_of_lt hk)]
    show b.box.start.getD k 0 + _ ≤ _
    split
    · next hkg =>
        rw [if_pos hkg] at hstart
        omega
    · exact hinside

/-- A box with one more layer is the box and the layer. -/
theorem Shaped.mem_extended (h : b.Shaped front) (hplace : place.length = front.length + 1) :
    inBox b.extended.box.start b.extended.box.extent place = true ↔
      inBox b.box.start b.box.extent place = true ∨ b.InNextLayer place := by
  have hgrowing := h.growing_eq
  have hdims : b.dimensions = front.length + 1 := h.start
  have hextended : inBox b.extended.box.start b.extended.box.extent place = true ↔
      ∀ k ≤ front.length, b.box.start.getD k 0 ≤ place.getD k 0 ∧
        place.getD k 0 < b.box.start.getD k 0 + b.extended.box.extent.getD k 0 := by
    show inBox b.box.start _ place = true ↔ _
    rw [inBox_iff h.start _ hplace]
    · simp only [Nat.lt_succ_iff]
    · show (b.box.extent.modify b.growing (· + 1)).length = _
      rw [List.length_modify, h.extent]
  rw [hextended, h.mem_iff hplace, InNextLayer, hdims]
  constructor
  · intro hin
    by_cases hold :
        place.getD b.growing 0 < b.box.start.getD b.growing 0 + b.box.extent.getD b.growing 0
    · refine .inl fun k hk => ⟨(hin k hk).1, ?_⟩
      by_cases hkg : k = b.growing
      · rw [hkg]
        exact hold
      · have := (hin k hk).2
        rwa [h.getD_extended hk, if_neg hkg] at this
    · refine .inr fun k hk => ?_
      have hk' : k ≤ front.length := Nat.le_of_lt_succ hk
      obtain ⟨hlow, hhigh⟩ := hin k hk'
      have hpos := h.pos k hk'
      rw [h.getD_extended hk'] at hhigh
      rw [getD_nextLayerStart (by rw [h.start]; exact hk),
        getD_nextLayerEnd (by rw [h.start]; exact hk)]
      by_cases hkg : k = b.growing
      · rw [if_pos hkg] at hhigh ⊢
        rw [if_pos hkg]
        subst hkg
        omega
      · rw [if_neg hkg] at hhigh ⊢
        rw [if_neg hkg]
        omega
  · rintro (hin | hlayer) k hk
    · obtain ⟨hlow, hhigh⟩ := hin k hk
      refine ⟨hlow, ?_⟩
      rw [h.getD_extended hk]
      split <;> omega
    · obtain ⟨hlow, hhigh⟩ := hlayer k (Nat.lt_succ_of_le hk)
      have hpos := h.pos k hk
      rw [getD_nextLayerStart (by rw [h.start]; omega)] at hlow
      rw [getD_nextLayerEnd (by rw [h.start]; omega)] at hhigh
      rw [h.getD_extended hk]
      by_cases hkg : k = b.growing
      · rw [if_pos hkg] at hlow hhigh ⊢
        omega
      · rw [if_neg hkg] at hlow hhigh ⊢
        omega

/-- Along the last dimension the box goes beyond the array. -/
def Overflows (front : List Nat) (c : Nat) (b : OpenBox) : Prop :=
  c < b.box.start.getD front.length 0 + b.box.extent.getD front.length 0

/-- A layer that starts at an element ends at one, and up to the dimension the box grows in the
two agree, unless the box is beyond the array along its rows. -/
theorem Shaped.exists_layerEnd (h : b.Shaped front) {a : Nat} (ha : a < volume (front ++ [c]))
    (hnext : b.nextLayerStart = placeAt (front ++ [c]) a) (hfits : ¬ b.Overflows front c) :
    ∃ l, a ≤ l ∧ l < volume (front ++ [c]) ∧ b.nextLayerEnd = placeAt (front ++ [c]) l ∧
      Agree (b.growing + 1) (placeAt (front ++ [c]) a) (placeAt (front ++ [c]) l) := by
  have hgrowing := h.growing_eq
  have hlength : (front ++ [c]).length = front.length + 1 := by simp
  have hinside : ∀ k < (front ++ [c]).length,
      b.nextLayerEnd.getD k 0 < (front ++ [c]).getD k 0 := by
    intro k hk
    rw [hlength] at hk
    have hpos := h.pos k (Nat.le_of_lt_succ hk)
    rw [getD_nextLayerEnd (by rw [h.start]; exact hk)]
    by_cases hkg : k = b.growing
    · have hplace := placeAt_lt ha k (by rw [hlength]; exact hk)
      rw [← hnext, getD_nextLayerStart (by rw [h.start]; exact hk), if_pos hkg] at hplace
      rwa [if_pos hkg]
    · rw [if_neg hkg]
      by_cases hlast : k < front.length
      · rw [List.getD_append _ _ _ _ hlast]
        have := h.inside k hlast
        omega
      · have hk' : k = front.length := by omega
        subst hk'
        rw [Overflows] at hfits
        rw [List.getD_append_right _ _ _ _ (Nat.le_refl _), Nat.sub_self]
        show _ < c
        omega
  obtain ⟨l, hl, hend⟩ := exists_placeAt
    (by rw [length_nextLayerEnd, h.start, hlength]) hinside
  refine ⟨l, le_of_placeAt_le ha fun k hk => ?_, hl, hend.symm, fun k hk => ?_⟩
  · rw [hlength] at hk
    have hpos := h.pos k (Nat.le_of_lt_succ hk)
    rw [hend, ← hnext, getD_nextLayerStart (by rw [h.start]; exact hk),
      getD_nextLayerEnd (by rw [h.start]; exact hk)]
    split <;> omega
  · have hk' : k < b.box.start.length := by
      rw [h.start]
      omega
    rw [hend, ← hnext, getD_nextLayerStart hk', getD_nextLayerEnd hk']
    by_cases hkg : k = b.growing
    · rw [if_pos hkg, if_pos hkg]
    · rw [if_neg hkg, if_neg hkg, h.thin k (by omega)]
      rfl

end Shaped

end OpenBox

end MotionMetadata.Grid
