import MotionMetadata.Proofs.RunBoxes

/-!
# Painting an array with its boxes

The boxes found in an array hold nothing that the array does not hold at the same places, so
painting them over one another in any order gives the array wherever it is covered, and the
common element elsewhere. Two things can go wrong, and both come from a bar that went on over
the end of a row: it stays and ends outside, or it becomes a layer that has room for a part of
it only. `Fit` and `Cover` say that neither happened. With two dimensions or fewer neither can,
and neither can where every row begins with something else than the row before it ended on.
-/

namespace MotionMetadata.Grid

variable {sizes : List Nat} {elements : List Value} {common : Value} {boxes : List Box}

/-- All boxes end inside the array. -/
def Fit (sizes : List Nat) (boxes : List Box) : Prop :=
  ∀ b ∈ boxes, fitsInside sizes b.start b.extent = true

/-- Every element that is not the common one is in a box. -/
def Cover (sizes : List Nat) (elements : List Value) (common : Value) (boxes : List Box) : Prop :=
  ∀ j e, elements[j]? = some e → e ≠ common →
    ∃ b ∈ boxes, inBox b.start b.extent (placeAt sizes j) = true

/-- No box has a place where the array has another element than the box. -/
def Faithful (sizes : List Nat) (elements : List Value) (boxes : List Box) : Prop :=
  ∀ b ∈ boxes, ∀ j e, elements[j]? = some e →
    inBox b.start b.extent (placeAt sizes j) = true → b.value = e

/-! ## What is painted -/

/-- Where all boxes with a place hold one element, that is what is painted there. -/
theorem paintedAt_eq {e : Value} {place : List Nat}
    (h : ∀ b ∈ boxes, inBox b.start b.extent place = true → b.value = e) :
    paintedAt common boxes place =
      if boxes.any (fun b => inBox b.start b.extent place) then e else common := by
  rw [paintedAt]
  induction boxes generalizing common with
  | nil => rfl
  | cons b rest ih =>
      obtain ⟨hb, hrest⟩ := List.forall_mem_cons.1 h
      rw [List.foldl_cons, ih hrest, List.any_cons]
      by_cases hin : inBox b.start b.extent place = true
      · rw [if_pos hin, hb hin, hin, Bool.true_or, if_pos rfl, ite_self]
      · rw [if_neg hin, Bool.eq_false_iff.2 hin, Bool.false_or]

theorem length_paint : (paint sizes common boxes).length = volume sizes := by
  rw [paint, List.length_map, List.length_range]

theorem getElem?_paint {j : Nat} (hj : j < volume sizes) :
    (paint sizes common boxes)[j]? = some (paintedAt common boxes (placeAt sizes j)) := by
  rw [paint, List.getElem?_map, List.getElem?_range hj]
  rfl

section Faithful

variable (hcount : elements.length = volume sizes) (hfaithful : Faithful sizes elements boxes)

include hcount hfaithful

theorem getElem?_paint_of_faithful {j : Nat} {e : Value} (he : elements[j]? = some e) :
    (paint sizes common boxes)[j]? =
      some (if boxes.any (fun b => inBox b.start b.extent (placeAt sizes j)) then e
        else common) := by
  have hj : j < elements.length := (List.getElem?_eq_some_iff.1 he).1
  rw [getElem?_paint (hcount ▸ hj), paintedAt_eq fun b hb => hfaithful b hb j e he]

/-- An array is painted right if and only if it is covered. -/
theorem paint_eq_iff : paint sizes common boxes = elements ↔ Cover sizes elements common boxes := by
  constructor
  · intro hpaint j e he hne
    have hpainted : (paint sizes common boxes)[j]? = _ :=
      getElem?_paint_of_faithful hcount hfaithful he
    rw [hpaint, he] at hpainted
    by_cases hany : boxes.any (fun b => inBox b.start b.extent (placeAt sizes j)) = true
    · exact List.any_eq_true.1 hany
    · rw [if_neg hany] at hpainted
      exact absurd (Option.some.inj hpainted) hne
  · intro hcover
    refine List.ext_getElem? fun j => ?_
    rcases Nat.lt_or_ge j elements.length with hj | hj
    · have he := List.getElem?_eq_getElem hj
      rw [getElem?_paint_of_faithful hcount hfaithful he, he]
      by_cases hne : elements[j] = common
      · rw [hne, ite_self]
      · rw [if_pos (List.any_eq_true.2 (hcover j _ he hne))]
    · have hend : (paint sizes common boxes).length ≤ j := by
        rw [length_paint, ← hcount]
        exact hj
      rw [List.getElem?_eq_none hj, List.getElem?_eq_none hend]

end Faithful

/-! ## The boxes that are found -/

/-- Of the boxes that a pass leaves those fit that do not end beyond their rows. -/
theorem Rows.Sound.fitsInside_iff {r : Rows} {whole : Prop} {i : Nat} {b : OpenBox}
    (h : r.Sound whole i b) :
    fitsInside (r.front ++ [r.columns]) b.box.start b.box.extent = true ↔
      ¬ b.Overflows r.front r.columns := by
  rw [Grid.fitsInside_iff (by simp) h.shaped.start h.shaped.extent, OpenBox.Overflows, not_lt]
  have hlast : (r.front ++ [r.columns]).getD r.front.length 0 = r.columns := by
    rw [List.getD_append_right _ _ _ _ (Nat.le_refl _), Nat.sub_self]
    rfl
  constructor
  · intro hin
    have := (hin r.front.length (Nat.lt_succ_self _)).2
    rwa [hlast] at this
  · intro hfits k hk
    refine ⟨h.shaped.pos k (Nat.le_of_lt_succ hk), ?_⟩
    by_cases hk' : k < r.front.length
    · rw [List.getD_append _ _ _ _ hk']
      exact h.shaped.inside k hk'
    · have hlastIndex : k = r.front.length := by omega
      rw [hlastIndex, hlast]
      exact hfits

section Found

variable (hsizes : sizes ≠ []) (hcount : elements.length = volume sizes)
  (hdiscrete : ∀ e ∈ elements, e.Discrete) (hcommon : common.Discrete)

include hsizes hcount hdiscrete hcommon

/-- An array with dimensions has rows. -/
theorem exists_rows : ∃ r : Rows, r.front ++ [r.columns] = sizes ∧ r.elements = elements ∧
    r.common = common := by
  have hsplit := List.dropLast_concat_getLast hsizes
  exact ⟨⟨sizes.dropLast, sizes.getLast hsizes, elements, common, by rw [hsplit, hcount], hdiscrete,
    hcommon⟩, hsplit, rfl, rfl⟩

/-- A box that is found has a place and an extent along every dimension. -/
theorem findBoxes_dimensions {b : Box} (hb : b ∈ findBoxes sizes elements common) :
    b.start.length = sizes.length ∧ b.extent.length = sizes.length := by
  obtain ⟨r, rfl, rfl, rfl⟩ := exists_rows hsizes hcount hdiscrete hcommon
  obtain ⟨openBox, rfl, hsound⟩ := (r.findBoxes_spec fun h : False => h.elim).1 b hb
  rw [hsound.shaped.start, hsound.shaped.extent, List.length_append, List.length_singleton]
  exact ⟨rfl, rfl⟩

theorem findBoxes_faithful : Faithful sizes elements (findBoxes sizes elements common) := by
  obtain ⟨r, rfl, rfl, rfl⟩ := exists_rows hsizes hcount hdiscrete hcommon
  intro b hb j e he hin
  obtain ⟨openBox, rfl, hsound⟩ := (r.findBoxes_spec fun h : False => h.elim).1 b hb
  have hvalue := (hsound.holds j (List.getElem?_eq_some_iff.1 he).1 hin).2
  rw [he] at hvalue
  exact (Option.some.inj hvalue).symm

/-- Where no bar can go on over the end of a row, the boxes fit and cover the array. -/
theorem findBoxes_whole
    (h : sizes.length ≤ 2 ∨ Separate (sizes.getLast hsizes) elements common) :
    Fit sizes (findBoxes sizes elements common) ∧
      Cover sizes elements common (findBoxes sizes elements common) := by
  obtain ⟨r, rfl, rfl, rfl⟩ := exists_rows hsizes hcount hdiscrete hcommon
  have hcarry : True → ∀ i k a b p, r.Open True i k a b p →
      r.elements[i]? = some b.box.value → i % r.columns ≠ 0 := by
    intro _ i k a b p hopen he
    rcases h with hfew | hseparate
    · rw [List.length_append, List.length_singleton] at hfew
      exact hopen.not_carried trivial (by omega)
    · rw [List.getLast_concat] at hseparate
      exact hopen.not_carried_of_separate hseparate he
  obtain ⟨hboxes, hcovered⟩ := r.findBoxes_spec hcarry
  refine ⟨fun b hb => ?_, hcovered trivial⟩
  obtain ⟨openBox, rfl, hsound⟩ := hboxes b hb
  exact hsound.fitsInside_iff.2 (hsound.fits trivial)

end Found

end MotionMetadata.Grid
