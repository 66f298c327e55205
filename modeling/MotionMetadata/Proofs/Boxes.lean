import MotionMetadata.Grid.Runs

/-!
# The boxes of an array are small

An array with few different elements is written as boxes, whose places and extents take the
form of tags. A tag has 56 bits and no number it is made from has a bound of its own, so that
such an array can be written at all has to come from how the boxes are found. It comes from
counting: a step of the pass begins one box at most, and a box grows by one where it takes an
element or a layer, which happens no more than once for each box there is. With the elements
that an array may have that is far below the limit, and the count can stay crude.

The other half is that the pass makes nothing up. Every box holds an element of the array, and
so does the common element that the boxes are drawn on.
-/

namespace MotionMetadata.Grid

variable {P : Value → Prop} {top count reach : Nat}

/-- A box of an element with the property, that starts before `top` along every dimension and
extends no further than `reach`. -/
structure Box.Within (P : Value → Prop) (top reach : Nat) (b : Box) : Prop where
  value : P b.value
  start : ∀ s ∈ b.start, s ≤ top
  extent : ∀ n ∈ b.extent, n ≤ reach

theorem Box.Within.mono {b : Box} {reach' : Nat} (h : b.Within P top reach)
    (hle : reach ≤ reach') : b.Within P top reach' :=
  ⟨h.value, h.start, fun n hn => Nat.le_trans (h.extent n hn) hle⟩

/-- Counting one of the extents up. -/
theorem Box.Within.grown {b : Box} (h : b.Within P top reach) (i : Nat) :
    Box.Within P top (reach + 1) { b with extent := b.extent.modify i (· + 1) } := by
  refine ⟨h.value, h.start, fun n hn => ?_⟩
  obtain ⟨j, hj, rfl⟩ := List.mem_iff_getElem.1 hn
  rw [List.length_modify] at hj
  have hle := h.extent _ (List.getElem_mem hj)
  rw [List.getElem_modify]
  split
  · exact Nat.succ_le_succ hle
  · exact Nat.le_succ_of_le hle

theorem OpenBox.seenFrom_box (b : OpenBox) (place : List Nat) : (b.seenFrom place).box = b.box := by
  rw [seenFrom]
  split
  · split <;> rfl

namespace Pass

variable {p : Pass}

/-- A pass that has begun so many boxes at most, all of them within their bounds. -/
structure Within (P : Value → Prop) (top count reach : Nat) (p : Pass) : Prop where
  few : p.boxes.length ≤ count
  boxes : ∀ b, some b ∈ p.boxes → b.box.Within P top reach

theorem Within.mono {count' reach' : Nat} (h : p.Within P top count reach)
    (hcount : count ≤ count') (hreach : reach ≤ reach') : p.Within P top count' reach' :=
  ⟨Nat.le_trans h.few hcount, fun b hb => (h.boxes b hb).mono hreach⟩

theorem at?_mem {i : Nat} {b : OpenBox} (h : p.at? i = some b) : some b ∈ p.boxes := by
  rw [at?, List.getD_eq_getElem?_getD] at h
  cases hi : p.boxes[i]? with
  | none =>
      rw [hi] at h
      cases h
  | some slot =>
      rw [hi] at h
      have hslot : slot = some b := h
      exact hslot ▸ List.mem_of_getElem? hi

theorem Within.at? (h : p.Within P top count reach) {i : Nat} {b : OpenBox}
    (hb : p.at? i = some b) : b.box.Within P top reach :=
  h.boxes b (at?_mem hb)

theorem Within.put (h : p.Within P top count reach) (i : Nat) (slot : Option OpenBox)
    (hslot : ∀ b, slot = some b → b.box.Within P top reach) :
    (p.put i slot).Within P top count reach := by
  refine ⟨?_, fun b hb => ?_⟩
  · rw [Pass.put, List.length_set]
    exact h.few
  · rcases List.mem_or_eq_of_mem_set hb with hb | hb
    · exact h.boxes b hb
    · exact hslot b hb.symm

theorem Within.interrupt (h : p.Within P top count reach) :
    p.interrupt.Within P top count reach := by
  rw [Pass.interrupt]
  split
  · exact h
  · next i _ =>
      split
      · next b hb =>
          have hbox : b.box.Within P top reach := h.at? hb
          have hput := h.put i (some { b with parent := none }) fun b' hb' => by
            injection hb' with hb'
            exact hb' ▸ hbox
          exact ⟨hput.few, hput.boxes⟩
      · exact ⟨h.few, h.boxes⟩

/-- A box that becomes a layer costs its parent one, and no box becomes a layer twice. -/
theorem Within.absorb (fuel child : Nat) (h : p.Within P top count reach) :
    (Pass.absorb fuel child p).Within P top count (reach + fuel) := by
  induction fuel generalizing child p reach with
  | zero => exact h
  | succ fuel ih =>
      rw [Pass.absorb]
      split
      · exact h.mono (Nat.le_refl _) (Nat.le_add_right _ _)
      · next parent _ =>
          split
          · exact h.mono (Nat.le_refl _) (Nat.le_add_right _ _)
          · next b hb =>
              have hseen : (b.seenFrom p.place).box.Within P top reach := by
                rw [OpenBox.seenFrom_box]
                exact h.at? hb
              dsimp only
              split
              · have hlarger := h.mono (Nat.le_refl count) (Nat.le_succ reach)
                have hparent := hlarger.put parent (some (b.seenFrom p.place).extended)
                  fun b' hb' => by
                    injection hb' with hb'
                    exact hb' ▸ hseen.grown _
                have hgone := hparent.put child none fun b' hb' => nomatch hb'
                exact (ih parent hgone).mono (Nat.le_refl _) (by omega)
              · refine (h.put parent (some (b.seenFrom p.place)) fun b' hb' => ?_).mono
                  (Nat.le_refl _) (Nat.le_add_right _ _)
                injection hb' with hb'
                exact hb' ▸ hseen

theorem Within.complete (h : p.Within P top count reach) :
    p.complete.Within P top count (reach + count) := by
  rw [Pass.complete]
  split
  · exact h.mono (Nat.le_refl _) (Nat.le_add_right _ _)
  · next child _ =>
      have hidle : Pass.Within P top count reach { p with current := none } := ⟨h.few, h.boxes⟩
      exact (hidle.absorb p.boxes.length child).mono (Nat.le_refl _)
        (Nat.add_le_add_left h.few _)

theorem findParent_within (element : Value) (place : List Nat) (index : Nat)
    (slots : List (Option OpenBox)) (h : ∀ b, some b ∈ slots → b.box.Within P top reach) :
    (findParent element place index slots).1.length = slots.length ∧
      ∀ b, some b ∈ (findParent element place index slots).1 → b.box.Within P top reach := by
  induction slots generalizing index with
  | nil => exact ⟨rfl, h⟩
  | cons slot rest ih =>
      obtain ⟨hlength, hboxes⟩ := ih (index + 1) fun b hb => h b (List.mem_cons_of_mem _ hb)
      cases slot with
      | none =>
          rw [findParent]
          refine ⟨congrArg (· + 1) hlength, fun b hb => ?_⟩
          rcases List.mem_cons.1 hb with hb | hb
          · cases hb
          · exact hboxes b hb
      | some first =>
          have hfirst : (first.seenFrom place).box.Within P top reach := by
            rw [OpenBox.seenFrom_box]
            exact h first (List.mem_cons_self ..)
          rw [findParent]
          dsimp only
          split
          · refine ⟨rfl, fun b hb => ?_⟩
            rcases List.mem_cons.1 hb with hb | hb
            · injection hb with hb
              exact hb ▸ hfirst
            · exact h b (List.mem_cons_of_mem _ hb)
          · refine ⟨congrArg (· + 1) hlength, fun b hb => ?_⟩
            rcases List.mem_cons.1 hb with hb | hb
            · injection hb with hb
              exact hb ▸ hfirst
            · exact hboxes b hb

theorem Within.begin (h : p.Within P top count reach) {element : Value} {place : List Nat}
    (helement : P element) (hplace : ∀ s ∈ place, s ≤ top) (hreach : 1 ≤ reach) :
    (p.begin element place).Within P top (count + 1) reach := by
  obtain ⟨hlength, hboxes⟩ := findParent_within element place 0 p.boxes h.boxes
  rw [Pass.begin]
  refine ⟨?_, fun b hb => ?_⟩
  · rw [List.length_append, hlength]
    exact Nat.succ_le_succ h.few
  · rcases List.mem_append.1 hb with hb | hb
    · exact hboxes b hb
    · injection List.mem_singleton.1 hb with hb
      subst hb
      refine ⟨helement, hplace, fun n hn => ?_⟩
      obtain ⟨_, _, rfl⟩ := List.mem_map.1 hn
      exact hreach

theorem Within.grow (h : p.Within P top count reach) {element : Value} {place : List Nat}
    (helement : P element) (hplace : ∀ s ∈ place, s ≤ top) (hreach : 1 ≤ reach) :
    (p.grow element place).Within P top (count + 1) (reach + 1) := by
  rw [Pass.grow]
  split
  · next i b hcontinuing =>
      have hb : p.at? i = some b := by
        rw [continuing?] at hcontinuing
        obtain ⟨j, _, hcontinuing⟩ := Option.bind_eq_some_iff.1 hcontinuing
        obtain ⟨b', hb', hcontinuing⟩ := Option.bind_eq_some_iff.1 hcontinuing
        split at hcontinuing
        · injection hcontinuing with hcontinuing
          injection hcontinuing with hj hb
          exact hj ▸ hb ▸ hb'
        · cases hcontinuing
      have hput := (h.mono (Nat.le_succ count) (Nat.le_succ reach)).put i
        (some { b with box := { b.box with
          extent := b.box.extent.modify (b.dimensions - 1) (· + 1) } }) fun b' hb' => by
            injection hb' with hb'
            exact hb' ▸ (h.at? hb).grown _
      exact ⟨hput.few, hput.boxes⟩
  · exact (h.interrupt.begin helement hplace hreach).mono (Nat.le_refl _) (Nat.le_succ reach)

theorem Within.settle (h : p.Within P top count reach) (lastColumn : Nat) :
    (p.settle lastColumn).Within P top count (reach + count) := by
  have hlarger := h.mono (Nat.le_refl count) (Nat.le_add_right reach count)
  rw [Pass.settle]
  split
  · exact hlarger
  · split
    · split
      · exact h.complete
      · exact hlarger
    · next parent _ =>
        split
        · exact hlarger
        · next above habove =>
            have hput := h.put parent (some (above.seenFrom p.place)) fun b' hb' => by
              injection hb' with hb'
              rw [← hb', OpenBox.seenFrom_box]
              exact h.at? habove
            dsimp only
            split
            · exact hput.complete
            · exact hput.mono (Nat.le_refl _) (Nat.le_add_right _ _)

/-- One element costs one box, and no box more than one for each there is. -/
theorem Within.step (h : p.Within P top count reach) (common : Value) {steps : List Nat}
    (lastColumn : Nat) {indexed : Value × Nat} (helement : P indexed.1)
    (hplace : ∀ s ∈ placeOf steps indexed.2, s ≤ top) (hreach : 1 ≤ reach) :
    (p.step common steps lastColumn indexed).Within P top (count + 1)
      (reach + 1 + (count + 1)) := by
  rw [Pass.step]
  split
  · exact h.interrupt.mono (Nat.le_succ count) (by omega)
  · exact (h.grow helement hplace hreach).settle lastColumn

end Pass

theorem placeOf_le (steps : List Nat) (i : Nat) : ∀ s ∈ placeOf steps i, s ≤ i := by
  induction steps generalizing i with
  | nil => simp [placeOf]
  | cons stride rest ih =>
      intro s hs
      rcases List.mem_cons.1 hs with rfl | hs
      · exact Nat.div_le_self i stride
      · exact Nat.le_trans (ih (i % stride) s hs) (Nat.mod_le i stride)

/-- A run of the pass over some elements, of which there are `total` in all. -/
theorem Pass.Within.run {total : Nat} {common : Value} {steps : List Nat} {lastColumn : Nat}
    {items : List (Value × Nat)} (hitems : ∀ x ∈ items, P x.1 ∧ x.2 < total) {p : Pass}
    {done : Nat} (h : p.Within P total done (1 + done * (total + 2)))
    (htotal : done + items.length ≤ total) :
    (items.foldl (Pass.step common steps lastColumn) p).Within P total total
      (1 + total * (total + 2)) := by
  induction items generalizing p done with
  | nil =>
      have hdone : done ≤ total := by simpa using htotal
      exact h.mono hdone (Nat.add_le_add_left (Nat.mul_le_mul_right _ hdone) 1)
  | cons item rest ih =>
      obtain ⟨hitem, hrest⟩ := List.forall_mem_cons.1 hitems
      rw [List.length_cons] at htotal
      have hplace : ∀ s ∈ placeOf steps item.2, s ≤ total := fun s hs =>
        Nat.le_trans (placeOf_le steps item.2 s hs) (Nat.le_of_lt hitem.2)
      have hstep := h.step common lastColumn hitem.1 hplace
        (Nat.le_add_right _ _)
      refine ih hrest (hstep.mono (Nat.le_refl _) ?_) (by omega)
      rw [Nat.add_mul, Nat.one_mul]
      omega

/-- The boxes of an array hold its elements, and their numbers are bounded by how many there
are. -/
theorem findBoxes_within {sizes : List Nat} {elements : List Value} {common : Value}
    (helements : ∀ e ∈ elements, P e) :
    ∀ b ∈ findBoxes sizes elements common,
      b.Within P elements.length (1 + elements.length * (elements.length + 2) +
        elements.length) := by
  intro b hb
  rw [findBoxes] at hb
  obtain ⟨slot, hslot, hbox⟩ := List.mem_filterMap.1 hb
  cases slot with
  | none => cases hbox
  | some openBox =>
      injection hbox with hbox
      subst hbox
      have hitems : ∀ x ∈ elements.zipIdx, P x.1 ∧ x.2 < elements.length := by
        intro x hx
        obtain ⟨hlt, hget⟩ := List.mem_zipIdx' hx
        exact ⟨helements _ (hget ▸ List.getElem_mem hlt), hlt⟩
      have hinitial : Pass.Within P elements.length 0 (1 + 0 * (elements.length + 2))
          { boxes := [], current := none, place := sizes.map fun _ => 0 } :=
        ⟨Nat.le_refl 0, fun b hb => nomatch hb⟩
      exact (hinitial.run hitems (by simp)).complete.boxes openBox hslot

/-! ## The common element -/

theorem tally_all (element : Value) {counts : List (Value × Nat)} (helement : P element)
    (hcounts : ∀ c ∈ counts, P c.1) :
    tally element counts ≠ [] ∧ ∀ c ∈ tally element counts, P c.1 := by
  induction counts with
  | nil => exact ⟨by simp [tally], by simpa [tally] using helement⟩
  | cons first rest ih =>
      obtain ⟨hfirst, hrest⟩ := List.forall_mem_cons.1 hcounts
      rw [tally]
      split
      · exact ⟨by simp, List.forall_mem_cons.2 ⟨hfirst, hrest⟩⟩
      · exact ⟨by simp, List.forall_mem_cons.2 ⟨hfirst, (ih hrest).2⟩⟩

theorem foldl_tally_all {elements : List Value} (helements : ∀ e ∈ elements, P e)
    (counts : List (Value × Nat)) (hcounts : ∀ c ∈ counts, P c.1)
    (hne : counts ≠ [] ∨ elements ≠ []) :
    elements.foldl (fun counts e => tally e counts) counts ≠ [] ∧
      ∀ c ∈ elements.foldl (fun counts e => tally e counts) counts, P c.1 := by
  induction elements generalizing counts with
  | nil => exact ⟨hne.resolve_right fun h => h rfl, hcounts⟩
  | cons e rest ih =>
      obtain ⟨he, hrest⟩ := List.forall_mem_cons.1 helements
      obtain ⟨hsome, hall⟩ := tally_all e he hcounts
      exact ih hrest _ hall (.inl hsome)

theorem foldl_preferred_mem (first : Value × Nat) (rest : List (Value × Nat)) :
    rest.foldl (fun best c => if preferred c best then c else best) first ∈ first :: rest := by
  induction rest generalizing first with
  | nil => exact List.mem_singleton.2 rfl
  | cons c rest ih =>
      rw [List.foldl_cons]
      have hmem := ih (if preferred c first then c else first)
      rcases List.mem_cons.1 hmem with hmem | hmem
      · rw [hmem]
        split <;> simp
      · exact List.mem_cons_of_mem _ (List.mem_cons_of_mem _ hmem)

/-- An array that has elements has a common one, which is one of them. -/
theorem commonElement?_eq_some {elements : List Value} (hne : elements ≠ [])
    (helements : ∀ e ∈ elements, P e) :
    ∃ common, commonElement? elements = some common ∧ P common := by
  obtain ⟨hsome, hall⟩ := foldl_tally_all helements [] (by simp) (.inr hne)
  rw [commonElement?]
  cases hcounts : elements.foldl (fun counts e => tally e counts) [] with
  | nil => exact absurd hcounts hsome
  | cons first rest =>
      rw [hcounts] at hall
      exact ⟨_, rfl, hall _ (foldl_preferred_mem first rest)⟩

/-! ## Filling -/

theorem fill_all (steps : List Nat) {elements : Array Value} {b : Box}
    (helements : ∀ e ∈ elements, P e) (hb : P b.value) :
    (fill steps elements b).size = elements.size ∧ ∀ e ∈ fill steps elements b, P e := by
  rw [fill]
  induction b.indices steps generalizing elements with
  | nil => exact ⟨rfl, helements⟩
  | cons i rest ih =>
      have hset : ∀ e ∈ elements.setIfInBounds i b.value, P e := fun e he =>
        (Array.mem_or_eq_of_mem_setIfInBounds he).elim (helements e) fun h => h ▸ hb
      obtain ⟨hsize, hall⟩ := ih hset
      exact ⟨hsize.trans Array.size_setIfInBounds, hall⟩

/-- What is filled in is the common element or the element of a box. -/
theorem fillBoxes_all {sizes : List Nat} {common : Value} {boxes : List Box} (hcommon : P common)
    (hboxes : ∀ b ∈ boxes, P b.value) :
    (fillBoxes sizes common boxes).length = volume sizes ∧
      ∀ e ∈ fillBoxes sizes common boxes, P e := by
  have hfilled : ∀ elements : Array Value, (∀ e ∈ elements, P e) →
      (boxes.foldl (fill (strides sizes)) elements).size = elements.size ∧
        ∀ e ∈ boxes.foldl (fill (strides sizes)) elements, P e := by
    induction boxes with
    | nil => exact fun elements helements => ⟨rfl, helements⟩
    | cons b rest ih =>
        obtain ⟨hb, hrest⟩ := List.forall_mem_cons.1 hboxes
        intro elements helements
        obtain ⟨hsize, hall⟩ := fill_all (strides sizes) helements hb
        obtain ⟨hsize', hall'⟩ := ih hrest _ hall
        exact ⟨hsize'.trans hsize, hall'⟩
  obtain ⟨hsize, hall⟩ := hfilled (Array.replicate (volume sizes) common) fun e he =>
    Array.eq_of_mem_replicate he ▸ hcommon
  rw [fillBoxes]
  refine ⟨?_, fun e he => hall e (Array.mem_toList_iff.1 he)⟩
  rw [Array.length_toList, hsize, Array.size_replicate]

end MotionMetadata.Grid
