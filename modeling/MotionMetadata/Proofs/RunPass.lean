import MotionMetadata.Proofs.Layers

/-!
# What the pass over an array keeps true

The pass has one box at most that it works on. That one is a bar: it starts at some element
and holds every element from there to the last one taken, wherever the rows end. All others
are at rest and have no parent, so when the bar becomes a layer, nothing further becomes one.

Nothing that the pass does makes a box wrong. A bar holds equal elements, and what it gives to
its parent is a layer that starts where the bar starts and ends where it ends, so that every
element of the layer is one of the bar. The reverse does not hold. A bar that went on over the
end of a row has elements that are in no layer, or it stays what it is and is no box of the
array. So everything about elements that are not lost is said under an assumption, `whole`:
no bar goes on over the end of a row. Whether that can happen is decided afterwards, from the
same invariant.
-/

namespace MotionMetadata

/-- A number without a fraction, or a truth value. -/
inductive Value.Discrete : Value → Prop where
  | uint (n : UInt64) : Discrete (.uint n)
  | sint (n : Int64) : Discrete (.sint n)
  | bool (b : Bool) : Discrete (.bool b)

theorem Value.Discrete.equals_iff {v w : Value} (hv : v.Discrete) (hw : w.Discrete) :
    v.equals w = true ↔ v = w := by
  cases hv <;> cases hw <;> simp [Value.equals]

namespace Grid

/-! ## Slots of a pass -/

namespace Pass

variable {p : Pass} {i k : Nat} {slot : Option OpenBox}

theorem lt_of_at? {b : OpenBox} (h : p.at? k = some b) : k < p.boxes.length := by
  by_contra hk
  rw [at?, List.getD_eq_default _ _ (by omega)] at h
  cases h

theorem at?_put_self (hk : k < p.boxes.length) : (p.put k slot).at? k = slot := by
  rw [at?, put, List.getD_eq_getElem _ _ (by rwa [List.length_set]), List.getElem_set_self]

theorem at?_put_ne (h : i ≠ k) : (p.put i slot).at? k = p.at? k := by
  rw [at?, at?, put, List.getD_eq_getElem?_getD, List.getD_eq_getElem?_getD,
    List.getElem?_set_ne h]

/-- What is in a slot after another box was put into one: that box, or what was there. -/
theorem at?_put_eq_some {b b' : OpenBox} (h : (p.put i (some b)).at? k = some b') :
    i = k ∧ b = b' ∨ i ≠ k ∧ p.at? k = some b' := by
  by_cases hik : i = k
  · subst hik
    have hi : i < p.boxes.length := by
      have := lt_of_at? h
      rwa [put, List.length_set] at this
    rw [at?_put_self hi] at h
    exact .inl ⟨rfl, Option.some.inj h⟩
  · rw [at?_put_ne hik] at h
    exact .inr ⟨hik, h⟩

theorem absorb_succ {fuel q : Nat} {b above : OpenBox} (hbox : p.at? k = some b)
    (hparent : b.parent = some q) (habove : p.at? q = some above) :
    absorb (fuel + 1) k p =
      if (above.seenFrom p.place).layerEndsAt p.place = true then
        absorb fuel q ((p.put q (some (above.seenFrom p.place).extended)).put k none)
      else p.put q (some (above.seenFrom p.place)) := by
  rw [absorb, hbox]
  dsimp only [Option.bind_some]
  rw [hparent]
  dsimp only
  rw [habove]

theorem absorb_free {fuel : Nat} {b : OpenBox} (hbox : p.at? k = some b)
    (hparent : b.parent = none) : absorb fuel k p = p := by
  cases fuel with
  | zero => rfl
  | succ fuel =>
      rw [absorb, hbox]
      dsimp only [Option.bind_some]
      rw [hparent]

/-- The bar is complete without a parent. -/
theorem complete_free {b : OpenBox} (hcurrent : p.current = some k) (hbox : p.at? k = some b)
    (hparent : b.parent = none) : p.complete = { p with current := none } := by
  rw [complete, hcurrent]
  exact absorb_free hbox hparent

section Parent

variable {q : Nat} {b above : OpenBox} (hcurrent : p.current = some k)
  (hbox : p.at? k = some b) (hparent : b.parent = some q) (habove : p.at? q = some above)
include hcurrent hbox hparent habove

/-- The bar is complete where no layer of its parent ends. -/
theorem complete_seen (hends : (above.seenFrom p.place).layerEndsAt p.place = false) :
    p.complete =
      ({ p with current := none } : Pass).put q (some (above.seenFrom p.place)) := by
  obtain ⟨fuel, hfuel⟩ := Nat.exists_eq_add_one.2 (Nat.zero_lt_of_lt (lt_of_at? hbox))
  have habsorb : absorb (fuel + 1) k { p with current := none } = _ :=
    absorb_succ hbox hparent habove
  rw [complete, hcurrent]
  dsimp only
  rw [hfuel, habsorb, if_neg (by rw [hends]; exact Bool.false_ne_true)]

/-- The bar is complete where the next layer of its parent ends: it becomes that layer, and if
its parent has no parent that is all. -/
theorem complete_layer (hfree : above.parent = none) (hne : q ≠ k)
    (hends : (above.seenFrom p.place).layerEndsAt p.place = true) :
    p.complete = (({ p with current := none } : Pass).put q
      (some (above.seenFrom p.place).extended)).put k none := by
  obtain ⟨fuel, hfuel⟩ := Nat.exists_eq_add_one.2 (Nat.zero_lt_of_lt (lt_of_at? hbox))
  have habsorb : absorb (fuel + 1) k { p with current := none } = _ :=
    absorb_succ hbox hparent habove
  have hq : ((({ p with current := none } : Pass).put q
      (some (above.seenFrom p.place).extended)).put k none).at? q =
        some (above.seenFrom p.place).extended :=
    (at?_put_ne hne.symm).trans (at?_put_self (lt_of_at? (p := p) habove))
  rw [complete, hcurrent]
  dsimp only
  rw [hfuel, habsorb, if_pos hends]
  exact absorb_free hq ((OpenBox.parent_seenFrom above p.place).trans hfree)

end Parent

section FindParent

variable (element : Value) (place : List Nat) (index : Nat) (slots : List (Option OpenBox))

theorem length_findParent :
    (findParent element place index slots).1.length = slots.length := by
  induction slots generalizing index with
  | nil => rfl
  | cons slot rest ih =>
      cases slot with
      | none =>
          rw [findParent]
          exact congrArg (· + 1) (ih _)
      | some b =>
          rw [findParent]
          dsimp only
          split
          · rfl
          · exact congrArg (· + 1) (ih _)

/-- Looking for a parent leaves a slot as it is, or has its box seen. -/
theorem findParent_slot (k : Nat) :
    (findParent element place index slots).1.getD k none = slots.getD k none ∨
      ∃ b, slots.getD k none = some b ∧
        (findParent element place index slots).1.getD k none = some (b.seenFrom place) := by
  induction slots generalizing index k with
  | nil => exact .inl rfl
  | cons slot rest ih =>
      cases slot with
      | none =>
          rw [findParent]
          cases k with
          | zero => exact .inl rfl
          | succ k => exact ih _ k
      | some b =>
          rw [findParent]
          dsimp only
          split
          · cases k with
            | zero => exact .inr ⟨b, rfl, rfl⟩
            | succ k => exact .inl rfl
          · cases k with
            | zero => exact .inr ⟨b, rfl, rfl⟩
            | succ k => exact ih _ k

variable {element place index slots}

/-- A parent that was found is of the element and has its next layer start at the place. -/
theorem findParent_found {q : Nat} (h : (findParent element place index slots).2 = some q) :
    ∃ k b, q = index + k ∧ slots.getD k none = some b ∧
      (findParent element place index slots).1.getD k none = some (b.seenFrom place) ∧
      (b.seenFrom place).layerStartsAt place = true ∧
      (b.seenFrom place).box.value.equals element = true := by
  induction slots generalizing index with
  | nil => cases h
  | cons slot rest ih =>
      cases slot with
      | none =>
          rw [findParent] at h ⊢
          obtain ⟨k, b, rfl, hslot, hseen, hfound⟩ := ih h
          exact ⟨k + 1, b, by omega, hslot, hseen, hfound⟩
      | some b =>
          rw [findParent] at h ⊢
          dsimp only at h ⊢
          split at h
          · next hmatch =>
              rw [if_pos hmatch]
              injection h with h
              rw [Bool.and_eq_true] at hmatch
              exact ⟨0, b, h.symm, rfl, rfl, hmatch⟩
          · next hmatch =>
              rw [if_neg hmatch]
              obtain ⟨k, b', rfl, hslot, hseen, hfound⟩ := ih h
              exact ⟨k + 1, b', by omega, hslot, hseen, hfound⟩

end FindParent

section Begin

variable {element : Value} {place : List Nat}

theorem at?_begin_self (p : Pass) (element : Value) (place : List Nat) :
    (p.begin element place).at? p.boxes.length = some
      ⟨⟨element, place, place.map fun _ => 1⟩, (findParent element place 0 p.boxes).2, 0⟩ := by
  have hlength := length_findParent element place 0 p.boxes
  rw [at?, begin]
  dsimp only
  rw [List.getD_append_right _ _ _ _ (by rw [hlength]), hlength, Nat.sub_self]
  rfl

theorem at?_begin_of_lt (hk : k < p.boxes.length) :
    (p.begin element place).at? k = (findParent element place 0 p.boxes).1.getD k none := by
  rw [at?, begin]
  dsimp only
  rw [List.getD_append _ _ _ _ (by rwa [length_findParent])]

theorem current_begin : (p.begin element place).current = some p.boxes.length := by
  rw [begin]
  dsimp only
  rw [length_findParent]

/-- Where a box begins, the others are what they were, or seen from there. -/
theorem at?_begin_eq_some {b' : OpenBox} (hne : p.boxes.length ≠ k)
    (h : (p.begin element place).at? k = some b') :
    ∃ b, p.at? k = some b ∧ (b' = b ∨ b' = b.seenFrom place) := by
  have hk : k < p.boxes.length := by
    have hlt := lt_of_at? h
    rw [begin] at hlt
    dsimp only at hlt
    rw [List.length_append, length_findParent, List.length_singleton] at hlt
    omega
  rw [at?_begin_of_lt hk] at h
  rcases findParent_slot element place 0 p.boxes k with hsame | ⟨b, hb, hseen⟩
  · exact ⟨b', hsame.symm.trans h, .inl rfl⟩
  · exact ⟨b, hb, .inr (Option.some.inj (h.symm.trans hseen))⟩

/-- No box is lost where another begins. -/
theorem exists_at?_begin (element : Value) (place : List Nat) {b : OpenBox}
    (h : p.at? k = some b) :
    ∃ b', (p.begin element place).at? k = some b' ∧ b'.box = b.box := by
  rw [at?_begin_of_lt (lt_of_at? h)]
  rcases findParent_slot element place 0 p.boxes k with hsame | ⟨b', hb', hseen⟩
  · exact ⟨b, hsame.trans h, rfl⟩
  · have hbb : b' = b := Option.some.inj (hb'.symm.trans h)
    exact ⟨_, hseen, by rw [OpenBox.seenFrom_box, hbb]⟩

end Begin

end Pass

/-! ## Bars -/

section Bars

variable {front : List Nat} {c a j w : Nat}

/-- A box with one more element of its row. -/
def OpenBox.longer (b : OpenBox) : OpenBox :=
  { b with box := { b.box with extent := b.box.extent.modify (b.dimensions - 1) (· + 1) } }

/-- The extent of a bar of `w` elements. -/
def barExtent (front : List Nat) (w : Nat) : List Nat := List.replicate front.length 1 ++ [w]

theorem length_barExtent : (barExtent front w).length = front.length + 1 := by
  simp [barExtent]

theorem getD_barExtent_of_lt {k : Nat} (hk : k < front.length) :
    (barExtent front w).getD k 0 = 1 := by
  rw [barExtent, List.getD_append _ _ _ _ (by simpa using hk), List.getD_replicate _ hk]

theorem getD_barExtent_last : (barExtent front w).getD front.length 0 = w := by
  rw [barExtent, List.getD_append_right _ _ _ _ (by simp), List.length_replicate, Nat.sub_self]
  rfl

theorem length_placeAt_concat (i : Nat) :
    (placeAt (front ++ [c]) i).length = front.length + 1 := by
  rw [length_placeAt]
  simp

/-- A box of one element is a bar. -/
theorem map_placeAt_eq_barExtent (i : Nat) :
    ((placeAt (front ++ [c]) i).map fun _ => 1) = barExtent front 1 := by
  refine ext_getD (by rw [List.length_map, length_barExtent, length_placeAt_concat]) fun k hk => ?_
  rw [List.length_map, length_placeAt_concat] at hk
  rw [List.getD_eq_getElem _ _ (by rwa [List.length_map, length_placeAt_concat]),
    List.getElem_map]
  by_cases hlast : k < front.length
  · rw [getD_barExtent_of_lt hlast]
  · have hk' : k = front.length := by omega
    rw [hk', getD_barExtent_last]

/-- A bar that takes an element is longer by one. -/
theorem modify_barExtent : (barExtent front w).modify front.length (· + 1) =
    barExtent front (w + 1) := by
  refine ext_getD (by rw [List.length_modify, length_barExtent, length_barExtent]) fun k hk => ?_
  rw [List.length_modify, length_barExtent] at hk
  rw [OpenBox.getD_modify (by rwa [length_barExtent])]
  by_cases hlast : k < front.length
  · rw [if_neg (by omega), getD_barExtent_of_lt hlast, getD_barExtent_of_lt hlast]
  · have hk' : k = front.length := by omega
    rw [if_pos hk', hk', getD_barExtent_last, getD_barExtent_last]

/-- Of the elements of an array a bar has those of its row from where it starts. -/
theorem inBox_bar (ha : a < volume (front ++ [c])) (hj : j < volume (front ++ [c])) :
    inBox (placeAt (front ++ [c]) a) (barExtent front w) (placeAt (front ++ [c]) j) = true ↔
      j / c = a / c ∧ a ≤ j ∧ j < a + w := by
  have hdivA := Nat.div_add_mod a c
  have hdivJ := Nat.div_add_mod j c
  rw [inBox_iff (length_placeAt_concat a) length_barExtent (length_placeAt_concat j)]
  constructor
  · intro hin
    have hrow : j / c = a / c := by
      refine row_of_getD_placeAt hj ha fun k hk => ?_
      obtain ⟨hlow, hhigh⟩ := hin k (by omega)
      rw [getD_barExtent_of_lt hk] at hhigh
      omega
    obtain ⟨hlow, hhigh⟩ := hin front.length (by omega)
    rw [getD_barExtent_last] at hhigh
    rw [getD_placeAt_last ha, getD_placeAt_last hj] at hlow hhigh
    rw [hrow] at hdivJ
    exact ⟨hrow, by omega, by omega⟩
  · rintro ⟨hrow, hlow, hhigh⟩ k hk
    rw [hrow] at hdivJ
    by_cases hlast : k < front.length
    · rw [getD_placeAt_row ha hlast, getD_placeAt_row hj hlast, hrow, getD_barExtent_of_lt hlast]
      omega
    · have hk' : k = front.length := by omega
      rw [hk', getD_placeAt_last ha, getD_placeAt_last hj, getD_barExtent_last]
      omega

/-- A bar as a box that has not been seen from anywhere. -/
theorem shaped_bar {b : OpenBox} (ha : a < volume (front ++ [c]))
    (hstart : b.box.start = placeAt (front ++ [c]) a) (hextent : b.box.extent = barExtent front w)
    (hrank : b.rank = 0) (hw : 0 < w) : b.Shaped front := by
  have hlength : b.box.start.length = front.length + 1 := by
    rw [hstart, length_placeAt_concat]
  refine ⟨hlength, ?_, by omega, fun k hk => ?_, fun k hk => ?_, fun k hk => ?_⟩
  · rw [hextent, length_barExtent]
  · rw [hextent]
    by_cases hlast : k < front.length
    · rw [getD_barExtent_of_lt hlast]
      exact Nat.one_pos
    · have hk' : k = front.length := by omega
      rw [hk', getD_barExtent_last]
      exact hw
  · rw [OpenBox.growing, OpenBox.dimensions, hlength] at hk
    rw [hextent, getD_barExtent_of_lt (by omega)]
  · have hplace := placeAt_lt ha k (by simp; omega)
    rw [List.getD_append _ _ _ _ hk] at hplace
    rw [hstart, hextent, getD_barExtent_of_lt hk]
    omega

end Bars

/-! ## Boxes at rest and the bar -/

/-- An array seen as rows, with what the pass over it takes for the common element. -/
structure Rows where
  front : List Nat
  columns : Nat
  elements : List Value
  common : Value
  count : elements.length = volume (front ++ [columns])
  discrete : ∀ e ∈ elements, e.Discrete
  common_discrete : common.Discrete

namespace Rows

variable (r : Rows) (whole : Prop) (i : Nat)

/-- The place of an element. -/
abbrev place (j : Nat) : List Nat := placeAt (r.front ++ [r.columns]) j

/-- The box has a place. -/
def Has (b : Box) (j : Nat) : Prop := inBox b.start b.extent (r.place j) = true

/-- A box after `i` elements. It holds none but its own, of those that were taken, and none
that is common. -/
structure Sound (b : OpenBox) : Prop where
  shaped : b.Shaped r.front
  holds : ∀ j, j < r.elements.length → r.Has b.box j →
    j < i ∧ r.elements[j]? = some b.box.value
  discrete : b.box.value.Discrete
  differs : b.box.value ≠ r.common
  fits : whole → ¬ b.Overflows r.front r.columns

/-- Of the first `i` elements every one that is not common is in a box. -/
def Covered (p : Pass) : Prop :=
  ∀ j e, j < i → r.elements[j]? = some e → e ≠ r.common →
    ∃ k b, p.at? k = some b ∧ r.Has b.box j

/-- A pass that works on no box. -/
structure Idle (p : Pass) : Prop where
  current : p.current = none
  boxes : ∀ k b, p.at? k = some b → r.Sound whole i b ∧ b.parent = none
  covered : whole → r.Covered i p

/-- The parent of a bar that starts at `a` and holds `v`. Its next layer starts at `a` as well
and does not end before `m`, unless it is beyond its rows and has no next layer at all. -/
structure Above (a m : Nat) (v : Value) (above : OpenBox) : Prop where
  value : above.box.value = v
  rank : above.rank ≠ 0
  layer : above.Overflows r.front r.columns ∨
    (above.seenFrom (r.place a) = above ∧ above.nextLayerStart = r.place a ∧
      ∃ l, m ≤ l ∧ l < r.elements.length ∧ above.nextLayerEnd = r.place l ∧
        Agree (above.growing + 1) (r.place a) (r.place l))

/-- A pass that works on the bar in slot `k`, of the elements from `a` on. -/
structure Busy (m k a : Nat) (b : OpenBox) (p : Pass) : Prop where
  current : p.current = some k
  box : p.at? k = some b
  others : ∀ k' b', k ≠ k' → p.at? k' = some b' → r.Sound whole i b' ∧ b'.parent = none
  before : a < i
  within : i ≤ r.elements.length
  start : b.box.start = r.place a
  extent : b.box.extent = barExtent r.front (i - a)
  rank : b.rank = 0
  same : ∀ j, a ≤ j → j < i → r.elements[j]? = some b.box.value
  differs : b.box.value ≠ r.common
  row : whole → (i - 1) / r.columns = a / r.columns
  place : p.place = r.place (i - 1)
  parent : ∀ q, b.parent = some q → q ≠ k ∧ ∃ above, p.at? q = some above ∧
    r.Above a m b.box.value above
  covered : whole → r.Covered i p

/-- A pass between two elements: its bar may still take the next one. -/
structure Open (k a : Nat) (b : OpenBox) (p : Pass) : Prop where
  busy : r.Busy whole i i k a b p
  column : b.parent = none → i % r.columns ≠ 0

variable {r whole i} {p : Pass} {m k a : Nat} {b : OpenBox}

theorem lt_volume {j : Nat} (h : j < r.elements.length) :
    j < volume (r.front ++ [r.columns]) := r.count ▸ h

theorem columns_pos {j : Nat} (h : j < r.elements.length) : 0 < r.columns := by
  refine Nat.pos_of_ne_zero fun hzero => ?_
  rw [r.count, volume_concat, hzero] at h
  omega

theorem Sound.mono (h : r.Sound whole i b) {i' : Nat} (hle : i ≤ i') : r.Sound whole i' b :=
  ⟨h.shaped, fun j hj hin => ⟨Nat.lt_of_lt_of_le (h.holds j hj hin).1 hle, (h.holds j hj hin).2⟩,
    h.discrete, h.differs, h.fits⟩

theorem Sound.seenFrom (h : r.Sound whole i b) (place : List Nat) :
    r.Sound whole i (b.seenFrom place) := by
  refine ⟨h.shaped.seenFrom place, ?_, ?_, ?_, ?_⟩
  · rw [OpenBox.seenFrom_box]
    exact h.holds
  · rw [OpenBox.seenFrom_box]
    exact h.discrete
  · rw [OpenBox.seenFrom_box]
    exact h.differs
  · rw [OpenBox.Overflows, OpenBox.seenFrom_box]
    exact h.fits

/-- What becomes of the parent does not change the box. -/
theorem Sound.withParent (h : r.Sound whole i b) (parent : Option Nat) :
    r.Sound whole i { b with parent } :=
  ⟨⟨h.shaped.start, h.shaped.extent, h.shaped.rank, h.shaped.pos, h.shaped.thin,
    h.shaped.inside⟩, h.holds, h.discrete, h.differs, h.fits⟩

/-- What was covered stays so if the places of every box are in one afterwards. -/
theorem Covered.mono {p p' : Pass} (h : r.Covered i p)
    (hkeep : ∀ k b, p.at? k = some b → ∀ j, j < r.elements.length → r.Has b.box j →
      ∃ k' b', p'.at? k' = some b' ∧ r.Has b'.box j) : r.Covered i p' := by
  intro j e hj he hne
  obtain ⟨k, b, hb, hin⟩ := h j e hj he hne
  exact hkeep k b hb j (List.getElem?_eq_some_iff.1 he).1 hin

/-- One more element, if it is common or in a box. -/
theorem Covered.succ (h : r.Covered i p)
    (hnew : ∀ e, r.elements[i]? = some e → e ≠ r.common →
      ∃ k b, p.at? k = some b ∧ r.Has b.box i) : r.Covered (i + 1) p := by
  intro j e hj he hne
  rcases Nat.lt_succ_iff_lt_or_eq.1 hj with hj | rfl
  · exact h j e hj he hne
  · exact hnew e he hne

theorem Busy.has_iff (h : r.Busy whole i m k a b p) {j : Nat} (hj : j < r.elements.length) :
    r.Has b.box j ↔ j / r.columns = a / r.columns ∧ a ≤ j ∧ j < i := by
  have hbefore := h.before
  have hwithin := h.within
  rw [Has, h.start, h.extent, inBox_bar (lt_volume (by omega)) (lt_volume hj)]
  have hsum : a + (i - a) = i := by omega
  rw [hsum]

theorem Busy.sound (h : r.Busy whole i m k a b p) : r.Sound whole i b := by
  have hbefore := h.before
  have hwithin := h.within
  have ha : a < volume (r.front ++ [r.columns]) := lt_volume (by omega)
  refine ⟨shaped_bar ha h.start h.extent h.rank (by omega), fun j hj hin => ?_,
    r.discrete _ (List.mem_of_getElem? (h.same a (Nat.le_refl a) hbefore)), h.differs,
    fun hwhole hover => ?_⟩
  · obtain ⟨_, hlow, hhigh⟩ := (h.has_iff hj).1 hin
    exact ⟨hhigh, h.same j hlow hhigh⟩
  · have hrow := h.row hwhole
    rw [OpenBox.Overflows, h.start, h.extent, getD_placeAt_last ha, getD_barExtent_last] at hover
    have hdivA := Nat.div_add_mod a r.columns
    have hdivI := Nat.div_add_mod (i - 1) r.columns
    have hcolumn : (i - 1) % r.columns < r.columns :=
      Nat.mod_lt _ (columns_pos (Nat.lt_of_lt_of_le hbefore hwithin))
    rw [hrow] at hdivI
    omega

theorem Idle.mono_of_common (h : r.Idle whole i p) (hcommon : r.elements[i]? = some r.common) :
    r.Idle whole (i + 1) p := by
  refine ⟨h.current, fun k b hb => ?_, fun hwhole => (h.covered hwhole).succ fun e he hne => ?_⟩
  · obtain ⟨hsound, hparent⟩ := h.boxes k b hb
    exact ⟨hsound.mono (Nat.le_succ i), hparent⟩
  · exact absurd (Option.some.inj (he.symm.trans hcommon)) hne

/-! ## Steps -/

theorem Idle.interrupt (h : r.Idle whole i p) : p.interrupt = p := by
  rw [Pass.interrupt, h.current]

/-- An interruption leaves the bar as a box that stands alone. -/
theorem Busy.interrupt (h : r.Busy whole i m k a b p) : r.Idle whole i p.interrupt := by
  have hk := Pass.lt_of_at? h.box
  have hinterrupt : p.interrupt =
      { p.put k (some { b with parent := none }) with current := none } := by
    rw [Pass.interrupt, h.current]
    dsimp only
    rw [h.box]
  rw [hinterrupt]
  refine ⟨rfl, fun k' b' hb' => ?_, fun hwhole =>
    (h.covered hwhole).mono fun k' b' hb' j _ hin => ?_⟩
  · rcases Pass.at?_put_eq_some hb' with ⟨_, rfl⟩ | ⟨hkk, hb'⟩
    · exact ⟨h.sound.withParent none, rfl⟩
    · exact h.others k' b' hkk hb'
  · by_cases hkk : k = k'
    · subst hkk
      have hbb : b = b' := Option.some.inj (h.box.symm.trans hb')
      subst hbb
      exact ⟨k, _, Pass.at?_put_self hk, hin⟩
    · exact ⟨k', b', (Pass.at?_put_ne hkk).trans hb', hin⟩

/-- The parent that is found for a bar has its next layer start where the bar does. -/
theorem Idle.above_of_found (h : r.Idle whole i p) {e : Value} (he : r.elements[i]? = some e)
    {q : Nat} (hq : (Pass.findParent e (r.place i) 0 p.boxes).2 = some q) :
    q < p.boxes.length ∧ ∃ above, (p.begin e (r.place i)).at? q = some above ∧
      r.Above i i e above := by
  have hi : i < r.elements.length := (List.getElem?_eq_some_iff.1 he).1
  obtain ⟨k, b, rfl, hslot, hseen, hstarts, hequals⟩ := Pass.findParent_found hq
  rw [Nat.zero_add]
  have hk : k < p.boxes.length := Pass.lt_of_at? (p := p) hslot
  have hsound := (h.boxes k b hslot).1.seenFrom (r.place i)
  rw [OpenBox.layerStartsAt, Bool.and_eq_true, bne_iff_ne, beq_iff_eq] at hstarts
  refine ⟨hk, _, (Pass.at?_begin_of_lt hk).trans hseen, ?_, hstarts.1, ?_⟩
  · exact (hsound.discrete.equals_iff (r.discrete e (List.mem_of_getElem? he))).1 hequals
  · by_cases hover : (b.seenFrom (r.place i)).Overflows r.front r.columns
    · exact .inl hover
    · obtain ⟨l, hle, hl, hend, hagree⟩ := hsound.shaped.exists_layerEnd (lt_volume hi)
        hstarts.2 hover
      exact .inr ⟨OpenBox.seenFrom_seenFrom b _, hstarts.2, l, hle, r.count ▸ hl, hend, hagree⟩

/-- A bar begins where no box is worked on. -/
theorem Idle.begin (h : r.Idle whole i p) {e : Value} (he : r.elements[i]? = some e)
    (hne : e ≠ r.common) :
    ∃ k b, r.Busy whole (i + 1) i k i b (p.begin e (r.place i)) := by
  have hi : i < r.elements.length := (List.getElem?_eq_some_iff.1 he).1
  have hself := p.at?_begin_self e (r.place i)
  have hone : i + 1 - i = 1 := by omega
  refine ⟨p.boxes.length, _, ⟨Pass.current_begin, hself, fun k' b' hkk hb' => ?_,
    Nat.lt_succ_self i, hi, rfl, ?_, rfl, fun j hlow hhigh => ?_, hne, fun _ => rfl, rfl,
    fun q hq => ?_, fun hwhole => Covered.succ ?_ fun _ _ _ => ?_⟩⟩
  · obtain ⟨b, hb, rfl | rfl⟩ := Pass.at?_begin_eq_some hkk hb'
    · obtain ⟨hsound, hparent⟩ := h.boxes k' b' hb
      exact ⟨hsound.mono (Nat.le_succ i), hparent⟩
    · obtain ⟨hsound, hparent⟩ := h.boxes k' b hb
      rw [OpenBox.parent_seenFrom]
      exact ⟨(hsound.mono (Nat.le_succ i)).seenFrom _, hparent⟩
  · rw [hone]
    exact map_placeAt_eq_barExtent i
  · have hj : j = i := by omega
    rw [hj]
    exact he
  · obtain ⟨hlt, habove⟩ := h.above_of_found he hq
    exact ⟨Nat.ne_of_lt hlt, habove⟩
  · refine (h.covered hwhole).mono fun k' b' hb' j _ hin => ?_
    obtain ⟨b, hb, hbox⟩ := Pass.exists_at?_begin e (r.place i) hb'
    refine ⟨k', b, hb, ?_⟩
    rw [hbox]
    exact hin
  · refine ⟨_, _, hself, ?_⟩
    rw [Has, map_placeAt_eq_barExtent, inBox_bar (lt_volume hi) (lt_volume hi)]
    exact ⟨rfl, Nat.le_refl _, by omega⟩

/-- A bar takes an element that is equal to those it has. -/
theorem Open.extend (h : r.Open whole i k a b p) (he : r.elements[i]? = some b.box.value)
    (hcarry : whole → i % r.columns ≠ 0) :
    r.Busy whole (i + 1) i k a b.longer
      { p.put k (some b.longer) with place := r.place i } := by
  have hi : i < r.elements.length := (List.getElem?_eq_some_iff.1 he).1
  have hbefore := h.busy.before
  have hk := Pass.lt_of_at? h.busy.box
  have hstart : b.longer.box.start = r.place a := h.busy.start
  have hextent : b.longer.box.extent = barExtent r.front (i + 1 - a) := by
    have hdims : b.dimensions - 1 = r.front.length := by
      rw [OpenBox.dimensions, h.busy.start, length_placeAt_concat]
      rfl
    have hwidth : i - a + 1 = i + 1 - a := by omega
    rw [OpenBox.longer]
    dsimp only
    rw [hdims, h.busy.extent, modify_barExtent, hwidth]
  have hrow : whole → i / r.columns = a / r.columns := by
    intro hwhole
    have hsame := h.busy.row hwhole
    have hcolumn := hcarry hwhole
    have hprev : i = i - 1 + 1 := by omega
    rw [← hsame, hprev]
    exact Nat.succ_div_of_not_dvd fun hdvd => hcolumn (hprev ▸ Nat.mod_eq_zero_of_dvd hdvd)
  have hgrown : ∀ j, j < r.elements.length → j / r.columns = a / r.columns → a ≤ j → j < i + 1 →
      r.Has b.longer.box j := by
    intro j hj hjrow hlow hhigh
    rw [Has, hextent, hstart, inBox_bar (lt_volume (by omega)) (lt_volume hj)]
    exact ⟨hjrow, hlow, by omega⟩
  have hself : (p.put k (some b.longer)).at? k = some b.longer := Pass.at?_put_self hk
  refine ⟨h.busy.current, hself, fun k' b' hkk hb' => ?_, by omega, hi, hstart, hextent,
    h.busy.rank, fun j hlow hhigh => ?_, h.busy.differs, hrow, rfl, fun q hq => ?_,
    fun hwhole => Covered.succ ?_ fun _ _ _ => ?_⟩
  · obtain ⟨hsound, hparent⟩ := h.busy.others k' b' hkk ((Pass.at?_put_ne hkk).symm.trans hb')
    exact ⟨hsound.mono (Nat.le_succ i), hparent⟩
  · rcases Nat.lt_succ_iff_lt_or_eq.1 hhigh with hhigh | rfl
    · exact h.busy.same j hlow hhigh
    · exact he
  · obtain ⟨hqk, above, habove, hlayer⟩ := h.busy.parent q hq
    exact ⟨hqk, above, (Pass.at?_put_ne hqk.symm).trans habove, hlayer⟩
  · refine (h.busy.covered hwhole).mono fun k' b' hb' j hj hin => ?_
    by_cases hkk : k = k'
    · subst hkk
      have hbb : b = b' := Option.some.inj (h.busy.box.symm.trans hb')
      subst hbb
      obtain ⟨hjrow, hlow, hhigh⟩ := (h.busy.has_iff hj).1 hin
      exact ⟨k, _, hself, hgrown j hj hjrow hlow (by omega)⟩
    · exact ⟨k', b', (Pass.at?_put_ne hkk).trans hb', hin⟩
  · exact ⟨k, _, hself, hgrown i hi (hrow hwhole) (by omega) (Nat.lt_succ_self i)⟩

end Rows

end Grid

end MotionMetadata
