import MotionMetadata.Proofs.RunPass

/-!
# The boxes of an array

The pass from one end of the array to the other, and the boxes that it leaves.
Every element either ends the bar, goes on with it or begins another, and afterwards the bar
is settled: it stays, it stands alone, or it becomes a layer of its parent. A parent that has
a next layer at all is seen the same from every element of that layer, and so a bar that it
takes ends with the layer.

Two reasons are given for why no bar goes on over the end of a row: there are not enough
dimensions for a bar to have a layer that is longer than its row, or no row goes on with what
the row before it ended on.
-/

namespace MotionMetadata.Grid

theorem placeAt_le_of_row {front : List Nat} {c i j : Nat} (hi : i < volume (front ++ [c]))
    (hj : j < volume (front ++ [c])) (hrow : i / c = j / c) (hle : i ≤ j) {k : Nat}
    (hk : k ≤ front.length) :
    (placeAt (front ++ [c]) i).getD k 0 ≤ (placeAt (front ++ [c]) j).getD k 0 := by
  by_cases hlast : k < front.length
  · rw [getD_placeAt_row hi hlast, getD_placeAt_row hj hlast, hrow]
  · have hk' : k = front.length := by omega
    have hdivI := Nat.div_add_mod i c
    have hdivJ := Nat.div_add_mod j c
    rw [hk', getD_placeAt_last hi, getD_placeAt_last hj]
    rw [hrow] at hdivI
    omega

/-- No row goes on with what the row before it ended on, unless that is the common element. -/
def Separate (columns : Nat) (elements : List Value) (common : Value) : Prop :=
  ∀ i e, 0 < i → i % columns = 0 → elements[i - 1]? = some e → elements[i]? = some e →
    e = common

namespace Rows

variable {r : Rows} {whole : Prop} {i : Nat} {p : Pass} {m k a : Nat} {b : OpenBox}

/-! ## Settling the bar -/

/-- Nothing but the slot of its parent changes where a bar is settled and stays. -/
theorem Busy.put (h : r.Busy whole i m k a b p) {n q : Nat} {above above' : OpenBox}
    (hparent : b.parent = some q) (habove : p.at? q = some above) (hbox : above'.box = above.box)
    (hsound : r.Sound whole i above') (hfree : above'.parent = none)
    (hlayer : r.Above a n b.box.value above') :
    r.Busy whole i n k a b (p.put q (some above')) := by
  have hqk := (h.parent q hparent).1
  have hq : (p.put q (some above')).at? q = some above' :=
    Pass.at?_put_self (Pass.lt_of_at? habove)
  refine ⟨h.current, (Pass.at?_put_ne hqk).trans h.box, fun k' b' hkk hb' => ?_, h.before,
    h.within, h.start, h.extent, h.rank, h.same, h.differs, h.row, h.place, fun q' hq' => ?_,
    fun hwhole => (h.covered hwhole).mono fun k' b' hb' j _ hin => ?_⟩
  · rcases Pass.at?_put_eq_some hb' with ⟨_, rfl⟩ | ⟨_, hb'⟩
    · exact ⟨hsound, hfree⟩
    · exact h.others k' b' hkk hb'
  · rw [hparent] at hq'
    injection hq' with hq'
    subst hq'
    exact ⟨hqk, above', hq, hlayer⟩
  · by_cases hqk' : q = k'
    · subst hqk'
      have hbb : above = b' := Option.some.inj (habove.symm.trans hb')
      subst hbb
      refine ⟨q, above', hq, ?_⟩
      rw [hbox]
      exact hin
    · exact ⟨k', b', (Pass.at?_put_ne hqk').trans hb', hin⟩

/-- A bar without a parent is complete as it is. -/
theorem Busy.complete_free (h : r.Busy whole i m k a b p) (hparent : b.parent = none) :
    r.Idle whole i p.complete := by
  rw [Pass.complete_free h.current h.box hparent]
  refine ⟨rfl, fun k' b' hb' => ?_, h.covered⟩
  by_cases hkk : k = k'
  · subst hkk
    have hbb : b = b' := Option.some.inj (h.box.symm.trans hb')
    exact hbb ▸ ⟨h.sound, hparent⟩
  · exact h.others k' b' hkk hb'

/-- The parent of a bar with the layer that the bar is. Every element of the layer is one of
the bar, since the layer starts and ends where the bar does. -/
theorem Busy.sound_extended (h : r.Busy whole (i + 1) m k a b p) {above : OpenBox}
    (hvalue : above.box.value = b.box.value) (hrank : above.rank ≠ 0)
    (hsound : r.Sound whole (i + 1) above) (hstart : above.nextLayerStart = r.place a)
    (hend : above.nextLayerEnd = r.place i) : r.Sound whole (i + 1) above.extended := by
  have hi : i < r.elements.length := h.within
  have ha : a < r.elements.length := by
    have := h.before
    omega
  refine ⟨hsound.shaped.extended fun k hk => ?_, fun j hj hin => ?_, hsound.discrete,
    hsound.differs, fun hwhole hover => ?_⟩
  · have hplace := placeAt_lt (lt_volume ha) k (by simp; omega)
    rw [List.getD_append _ _ _ _ hk] at hplace
    rw [hstart]
    exact hplace
  · rcases (hsound.shaped.mem_extended (length_placeAt_concat j)).1 hin with hold | hlayer
    · exact hsound.holds j hj hold
    · rw [OpenBox.InNextLayer, OpenBox.dimensions, hsound.shaped.start, hstart, hend] at hlayer
      have hlow : a ≤ j := le_of_placeAt_le (lt_volume ha) fun k hk =>
        (hlayer k (by simpa using hk)).1
      have hhigh : j ≤ i := le_of_placeAt_le (lt_volume hj) fun k hk =>
        (hlayer k (by simpa using hk)).2
      refine ⟨by omega, ?_⟩
      show r.elements[j]? = some above.box.value
      rw [hvalue]
      exact h.same j hlow (by omega)
  · have hgrowing := hsound.shaped.growing_eq
    have hle := hsound.shaped.rank
    refine hsound.fits hwhole ?_
    rw [OpenBox.Overflows, hsound.shaped.getD_extended (Nat.le_refl _), if_neg (by omega)] at hover
    exact hover

/-- The elements of a bar in one row are in the layer that starts and ends where it does. -/
theorem Busy.inNextLayer (h : r.Busy whole (i + 1) m k a b p) {above : OpenBox}
    (hsound : r.Sound whole (i + 1) above) (hstart : above.nextLayerStart = r.place a)
    (hend : above.nextLayerEnd = r.place i) (hrow : i / r.columns = a / r.columns) {j : Nat}
    (hj : j < r.elements.length) (hin : r.Has b.box j) : above.InNextLayer (r.place j) := by
  have hi : i < r.elements.length := h.within
  have hbefore := h.before
  obtain ⟨hjrow, hlow, hhigh⟩ := (h.has_iff hj).1 hin
  rw [OpenBox.InNextLayer, OpenBox.dimensions, hsound.shaped.start, hstart, hend]
  intro k hk
  exact ⟨placeAt_le_of_row (lt_volume (by omega)) (lt_volume hj) hjrow.symm hlow
      (Nat.le_of_lt_succ hk),
    placeAt_le_of_row (lt_volume hj) (lt_volume hi) (hjrow.trans hrow.symm)
      (Nat.le_of_lt_succ hhigh) (Nat.le_of_lt_succ hk)⟩

/-- A bar that ends where the next layer of its parent does becomes that layer. -/
theorem Busy.complete_layer (h : r.Busy whole (i + 1) m k a b p) {q : Nat} {above : OpenBox}
    (hparent : b.parent = some q) (habove : p.at? q = some above)
    (hlayer : r.Above a m b.box.value above) (hseen : above.seenFrom p.place = above)
    (hstart : above.nextLayerStart = r.place a) (hend : above.nextLayerEnd = r.place i) :
    r.Idle whole (i + 1) p.complete := by
  have hplace : p.place = r.place i := h.place
  have hqk := (h.parent q hparent).1
  obtain ⟨hsound, hfree⟩ := h.others q above (Ne.symm hqk) habove
  have hcomplete : p.complete =
      (({ p with current := none } : Pass).put q (some above.extended)).put k none := by
    have hends : (above.seenFrom p.place).layerEndsAt p.place = true := by
      rw [hseen, OpenBox.layerEndsAt, hend, hplace, beq_self_eq_true]
    rw [Pass.complete_layer h.current h.box hparent habove hfree hqk hends, hseen]
  have hk : ((({ p with current := none } : Pass).put q (some above.extended)).put k none).at? k =
      none :=
    Pass.at?_put_self (by
      rw [Pass.put, List.length_set]
      exact Pass.lt_of_at? h.box)
  rw [hcomplete]
  refine ⟨rfl, fun k' b' hb' => ?_, fun hwhole =>
    (h.covered hwhole).mono fun k' b' hb' j hj hin => ?_⟩
  · by_cases hkk : k = k'
    · subst hkk
      rw [hk] at hb'
      cases hb'
    rw [Pass.at?_put_ne hkk] at hb'
    rcases Pass.at?_put_eq_some hb' with ⟨_, rfl⟩ | ⟨_, hb'⟩
    · exact ⟨h.sound_extended hlayer.value hlayer.rank hsound hstart hend, hfree⟩
    · exact h.others k' b' hkk hb'
  · have hmem := hsound.shaped.mem_extended (length_placeAt_concat (c := r.columns) j)
    have hq : ((({ p with current := none } : Pass).put q
        (some above.extended)).put k none).at? q = some above.extended :=
      (Pass.at?_put_ne (Ne.symm hqk)).trans (Pass.at?_put_self (Pass.lt_of_at? (p := p) habove))
    by_cases hkk : k = k'
    · subst hkk
      have hbb : b = b' := Option.some.inj (h.box.symm.trans hb')
      subst hbb
      exact ⟨q, _, hq, hmem.2 (.inr (h.inNextLayer hsound hstart hend (h.row hwhole) hj hin))⟩
    by_cases hqk' : q = k'
    · subst hqk'
      have hbb : above = b' := Option.some.inj (habove.symm.trans hb')
      subst hbb
      exact ⟨q, _, hq, hmem.2 (.inl hin)⟩
    · exact ⟨k', b', ((Pass.at?_put_ne hkk).trans (Pass.at?_put_ne hqk')).trans hb', hin⟩

/-- A pass between two elements. -/
def Between (r : Rows) (whole : Prop) (i : Nat) (p : Pass) : Prop :=
  r.Idle whole i p ∨ ∃ k a b, r.Open whole i k a b p

/-- A box beyond the array has no layer that ends inside. -/
theorem not_layerEndsAt {above : OpenBox} (hrank : above.rank ≠ 0)
    (hshaped : above.Shaped r.front) (hover : above.Overflows r.front r.columns) {j : Nat}
    (hj : j < r.elements.length) : above.layerEndsAt (r.place j) = false := by
  rw [OpenBox.layerEndsAt, beq_eq_false_iff_ne]
  intro hend
  have hlast : above.nextLayerEnd.getD r.front.length 0 =
      (r.place j).getD r.front.length 0 := by rw [hend]
  have hgrowing := hshaped.growing_eq
  have hle := hshaped.rank
  have hcolumn : j % r.columns < r.columns := Nat.mod_lt _ (columns_pos hj)
  rw [OpenBox.getD_nextLayerEnd (by rw [hshaped.start]; omega), if_neg (by omega),
    getD_placeAt_last (lt_volume hj)] at hlast
  rw [OpenBox.Overflows] at hover
  omega

/-- A parent beyond the array is seen from where the pass is, no layer of it ends there, and
the bar stays. -/
theorem Busy.seen_beyond (h : r.Busy whole i m k a b p) {q : Nat} {above : OpenBox}
    (hparent : b.parent = some q) (habove : p.at? q = some above)
    (hlayer : r.Above a m b.box.value above) (hover : above.Overflows r.front r.columns) :
    (above.seenFrom p.place).layerEndsAt p.place = false ∧
      r.Busy whole i i k a b (p.put q (some (above.seenFrom p.place))) := by
  have hbefore := h.before
  have hwithin := h.within
  obtain ⟨hsound, hfree⟩ := h.others q above (Ne.symm (h.parent q hparent).1) habove
  have hseen := hsound.seenFrom p.place
  have hrank : (above.seenFrom p.place).rank ≠ 0 := by
    have := OpenBox.rank_seenFrom above p.place
    have := hlayer.rank
    omega
  have hbeyond : (above.seenFrom p.place).Overflows r.front r.columns := by
    rw [OpenBox.Overflows, OpenBox.seenFrom_box]
    exact hover
  refine ⟨?_, h.put hparent habove (OpenBox.seenFrom_box above p.place) hseen
    ((OpenBox.parent_seenFrom above p.place).trans hfree)
    ⟨by rw [OpenBox.seenFrom_box]; exact hlayer.value, hrank, .inl hbeyond⟩⟩
  have hplace := h.place
  rw [hplace] at hrank hbeyond hseen ⊢
  exact not_layerEndsAt hrank hseen.shaped hbeyond (by omega)

/-- Without a parent a bar stands alone at the end of its row and stays elsewhere. -/
theorem Busy.settle_free (h : r.Busy whole (i + 1) m k a b p) (hparent : b.parent = none) :
    r.Between whole (i + 1) (p.settle (r.columns - 1)) := by
  have hi : i < r.elements.length := h.within
  have hbar : p.current.bind p.at? = some b := by
    rw [h.current]
    exact h.box
  have hlast : p.place.getLast? = some (i % r.columns) := by
    rw [h.place]
    show (r.place i).getLast? = _
    rw [Rows.place, placeAt_concat (lt_volume hi), List.getLast?_concat]
  rw [Pass.settle, hbar]
  dsimp only
  rw [hparent]
  dsimp only
  rw [hlast]
  by_cases hrow : i % r.columns = r.columns - 1
  · rw [if_pos (by rw [hrow]; exact beq_self_eq_true _)]
    exact .inl (h.complete_free hparent)
  · rw [if_neg (by simpa using hrow)]
    refine .inr ⟨k, a, b, ⟨{ h with parent := fun q hq => ?_ }, fun _ => ?_⟩⟩
    · rw [hparent] at hq
      cases hq
    · have hcolumn := Nat.mod_lt i (columns_pos hi)
      have hstep : (i + 1) % r.columns = (i % r.columns + 1) % r.columns := by
        rw [Nat.mod_add_mod]
      rw [hstep, Nat.mod_eq_of_lt (by omega)]
      exact Nat.succ_ne_zero _

/-- With a parent a bar stays up to the end of the parent's next layer and becomes that layer
there. -/
theorem Busy.settle_layer (h : r.Busy whole (i + 1) i k a b p) {q : Nat}
    (hparent : b.parent = some q) : r.Between whole (i + 1) (p.settle (r.columns - 1)) := by
  have hi : i < r.elements.length := h.within
  have hplace : p.place = r.place i := h.place
  have hbar : p.current.bind p.at? = some b := by
    rw [h.current]
    exact h.box
  obtain ⟨hqk, above, habove, hlayer⟩ := h.parent q hparent
  have hopen : ∀ {p'}, r.Busy whole (i + 1) (i + 1) k a b p' → r.Between whole (i + 1) p' :=
    fun h' => .inr ⟨k, a, b, h', fun hnone => by rw [hparent] at hnone; cases hnone⟩
  have hsettle : p.settle (r.columns - 1) =
      if (above.seenFrom p.place).layerEndsAt p.place = true then
        (p.put q (some (above.seenFrom p.place))).complete
      else p.put q (some (above.seenFrom p.place)) := by
    rw [Pass.settle, hbar]
    dsimp only
    rw [hparent]
    dsimp only
    rw [habove]
    rfl
  rw [hsettle]
  rcases hlayer.layer with hover | ⟨hseen, hstart, l, hle, hl, hend, hagree⟩
  · obtain ⟨hnot, hput⟩ := h.seen_beyond hparent habove hlayer hover
    rw [if_neg (by rw [hnot]; exact Bool.false_ne_true)]
    exact hopen hput
  · -- The layer is seen the same from all of its elements up to here.
    have hhere : above.seenFrom p.place = above := by
      have hbetween := agree_placeAt_between (Nat.le_of_lt_succ h.before) hle hagree
      rw [hplace]
      refine (OpenBox.seenFrom_congr ?_).trans hseen
      rw [take_eq_take_iff (by rw [length_placeAt, length_placeAt])]
      exact fun k hk => hbetween k (by omega)
    obtain ⟨hsound, hfree⟩ := h.others q above (Ne.symm hqk) habove
    have hput : ∀ m', m' ≤ l → r.Busy whole (i + 1) m' k a b (p.put q (some above)) :=
      fun m' hm' => h.put hparent habove rfl hsound hfree
        ⟨hlayer.value, hlayer.rank, .inr ⟨hseen, hstart, l, hm', hl, hend, hagree⟩⟩
    rw [hhere]
    by_cases hli : l = i
    · subst hli
      rw [if_pos (by rw [OpenBox.layerEndsAt, hend, hplace, beq_self_eq_true])]
      exact .inl ((hput l (Nat.le_refl l)).complete_layer hparent
        (Pass.at?_put_self (Pass.lt_of_at? habove)) hlayer hhere hstart hend)
    · rw [if_neg]
      · exact hopen (hput (i + 1) (by omega))
      · rw [OpenBox.layerEndsAt, hend, hplace, beq_iff_eq]
        exact fun hsame => hli (placeAt_injective (lt_volume hl) (lt_volume hi) hsame)

/-- A bar that has taken an element stays, stands alone, or becomes a layer. -/
theorem Busy.settle (h : r.Busy whole (i + 1) i k a b p) :
    r.Between whole (i + 1) (p.settle (r.columns - 1)) := by
  cases hparent : b.parent with
  | none => exact h.settle_free hparent
  | some q => exact h.settle_layer hparent

/-! ## From element to element -/

theorem Open.continuing? (h : r.Open whole i k a b p) (e : Value) :
    p.continuing? e = if b.box.value.equals e then some (k, b) else none := by
  rw [Pass.continuing?, h.busy.current]
  dsimp only [Option.bind_eq_bind, Option.bind_some]
  rw [h.busy.box]
  rfl

/-- Taking an element. Where a bar goes on over the end of a row, nothing is promised but that
the boxes stay sound. -/
theorem Between.step (h : r.Between whole i p) {e : Value} (he : r.elements[i]? = some e)
    (hcarry : whole → ∀ k a b, r.Open whole i k a b p → e = b.box.value → i % r.columns ≠ 0) :
    r.Between whole (i + 1)
      (p.step r.common (strides (r.front ++ [r.columns])) (r.columns - 1) (e, i)) := by
  have hdiscrete := r.discrete e (List.mem_of_getElem? he)
  rw [Pass.step]
  dsimp only
  by_cases hcommon : e.equals r.common
  · rw [if_pos hcommon]
    have hec := (hdiscrete.equals_iff r.common_discrete).1 hcommon
    rcases h with hidle | ⟨k, a, b, hopen⟩
    · rw [hidle.interrupt]
      exact .inl (hidle.mono_of_common (hec ▸ he))
    · exact .inl (hopen.busy.interrupt.mono_of_common (hec ▸ he))
  · rw [if_neg hcommon]
    have hne : e ≠ r.common := fun hec =>
      hcommon ((hdiscrete.equals_iff r.common_discrete).2 hec)
    rw [Pass.grow]
    rcases h with hidle | ⟨k, a, b, hopen⟩
    · have hnone : p.continuing? e = none := by
        rw [Pass.continuing?, hidle.current]
        rfl
      rw [hnone]
      dsimp only
      rw [hidle.interrupt]
      obtain ⟨k, b, hbusy⟩ := hidle.begin he hne
      exact hbusy.settle
    · rw [hopen.continuing? e]
      by_cases hsame : b.box.value.equals e
      · rw [if_pos hsame]
        have hbe := (hopen.busy.sound.discrete.equals_iff hdiscrete).1 hsame
        exact (hopen.extend (hbe ▸ he) fun hwhole =>
          hcarry hwhole k a b hopen hbe.symm).settle
      · rw [if_neg hsame]
        dsimp only
        obtain ⟨k, b, hbusy⟩ := hopen.busy.interrupt.begin he hne
        exact hbusy.settle

/-- The pass over what is left of the array. -/
theorem Between.run (hcarry : whole → ∀ i k a b p, r.Open whole i k a b p →
      r.elements[i]? = some b.box.value → i % r.columns ≠ 0) {front back : List Value}
    (hsplit : r.elements = front ++ back) (h : r.Between whole front.length p) :
    r.Between whole r.elements.length ((back.zipIdx front.length).foldl
      (Pass.step r.common (strides (r.front ++ [r.columns])) (r.columns - 1)) p) := by
  induction back generalizing front p with
  | nil =>
      rw [hsplit, List.append_nil]
      exact h
  | cons e back ih =>
      have he : r.elements[front.length]? = some e := by
        rw [hsplit, List.getElem?_append_right (Nat.le_refl _), Nat.sub_self]
        rfl
      have hstep := h.step he fun hwhole k a b hopen heq =>
        hcarry hwhole front.length k a b p hopen (heq ▸ he)
      have hmore := @ih
        (p.step r.common (strides (r.front ++ [r.columns])) (r.columns - 1) (e, front.length))
        (front ++ [e])
        (by rw [hsplit, List.append_assoc]; rfl) (by rw [List.length_append]; exact hstep)
      rw [List.length_append] at hmore
      exact hmore

/-- At the end of the array a bar that is left has no layer to become. -/
theorem Between.complete (h : r.Between whole r.elements.length p) :
    (∀ k b, p.complete.at? k = some b → r.Sound whole r.elements.length b) ∧
      (whole → r.Covered r.elements.length p.complete) := by
  rcases h with hidle | ⟨k, a, b, hopen⟩
  · have hcomplete : p.complete = p := by
      rw [Pass.complete, hidle.current]
    rw [hcomplete]
    exact ⟨fun k b hb => (hidle.boxes k b hb).1, hidle.covered⟩
  · cases hparent : b.parent with
    | none =>
        have hidle := hopen.busy.complete_free hparent
        exact ⟨fun k b hb => (hidle.boxes k b hb).1, hidle.covered⟩
    | some q =>
        obtain ⟨hqk, above, habove, hlayer⟩ := hopen.busy.parent q hparent
        obtain ⟨hsound, hfree⟩ := hopen.busy.others q above (Ne.symm hqk) habove
        rcases hlayer.layer with hover | ⟨_, _, l, hle, hl, _⟩
        · obtain ⟨hnot, hput⟩ := hopen.busy.seen_beyond hparent habove hlayer hover
          rw [Pass.complete_seen hopen.busy.current hopen.busy.box hparent habove hnot]
          refine ⟨fun k' b' hb' => ?_, hput.covered⟩
          by_cases hkk : k = k'
          · subst hkk
            have hbb : b = b' := Option.some.inj (hput.box.symm.trans hb')
            exact hbb ▸ hput.sound
          · exact (hput.others k' b' hkk hb').1
        · omega

/-- The boxes of the array are sound, and if no bar went on over the end of a row they cover
what is not common. -/
theorem findBoxes_spec (hcarry : whole → ∀ i k a b p, r.Open whole i k a b p →
      r.elements[i]? = some b.box.value → i % r.columns ≠ 0) :
    (∀ box ∈ findBoxes (r.front ++ [r.columns]) r.elements r.common,
      ∃ b, b.box = box ∧ r.Sound whole r.elements.length b) ∧
    (whole → ∀ j e, r.elements[j]? = some e → e ≠ r.common →
      ∃ box ∈ findBoxes (r.front ++ [r.columns]) r.elements r.common, r.Has box j) := by
  have hinitial : r.Between whole ([] : List Value).length
      { boxes := [], current := none, place := (r.front ++ [r.columns]).map fun _ => 0 } := by
    refine .inl ⟨rfl, fun k b hb => ?_, fun _ j e hj => absurd hj (Nat.not_lt_zero j)⟩
    rw [Pass.at?, List.getD_nil] at hb
    cases hb
  obtain ⟨hsound, hcovered⟩ := (Between.run hcarry (List.nil_append _).symm hinitial).complete
  rw [List.length_nil] at hsound hcovered
  have hfound : findBoxes (r.front ++ [r.columns]) r.elements r.common =
      ((r.elements.zipIdx.foldl
        (Pass.step r.common (strides (r.front ++ [r.columns])) (r.columns - 1))
        { boxes := [], current := none,
          place := (r.front ++ [r.columns]).map fun _ => 0 }).complete.boxes.filterMap
        fun slot => slot.map (·.box)) := by
    rw [findBoxes, List.getLast?_concat]
    rfl
  rw [hfound]
  refine ⟨fun box hbox => ?_, fun hwhole j e hje hne => ?_⟩
  · obtain ⟨slot, hslot, hmap⟩ := List.mem_filterMap.1 hbox
    obtain ⟨b, rfl, rfl⟩ := Option.map_eq_some_iff.1 hmap
    obtain ⟨k, hk, hget⟩ := List.mem_iff_getElem.1 hslot
    refine ⟨b, rfl, hsound k b ?_⟩
    rw [Pass.at?, List.getD_eq_getElem _ _ hk]
    exact hget
  · have hj : j < r.elements.length := (List.getElem?_eq_some_iff.1 hje).1
    obtain ⟨k, b, hb, hin⟩ := hcovered hwhole j e hj hje hne
    exact ⟨b.box, List.mem_filterMap.2 ⟨some b, Pass.at?_mem hb, rfl⟩, hin⟩

/-! ## Bars that stay in their row -/

/-- With no more than one dimension before the last, the layer that a bar is to become is a
part of its row, and the bar ends there at the latest. -/
theorem Open.not_carried (h : r.Open whole i k a b p) (hwhole : whole)
    (hfront : r.front.length ≤ 1) : i % r.columns ≠ 0 := by
  cases hparent : b.parent with
  | none => exact h.column hparent
  | some q =>
      have hbefore := h.busy.before
      obtain ⟨hqk, above, habove, hlayer⟩ := h.busy.parent q hparent
      obtain ⟨hsound, _⟩ := h.busy.others q above (Ne.symm hqk) habove
      rcases hlayer.layer with hover | ⟨_, _, l, hle, hl, _, hagree⟩
      · exact absurd hover (hsound.fits hwhole)
      · have hgrowing := hsound.shaped.growing_eq
        have hrank := hlayer.rank
        have hmost := hsound.shaped.rank
        have hrow : a / r.columns = l / r.columns :=
          row_of_getD_placeAt (lt_volume (by omega)) (lt_volume hl) fun k hk =>
            hagree k (by omega)
        have hhere : a / r.columns = i / r.columns := by
          have := Nat.div_le_div_right (c := r.columns) (Nat.le_of_lt hbefore)
          have := Nat.div_le_div_right (c := r.columns) hle
          omega
        have hdivA := Nat.div_add_mod a r.columns
        have hdivI := Nat.div_add_mod i r.columns
        rw [hhere] at hdivA
        omega

theorem Open.not_carried_of_separate (h : r.Open whole i k a b p)
    (hseparate : Separate r.columns r.elements r.common)
    (he : r.elements[i]? = some b.box.value) : i % r.columns ≠ 0 := by
  intro hcolumn
  have hbefore := h.busy.before
  exact h.busy.differs (hseparate i b.box.value (by omega) hcolumn
    (h.busy.same (i - 1) (by omega) (by omega)) he)

end Rows

end MotionMetadata.Grid
