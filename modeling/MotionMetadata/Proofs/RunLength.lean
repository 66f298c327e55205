import MotionMetadata.Proofs.Filling
import MotionMetadata.Proofs.Spellings

/-!
# Arrays that are sent as boxes

Header, common element and boxes are each read as what was written, so whether such an array
comes back is decided by its boxes alone. A box that ends outside the array is refused by the
reader, and of an array that the boxes do not cover some elements are read as the common one.

The boxes that are found do not always fit and cover. A bar that is to become a layer of
another box ends where that layer ends, and nothing looks at where the row does. With three
dimensions or more the layer may be several rows, and the bar goes on over the end of its own
if the next row begins with the same element.
-/

namespace MotionMetadata

/-! ## Elements and items in a row -/

/-- A whole number or a truth value is read as it was written, and takes its width. -/
theorem GridElement.reads_write {element : GridElement} {v : Value} (hv : v.Discrete)
    {width position : Nat} {bytes : Bytes}
    (h : element.write v width position = .ok ((), bytes)) :
    Reader.Reads (element.read width) bytes v ∧ bytes.length = width ∧ 1 ≤ width ∧ width ≤ 8 := by
  cases element with
  | uint =>
      obtain ⟨n, hn, hwrite⟩ := Encoder.ofExcept_bind_eq_ok.1 h
      cases hv <;> cases hn
      obtain ⟨hwidth, _, hbytes⟩ := Integer.writeUnsigned_eq_ok.1 hwrite
      refine ⟨.bind_nil (Integer.reads_writeUnsigned hwrite) (.pure _), ?_, hwidth⟩
      rw [hbytes, BigEndian.length_bytes]
  | sint =>
      obtain ⟨n, hn, hwrite⟩ := Encoder.ofExcept_bind_eq_ok.1 h
      cases hv <;> cases hn
      obtain ⟨hwidth, _, hbytes⟩ := Integer.writeSigned_eq_ok.1 hwrite
      refine ⟨.bind_nil (Integer.reads_writeSigned hwrite) (.pure _), ?_, hwidth⟩
      rw [hbytes, BigEndian.length_bytes]
  | float =>
      obtain ⟨x, hx, _⟩ := Encoder.ofExcept_bind_eq_ok.1 h
      cases hv <;> cases hx
  | imap low high =>
      obtain ⟨x, hx, _⟩ := Encoder.ofExcept_bind_eq_ok.1 h
      cases hv <;> cases hx
  | bool =>
      obtain ⟨b, hb, hwrite⟩ := Encoder.ofExcept_bind_eq_ok.1 h
      cases hv <;> cases hb
      by_cases hwidth : width = 1
      · rw [if_pos hwidth] at hwrite
        injection hwrite with hwrite
        injection hwrite with _ hwrite
        subst hwidth hwrite
        refine ⟨?_, rfl, Nat.le_refl 1, by omega⟩
        rw [read, if_pos rfl]
        refine .bind_nil (.bind_nil (.byte _) (.pure _)) ?_
        cases b <;> exact .pure _
      · rw [if_neg hwidth] at hwrite
        cases hwrite

section Each

variable {α β : Type} {write : β → Encoder Unit} {items : List β} {position : Nat} {bytes : Bytes}

/-- Items that are each read as they were written are read in a row. -/
theorem Reader.reads_each {read : Reader α} {f : β → α}
    (h : ∀ item ∈ items, ∀ position bytes, write item position = .ok ((), bytes) →
      Reader.Reads read bytes (f item))
    (hwrite : Encoder.each write items position = .ok ((), bytes)) :
    Reader.Reads (Reader.times items.length read) bytes (items.map f) := by
  induction items generalizing position bytes with
  | nil =>
      injection hwrite with hwrite
      injection hwrite with _ hwrite
      subst hwrite
      exact .pure []
  | cons item rest ih =>
      obtain ⟨hitem, hrest⟩ := List.forall_mem_cons.1 h
      obtain ⟨_, first, second, hfirst, hsecond, rfl⟩ := Encoder.bind_eq_ok.1 hwrite
      exact (hitem _ _ hfirst).bind (.bind_nil (ih hrest hsecond) (.pure _))

/-- As many items as are written in some bytes, if none is written in no bytes. -/
theorem Encoder.length_le_of_each
    (h : ∀ item ∈ items, ∀ position bytes, write item position = .ok ((), bytes) →
      0 < bytes.length)
    (hwrite : Encoder.each write items position = .ok ((), bytes)) :
    items.length ≤ bytes.length := by
  induction items generalizing position bytes with
  | nil => simp
  | cons item rest ih =>
      obtain ⟨hitem, hrest⟩ := List.forall_mem_cons.1 h
      obtain ⟨_, first, second, hfirst, hsecond, rfl⟩ := Encoder.bind_eq_ok.1 hwrite
      have hpos := hitem _ _ hfirst
      have hmore := ih hrest hsecond
      simp only [List.length_cons, List.length_append]
      omega

end Each

namespace Grid

variable {element : GridElement} {sizes : List Nat} {elementSize position : Nat} {w : Bytes}

/-! ## Boxes -/

/-- A box that the reader of an array with some dimensions can be given. -/
structure Box.Sendable (dimensions : Nat) (b : Box) : Prop where
  start : b.start.length = dimensions
  extent : b.extent.length = dimensions
  small : (∀ s ∈ b.start, s < 2 ^ 56) ∧ ∀ n ∈ b.extent, n < 2 ^ 56
  discrete : b.value.Discrete

/-- Coordinates are read as they were written. -/
theorem reads_numbers {ns : List Nat}
    (h : Encoder.each (fun n => Ber.writeTag (UInt64.ofNat n)) ns position = .ok ((), w)) :
    Reader.Reads (Reader.times ns.length Ber.readTag) w (ns.map UInt64.ofNat) :=
  Reader.reads_each (fun _ _ _ _ hn => Ber.reads_writeTag hn) h

/-- What is read from the bytes of a box is the box, or that it is outside. -/
theorem readBox_written {b : Box} (hb : b.Sendable sizes.length)
    (hwrite : writeBox element elementSize b position = .ok ((), w)) :
    0 < w.length ∧ ∀ c t, c.rest = w ++ t → readBox element sizes elementSize c =
      if fitsInside sizes b.start b.extent then .ok b (c.advance w.length)
      else .error { fault := .runOutside, offset := some c.position } (c.advance w.length) := by
  obtain ⟨_, first, more, hvalue, hmore, rfl⟩ := Encoder.bind_eq_ok.1 hwrite
  obtain ⟨_, second, third, hstart, hextent, rfl⟩ := Encoder.bind_eq_ok.1 hmore
  obtain ⟨hreads, hlength, hpos, _⟩ := GridElement.reads_write hb.discrete hvalue
  have hstarts := reads_numbers hstart
  have hextents := reads_numbers hextent
  rw [hb.start] at hstarts
  rw [hb.extent] at hextents
  refine ⟨by simp only [List.length_append]; omega, fun c t hc => ?_⟩
  simp only [List.append_assoc] at hc
  have hsecond : (c.advance first.length).rest = second ++ (third ++ t) :=
    Cursor.rest_advance_of_append hc
  have hthird : ((c.advance first.length).advance second.length).rest = third ++ t :=
    Cursor.rest_advance_of_append hsecond
  rw [readBox, Reader.bind_of_ok (Reader.position_apply c), Reader.bind_of_ok (hreads c _ hc),
    Reader.bind_of_ok (hstarts _ _ hsecond), Reader.bind_of_ok (hextents _ _ hthird)]
  simp only [map_toNat_ofNat hb.small.1, map_toNat_ofNat hb.small.2, Cursor.advance_advance,
    ← List.length_append, List.append_assoc]
  split <;> rfl

/-- Boxes that all fit are read as they were written; if one does not, that is what the reader
says. -/
theorem readBoxes_written {boxes : List Box} (hboxes : ∀ b ∈ boxes, b.Sendable sizes.length)
    (hwrite : Encoder.each (writeBox element elementSize) boxes position = .ok ((), w))
    {c : Cursor} {t : Bytes} (hc : c.rest = w ++ t) {fuel : Nat} (hfuel : w.length ≤ fuel) :
    (Fit sizes boxes →
      readBoxes (readBox element sizes elementSize) (c.position + w.length) fuel c =
        .ok boxes (c.advance w.length)) ∧
    (¬ Fit sizes boxes → ∃ e d,
      readBoxes (readBox element sizes elementSize) (c.position + w.length) fuel c = .error e d ∧
        e.fault = .runOutside) := by
  induction boxes generalizing position w c fuel with
  | nil =>
      injection hwrite with hwrite
      injection hwrite with _ hwrite
      subst hwrite
      refine ⟨fun _ => ?_, fun hfit => absurd (fun b hb => nomatch hb) hfit⟩
      cases fuel with
      | zero => rfl
      | succ fuel =>
          rw [readBoxes, Reader.bind_of_ok (Reader.position_apply c), if_neg (by simp)]
          rfl
  | cons b rest ih =>
      obtain ⟨hb, hrest⟩ := List.forall_mem_cons.1 hboxes
      obtain ⟨_, first, second, hfirst, hsecond, rfl⟩ := Encoder.bind_eq_ok.1 hwrite
      obtain ⟨hpos, hread⟩ := readBox_written hb hfirst
      rw [List.append_assoc] at hc
      rw [List.length_append] at hfuel ⊢
      obtain ⟨fuel, rfl⟩ : ∃ n, fuel = n + 1 := ⟨fuel - 1, by omega⟩
      have hone := hread c _ hc
      have hafter : (c.advance first.length).rest = second ++ t := Cursor.rest_advance_of_append hc
      have hstop : (c.advance first.length).position + second.length =
          c.position + (first.length + second.length) := by
        rw [Cursor.position_advance]
        omega
      obtain ⟨hwhole, houtside⟩ := ih hrest hsecond hafter (show _ ≤ fuel by omega)
      rw [hstop] at hwhole houtside
      rw [readBoxes, Reader.bind_of_ok (Reader.position_apply c), if_pos (by omega)]
      by_cases hfits : fitsInside sizes b.start b.extent = true
      · rw [if_pos hfits] at hone
        rw [Reader.bind_of_ok hone]
        have hsplit : Fit sizes (b :: rest) ↔ Fit sizes rest := by
          rw [Fit, List.forall_mem_cons]
          exact and_iff_right hfits
        rw [hsplit]
        refine ⟨fun hfit => ?_, fun hfit => ?_⟩
        · rw [Reader.bind_of_ok (hwhole hfit), Cursor.advance_advance]
          rfl
        · obtain ⟨e, d, herror, hfault⟩ := houtside hfit
          exact ⟨e, d, Reader.bind_of_error herror, hfault⟩
      · rw [if_neg hfits] at hone
        refine ⟨fun hfit => absurd (hfit b (List.mem_cons_self ..)) hfits, fun _ => ?_⟩
        exact ⟨_, _, Reader.bind_of_error hone, rfl⟩

/-! ## The header -/

theorem reads_readSize {size : Nat} (hpos : 0 < size) (hsmall : size < 2 ^ 56)
    (h : Ber.writeTag (UInt64.ofNat size) position = .ok ((), w)) :
    Reader.Reads readSize w size := by
  have hnat : (UInt64.ofNat size).toNat = size :=
    UInt64.toNat_ofNat_of_lt' (Nat.lt_trans hsmall (by decide))
  have hne : UInt64.ofNat size ≠ 0 := fun hzero => by
    rw [hzero] at hnat
    exact absurd hnat.symm (Nat.ne_of_gt hpos)
  refine .position_bind fun _ => .bind_nil (Ber.reads_writeTag h) ?_
  rw [if_neg hne]
  exact .of_eq hnat (.pure _)

theorem le_volume (hpos : ∀ size ∈ sizes, 0 < size) {size : Nat} (hs : size ∈ sizes) :
    size ≤ volume sizes := by
  induction sizes with
  | nil => cases hs
  | cons first rest ih =>
      obtain ⟨hfirst, hrest⟩ := List.forall_mem_cons.1 hpos
      rcases List.mem_cons.1 hs with rfl | hs
      · exact Nat.le_mul_of_pos_right _ (volume_pos hrest)
      · exact Nat.le_trans (ih hrest hs) (Nat.le_mul_of_pos_left _ hfirst)

/-- A header is read as it was written. The number of dimensions is written as it is, since
there is a byte for each; of the size of an element a machine word is written. -/
theorem readHeader_written {g : Grid} (hdimensions : g.sizes ≠ [])
    (hsizes : ∀ size ∈ g.sizes, 0 < size) (hfew : volume g.sizes ≤ maxElements)
    (hallowed : element.allows g.processing = true)
    (hwrite : g.writeHeader elementSize position = .ok ((), w)) (hlength : w.length < 2 ^ 64)
    {c : Cursor} {t : Bytes} (hc : c.rest = w ++ t) :
    ∃ offset, readHeader element c =
      .ok ⟨g.sizes, (UInt64.ofNat elementSize).toNat, g.processing, offset⟩
        (c.advance w.length) := by
  obtain ⟨_, first, more, hfirst, hmore, rfl⟩ := Encoder.bind_eq_ok.1 hwrite
  obtain ⟨_, second, last, hsecond, hlast, rfl⟩ := Encoder.bind_eq_ok.1 hmore
  obtain ⟨_, third, fourth, hthird, hfourth, rfl⟩ := Encoder.bind_eq_ok.1 hlast
  injection hfourth with hfourth
  injection hfourth with _ hfourth
  subst hfourth
  have hcount : (UInt64.ofNat g.sizes.length).toNat = g.sizes.length := by
    have hfits := Encoder.length_le_of_each (fun _ _ _ _ h => Ber.length_pos_of_writeTag h) hsecond
    simp only [List.length_append] at hlength
    have hsmall : g.sizes.length < 2 ^ 64 := by omega
    exact UInt64.toNat_ofNat_of_lt' hsmall
  have hne : UInt64.ofNat g.sizes.length ≠ 0 := fun hzero => by
    rw [hzero] at hcount
    exact hdimensions (List.eq_nil_of_length_eq_zero hcount.symm)
  have hreads : Reader.Reads (Reader.times g.sizes.length readSize) second g.sizes := by
    have h := Reader.reads_each (f := id) (fun size hs _ _ hsize => reads_readSize (hsizes size hs)
      (Nat.lt_of_le_of_lt (Nat.le_trans (le_volume hsizes hs) hfew) (by decide)) hsize) hsecond
    rwa [List.map_id] at h
  simp only [List.append_assoc] at hc
  have hrest : (c.advance first.length).rest =
      second ++ (third ++ ([g.processing.code.toUInt8] ++ t)) := Cursor.rest_advance_of_append hc
  have hrest' : ((c.advance first.length).advance second.length).rest =
      third ++ ([g.processing.code.toUInt8] ++ t) := Cursor.rest_advance_of_append hrest
  have hrest'' : (((c.advance first.length).advance second.length).advance third.length).rest =
      [g.processing.code.toUInt8] ++ t := Cursor.rest_advance_of_append hrest'
  have hcode : Processing.ofCode? g.processing.code.toUInt8.toUInt64 = some g.processing := by
    cases g.processing <;> rfl
  rw [readHeader, Reader.bind_of_ok (Reader.position_apply c),
    Reader.bind_of_ok (Ber.reads_writeTag hfirst c _ hc)]
  dsimp only
  rw [if_neg hne, hcount, Reader.bind_of_ok (hreads _ _ hrest), if_pos hfew,
    Reader.bind_of_ok (Ber.reads_writeTag hthird _ _ hrest'),
    Reader.bind_of_ok (Reader.position_apply _),
    Reader.bind_of_ok (Reader.Reads.byte _ _ _ hrest''), hcode]
  dsimp only
  rw [if_pos hallowed]
  simp only [Cursor.advance_advance, ← List.length_append, List.append_assoc]
  exact ⟨_, rfl⟩

/-! ## The whole array -/

theorem check_spec {g : Grid} (h : g.check element = .ok ()) :
    element.allows g.processing = true ∧ g.sizes ≠ [] ∧ (∀ size ∈ g.sizes, 0 < size) ∧
      count? g.sizes = some g.elements.length := by
  rw [check] at h
  split at h
  · cases h
  · next hallowed =>
      split at h
      · cases h
      · next hempty =>
          split at h
          · cases h
          · next hcount =>
              simp only [Bool.or_eq_true, List.isEmpty_iff, List.contains_iff_mem, not_or]
                at hempty
              refine ⟨by simpa using hallowed, hempty.1, fun size hs => ?_, by simpa using hcount⟩
              exact Nat.pos_of_ne_zero fun hzero => hempty.2 (hzero ▸ hs)

section Encoded

variable {g : Grid} {bytes : Bytes}

/-- What is encoded is read as far as the header, and what stands behind it is what was written
behind it. -/
theorem read_encoded (hfew : volume g.sizes ≤ maxElements) (hencode : g.encode element = .ok bytes)
    (hlength : bytes.length < 2 ^ 64) :
    (g.sizes ≠ [] ∧ g.elements.length = volume g.sizes ∧ g.elements ≠ []) ∧
    ∃ head body p, g.writeElements element p = .ok ((), body) ∧ bytes = head ++ body ∧
      ∀ c t, c.rest = bytes ++ t → (c.advance head.length).rest = body ++ t ∧ ∃ offset,
        read element bytes.length c = readElements element ⟨g.sizes, (UInt64.ofNat
          (if g.processing = .biased then 1 else g.elementSize)).toNat, g.processing, offset⟩
          body.length (c.position + bytes.length) (c.advance head.length) := by
  obtain ⟨_, hwrite⟩ := Encoder.bytes_eq_ok.1 hencode
  obtain ⟨_, hcheck, hwrite⟩ := Encoder.ofExcept_bind_eq_ok.1 hwrite
  obtain ⟨_, head, body, hhead, hbody, rfl⟩ := Encoder.bind_eq_ok.1 hwrite
  obtain ⟨hallowed, hdimensions, hsizes, hcount⟩ := check_spec hcheck
  rw [count?_eq hsizes hfew] at hcount
  have hcount' : g.elements.length = volume g.sizes := (Option.some.inj hcount).symm
  have hnonempty : g.elements ≠ [] := by
    have := volume_pos hsizes
    exact List.length_pos_iff.1 (by omega)
  refine ⟨⟨hdimensions, hcount', hnonempty⟩, head, body, _, hbody, rfl, fun c t hc => ?_⟩
  rw [List.length_append] at hlength
  rw [List.append_assoc] at hc
  obtain ⟨offset, hheader⟩ := readHeader_written hdimensions hsizes hfew hallowed hhead
    (by omega) hc
  have hused : (c.advance head.length).position - c.position = head.length := by
    rw [Cursor.position_advance, Nat.add_sub_cancel_left]
  have hleft : (head ++ body).length - head.length = body.length := by
    rw [List.length_append, Nat.add_sub_cancel_left]
  have hread : read element (head ++ body).length c = _ := read_of_header hheader (by
    rw [hused, List.length_append]
    exact Nat.le_add_right _ _)
  rw [hused, hleft] at hread
  exact ⟨Cursor.rest_advance_of_append hc, offset, hread⟩

end Encoded

section Runs

variable {g : Grid} {bytes : Bytes}

/-- The boxes found in an array are small enough to be read. -/
theorem findBoxes_sendable {elements : List Value} {common : Value} (hsizes : sizes ≠ [])
    (hcount : elements.length = volume sizes) (hfew : volume sizes ≤ maxElements)
    (hdiscrete : ∀ e ∈ elements, e.Discrete) (hcommon : common.Discrete) :
    ∀ b ∈ findBoxes sizes elements common, b.Sendable sizes.length := by
  intro b hb
  obtain ⟨hstart, hextent⟩ := findBoxes_dimensions hsizes hcount hdiscrete hcommon hb
  obtain ⟨hvalue, hplaces, hextents⟩ := findBoxes_within hdiscrete b hb
  have hlength : elements.length ≤ 2 ^ 24 := hcount ▸ hfew
  refine ⟨hstart, hextent, ⟨fun s hs => ?_, fun n hn => ?_⟩, hvalue⟩
  · have := hplaces s hs
    omega
  · have := hextents n hn
    have := Nat.mul_le_mul hlength (Nat.add_le_add_right hlength 2)
    omega

/-- Behind its header an array that is sent as boxes has the common element and the boxes. -/
theorem writeElements_runs (hprocessing : g.processing = .runs) {p : Nat}
    (h : g.writeElements element p = .ok ((), w)) :
    ∃ common first rest q, commonElement? g.elements = some common ∧
      element.write common g.elementSize p = .ok ((), first) ∧
      Encoder.each (writeBox element g.elementSize) (findBoxes g.sizes g.elements common) q =
        .ok ((), rest) ∧
      w = first ++ rest := by
  rw [writeElements, hprocessing] at h
  dsimp only at h
  cases hcommon : commonElement? g.elements with
  | none =>
      rw [hcommon] at h
      cases h
  | some common =>
      rw [hcommon] at h
      obtain ⟨_, first, rest, hfirst, hrest, rfl⟩ := Encoder.bind_eq_ok.1 h
      exact ⟨common, first, rest, _, rfl, hfirst, hrest, rfl⟩

/-- What is read from the bytes of an array is what its boxes paint, or that one of them is
outside. -/
theorem read_encoded_runs (hprocessing : g.processing = .runs)
    (hdiscrete : ∀ e ∈ g.elements, e.Discrete) (hfew : volume g.sizes ≤ maxElements)
    (hencode : g.encode element = .ok bytes) (hlength : bytes.length < 2 ^ 64) :
    (g.sizes ≠ [] ∧ g.elements.length = volume g.sizes) ∧
    ∃ common, commonElement? g.elements = some common ∧ common.Discrete ∧ ∀ c t,
      c.rest = bytes ++ t →
      (Fit g.sizes (findBoxes g.sizes g.elements common) → read element bytes.length c =
        .ok (runLength g.sizes
          (paint g.sizes common (findBoxes g.sizes g.elements common)) g.elementSize)
          (c.advance bytes.length)) ∧
      (¬ Fit g.sizes (findBoxes g.sizes g.elements common) → ∃ e d,
        read element bytes.length c = .error e d ∧ e.fault = .runOutside) := by
  obtain ⟨⟨hdimensions, hcount, hnonempty⟩, head, body, p, hbody, rfl, hread⟩ :=
    read_encoded hfew hencode hlength
  obtain ⟨common, first, rest, q, hcommon, hfirst, hrest, rfl⟩ :=
    writeElements_runs hprocessing hbody
  have hdiscrete' : common.Discrete := by
    obtain ⟨common', hcommon', h⟩ := commonElement?_eq_some hnonempty hdiscrete
    rw [hcommon] at hcommon'
    exact Option.some.inj hcommon' ▸ h
  refine ⟨⟨hdimensions, hcount⟩, common, hcommon, hdiscrete', fun c t hc => ?_⟩
  obtain ⟨hreads, hwidth, _, hle⟩ := GridElement.reads_write hdiscrete' hfirst
  obtain ⟨hafter, offset, hread⟩ := hread c t hc
  have hsize : g.elementSize < 2 ^ 64 := by omega
  rw [hprocessing, if_neg (by decide), UInt64.toNat_ofNat_of_lt' hsize] at hread
  rw [List.append_assoc] at hafter
  have hafter' : ((c.advance head.length).advance first.length).rest = rest ++ t :=
    Cursor.rest_advance_of_append hafter
  have hfuel : rest.length ≤ ((c.advance head.length).advance first.length).rest.length + 1 := by
    rw [hafter', List.length_append]
    omega
  have hboxes := readBoxes_written
    (findBoxes_sendable hdimensions hcount hfew hdiscrete hdiscrete') hrest hafter' hfuel
  have hstop : ((c.advance head.length).advance first.length).position + rest.length =
      c.position + (head ++ (first ++ rest)).length := by
    simp only [Cursor.position_advance, List.length_append]
    omega
  rw [hstop] at hboxes
  rw [hread, readElements]
  dsimp only
  rw [Reader.bind_of_ok (hreads _ _ hafter), Reader.bind_of_ok (Reader.remaining_apply _)]
  refine ⟨fun hfit => ?_, fun hfit => ?_⟩
  · have hlies : ∀ b ∈ findBoxes g.sizes g.elements common, b.Lies g.sizes := fun b hb =>
      have hshape := findBoxes_dimensions hdimensions hcount hdiscrete hdiscrete' hb
      Box.lies_iff.2 ⟨hshape.1, hshape.2, hfit b hb⟩
    rw [Reader.bind_of_ok (hboxes.1 hfit), ← fillBoxes_eq_paint hlies]
    simp only [Cursor.advance_advance, ← List.length_append, List.append_assoc]
    rfl
  · obtain ⟨e, d, herror, hfault⟩ := hboxes.2 hfit
    exact ⟨e, d, Reader.bind_of_error herror, hfault⟩

/-- An array of whole numbers or truth values that was encoded as boxes comes back if and only
if every box ends inside it and every element that is not the common one is in a box. If a box
ends outside, the array cannot be read at all. Otherwise exactly the elements that are in no box
are read as the common one. With two dimensions or fewer the boxes fit and cover, and so they do
where no row goes on with what the row before it ended on, unless that is common. The bound is
that of any buffer there is. -/
theorem encoded_runs_read_iff (hprocessing : g.processing = .runs)
    (hdiscrete : ∀ e ∈ g.elements, e.Discrete) (hfew : volume g.sizes ≤ maxElements)
    (hencode : g.encode element = .ok bytes) (hlength : bytes.length < 2 ^ 64) :
    ∃ common boxes, commonElement? g.elements = some common ∧
      boxes = findBoxes g.sizes g.elements common ∧
      (Reader.Reads (read element bytes.length) bytes
          (runLength g.sizes g.elements g.elementSize) ↔
        Fit g.sizes boxes ∧ Cover g.sizes g.elements common boxes) ∧
      (¬ Fit g.sizes boxes → ∀ c t, c.rest = bytes ++ t → ∃ e d,
        read element bytes.length c = .error e d ∧ e.fault = .runOutside) ∧
      (Fit g.sizes boxes → ∃ elements,
        Reader.Reads (read element bytes.length) bytes
          (runLength g.sizes elements g.elementSize) ∧
        elements.length = g.elements.length ∧ ∀ j e, g.elements[j]? = some e → elements[j]? =
          some (if boxes.any (fun b => inBox b.start b.extent (placeAt g.sizes j)) then e
            else common)) ∧
      (g.sizes.length ≤ 2 ∨ Separate (g.sizes.getLast?.getD 0) g.elements common →
        Fit g.sizes boxes ∧ Cover g.sizes g.elements common boxes) := by
  obtain ⟨⟨hsizes, hcount⟩, common, hcommon, hdiscrete', hread⟩ :=
    read_encoded_runs hprocessing hdiscrete hfew hencode hlength
  have hfaithful := findBoxes_faithful hsizes hcount hdiscrete hdiscrete'
  have hpainted : Fit g.sizes (findBoxes g.sizes g.elements common) →
      Reader.Reads (read element bytes.length) bytes (runLength g.sizes
        (paint g.sizes common (findBoxes g.sizes g.elements common)) g.elementSize) :=
    fun hfit c t hc => (hread c t hc).1 hfit
  refine ⟨common, _, hcommon, rfl, ⟨fun hback => ?_, fun ⟨hfit, hcover⟩ => ?_⟩,
    fun hfit c t hc => (hread c t hc).2 hfit, fun hfit => ⟨_, hpainted hfit, ?_, ?_⟩,
    fun h => ?_⟩
  · have hfit : Fit g.sizes (findBoxes g.sizes g.elements common) := by
      by_contra hfit
      obtain ⟨e, d, herror, _⟩ := (hread (Cursor.ofBytes bytes) [] (by simp)).2 hfit
      rw [hback (Cursor.ofBytes bytes) [] (by simp)] at herror
      cases herror
    obtain ⟨hsame, _⟩ := (hpainted hfit).unique hback (rfl : bytes ++ [] = bytes ++ [])
    have helements : g.elements = paint g.sizes common (findBoxes g.sizes g.elements common) :=
      congrArg Grid.elements hsame
    exact ⟨hfit, (paint_eq_iff hcount hfaithful).1 helements.symm⟩
  · have hback := hpainted hfit
    rwa [(paint_eq_iff hcount hfaithful).2 hcover] at hback
  · rw [length_paint, hcount]
  · exact fun j e he => getElem?_paint_of_faithful hcount hfaithful he
  · rw [List.getLast?_eq_getLast_of_ne_nil hsizes] at h
    exact findBoxes_whole hsizes hcount hdiscrete hdiscrete' h

end Runs

/-- An array whose second layer has a bar that goes on into the next row. -/
def carriedBar : Grid :=
  runLength [3, 2, 2] ([0, 1, 0, 1, 0, 1, 1, 1, 0, 0, 0, 0].map .uint) 1

/-- One box is sent, which has the elements at the end of both rows of both layers. The one that
begins the last of these rows is in no box. -/
theorem carriedBar_not_read :
    carriedBar.encode .uint = .ok
      [0x03, 0x03, 0x02, 0x02, 0x01, 0x05, 0x00, 0x01, 0x00, 0x00, 0x01, 0x02, 0x02, 0x01] ∧
    ¬ Reader.Reads (read .uint 14)
      [0x03, 0x03, 0x02, 0x02, 0x01, 0x05, 0x00, 0x01, 0x00, 0x00, 0x01, 0x02, 0x02, 0x01]
      carriedBar := by
  have hencode : carriedBar.encode .uint = .ok
      [0x03, 0x03, 0x02, 0x02, 0x01, 0x05, 0x00, 0x01, 0x00, 0x00, 0x01, 0x02, 0x02, 0x01] := rfl
  have hdiscrete : ∀ e ∈ carriedBar.elements, e.Discrete := by
    intro e he
    obtain ⟨n, _, rfl⟩ := List.mem_map.1 he
    exact .uint n
  obtain ⟨common, boxes, hcommon, hboxes, hiff, _⟩ :=
    encoded_runs_read_iff (g := carriedBar) rfl hdiscrete (by decide) hencode (by decide)
  have hzero : commonElement? carriedBar.elements = some (.uint 0) := rfl
  rw [hzero] at hcommon
  injection hcommon with hcommon
  subst hcommon
  refine ⟨hencode, fun hback => ?_⟩
  have hcover := (hiff.1 hback).2 6 (.uint 1) rfl (by simp)
  have hnone : boxes.any (fun b => inBox b.start b.extent (placeAt carriedBar.sizes 6)) =
      false := by
    rw [hboxes]
    rfl
  rw [List.any_eq_true.2 hcover] at hnone
  cases hnone

end Grid

end MotionMetadata
