import MotionMetadata.Pack.RowArray
import MotionMetadata.Proofs.Boxes
import MotionMetadata.Proofs.Scaling
import MotionMetadata.Proofs.Singles

/-!
# Arrays that were read can be written

An array is checked twice, by a reader that trusts nothing and by a writer that does not know
where the array came from. `Grid.Readable` is the part of the reader's checks that the writer
needs, and all processings but two meet the writer with it: elements of their own width, bits
and boxes go back as they came. A biased array is written over its least element, which need
not have the size of the bias it was read with, and scaled elements have to find back to
integers of their width. `Grid.Rewritable` is those two conditions.
-/

namespace MotionMetadata

namespace GridElement

variable {element : GridElement} {width : Nat} {v : Value}

/-- A value that was read as an element of so many bytes. -/
def Holds (width : Nat) (v : Value) : GridElement → Prop
  | uint => ∃ n, v = .uint n ∧ (1 ≤ width ∧ width ≤ 8) ∧ n.toNat < 256 ^ width
  | sint => ∃ n, v = .sint n ∧ (1 ≤ width ∧ width ≤ 8) ∧ Integer.signedWidth n ≤ width
  | float => ∃ x, v = .float x ∧ Floating.Fits x width
  | imap low high => Imap.IsScaled low high width v
  | bool => width = 1 ∧ ∃ b, v = .bool b

theorem read_yields (element : GridElement) (width : Nat) :
    (element.read width).Yields fun v => element.Holds width v := by
  cases element with
  | uint => exact (Integer.readUnsigned_yields width).bind fun n hn => .pure ⟨n, rfl, hn⟩
  | sint => exact (Integer.readSigned_yields width).bind fun n hn => .pure ⟨n, rfl, hn⟩
  | float => exact (Floating.read_yields width).bind fun x hx => .pure ⟨x, rfl, hx.1⟩
  | imap low high => exact (Imap.read_yields low high width).bind fun x hx => .pure hx
  | bool =>
      rw [read]
      refine .ite (fun hwidth => .after fun b => .pure ⟨hwidth, b, rfl⟩) fun _ => ?_
      exact .after fun _ => .raiseAt _ _

theorem write_writes (h : element.Holds width v)
    (hrescales : ∀ low high, element = .imap low high → Imap.Rescales low high width v) :
    (element.write v width).Writes width := by
  cases element with
  | uint =>
      obtain ⟨n, rfl, hwidth, hn⟩ := h
      exact .ofExcept rfl (Integer.writeUnsigned_writes hwidth hn)
  | sint =>
      obtain ⟨n, rfl, hwidth, hn⟩ := h
      exact .ofExcept rfl (Integer.writeSigned_writes hwidth hn)
  | float =>
      obtain ⟨x, rfl, hx⟩ := h
      exact .ofExcept rfl (Floating.write_writes hx)
  | imap low high => exact Imap.write_writes h (hrescales low high rfl)
  | bool =>
      obtain ⟨rfl, b, rfl⟩ := h
      exact .ofExcept rfl (.emit _)

end GridElement

namespace Grid

variable {element : GridElement} {g : Grid}

/-! ## What is read -/

/-- The elements of an array as its processing leaves them. -/
def Content (element : GridElement) (g : Grid) : Processing → Prop
  | .natural => ∀ e ∈ g.elements, element.Holds g.elementSize e
  | .runs => ∀ e ∈ g.elements, element.Holds g.elementSize e
  | .scaled => ∃ low high, g.bounds = some (low, high) ∧
      Floating.Fits low (g.parametersLength / 2) ∧ Floating.Fits high (g.parametersLength / 2) ∧
      ∀ e ∈ g.elements, Imap.IsScaled low high g.elementSize e
  | .biased => ∃ bias : Nat, ∀ e ∈ g.elements, ∃ n, e = .uint n ∧ bias ≤ n.toNat ∧
      n.toNat < bias + 2 ^ 56
  | .boolean => ∀ e ∈ g.elements, ∃ b, e = .bool b

/-- What the reader has made sure of when it answers an array. -/
structure Readable (element : GridElement) (g : Grid) : Prop where
  dimensions : g.sizes ≠ [] ∧ g.sizes.length < 2 ^ 56
  sizes : ∀ size ∈ g.sizes, 0 < size ∧ size < 2 ^ 56
  few : volume g.sizes ≤ maxElements
  count : g.elements.length = volume g.sizes
  elementSize : g.elementSize < 2 ^ 56
  parameters : g.parametersLength < 2 ^ 56
  allowed : element.allows g.processing
  /-- Differences have no width of their own. -/
  single : g.processing = .biased → g.elementSize = 1
  content : Content element g g.processing

/-- Unsigned elements of one width are the content of an array in any processing that they
allow, biased arrays having elements of one byte. -/
theorem content_of_unsigned (hallowed : GridElement.uint.allows g.processing)
    (hsingle : g.processing = .biased → g.elementSize = 1)
    (hall : ∀ e ∈ g.elements, GridElement.uint.Holds g.elementSize e) :
    Content .uint g g.processing := by
  cases hprocessing : g.processing with
  | natural => exact hall
  | runs => exact hall
  | biased =>
      refine ⟨0, fun e he => ?_⟩
      obtain ⟨n, rfl, _, hn⟩ := hall e he
      rw [hsingle hprocessing] at hn
      exact ⟨n, rfl, Nat.zero_le _, by omega⟩
  | scaled =>
      rw [hprocessing] at hallowed
      cases hallowed
  | boolean =>
      rw [hprocessing] at hallowed
      cases hallowed

theorem readSize_yields : readSize.Yields fun size => 0 < size ∧ size < 2 ^ 56 := by
  rw [readSize]
  refine .after fun _ => Ber.readTag_yields.bind fun size hsize => ?_
  dsimp only
  refine .refuse fun hne => .pure ⟨Nat.pos_of_ne_zero fun hzero => hne ?_, hsize⟩
  exact UInt64.toNat_inj.1 hzero

theorem readHeader_yields (element : GridElement) :
    (readHeader element).Yields fun header =>
      (header.sizes ≠ [] ∧ header.sizes.length < 2 ^ 56) ∧
        (∀ size ∈ header.sizes, 0 < size ∧ size < 2 ^ 56) ∧ volume header.sizes ≤ maxElements ∧
        header.elementSize < 2 ^ 56 ∧ element.allows header.processing := by
  rw [readHeader]
  refine .after fun _ => Ber.readTag_yields.bind fun dimensions hdimensions => ?_
  dsimp only
  refine .refuse fun hne => (readSize_yields.times _).bind fun sizes hsizes => ?_
  refine .require fun hfew => Ber.readTag_yields.bind fun elementSize helementSize => ?_
  refine .after fun offset => .after fun b => ?_
  cases Processing.ofCode? b.toUInt64 with
  | none => exact .raiseAt _ _
  | some processing =>
      refine .require fun hallowed => .pure ⟨⟨?_, ?_⟩, hsizes.2, hfew, helementSize, hallowed⟩
      · intro hnil
        have hlength := hsizes.1
        have hnil' : sizes = [] := hnil
        rw [hnil', List.length_nil] at hlength
        exact hne (UInt64.toNat_inj.1 hlength.symm)
      · show sizes.length < 2 ^ 56
        rw [hsizes.1]
        exact hdimensions

theorem length_bitsOfBytes (bytes : Bytes) : (bitsOfBytes bytes).length = 8 * bytes.length := by
  rw [bitsOfBytes]
  induction bytes with
  | nil => rfl
  | cons b rest ih =>
      rw [List.flatMap_cons, List.length_append, ih, List.length_map, List.length_range,
        List.length_cons]
      omega

/-- So many bytes have room for a bit each. -/
theorem le_ceilDiv (count : Nat) : count ≤ 8 * ceilDiv count 8 := by
  have h := (ceilDiv_le_iff (n := count) (d := 8) (k := ceilDiv count 8) (by decide)).1
    (Nat.le_refl _)
  omega

/-- The bits of so many bytes are enough for `count`. -/
theorem take_bitsOfBytes_yields (count : Nat) :
    (Reader.take (ceilDiv count 8)).Yields fun bytes =>
      ((bitsOfBytes bytes).take count).length = count := by
  refine (Reader.Yields.take _).imp fun bytes hbytes => ?_
  rw [List.length_take, length_bitsOfBytes, hbytes]
  exact Nat.min_eq_left (le_ceilDiv count)

theorem readBox_yields (element : GridElement) (sizes : List Nat) (elementSize : Nat) :
    (readBox element sizes elementSize).Yields fun b => element.Holds elementSize b.value := by
  rw [readBox]
  refine .after fun _ => (element.read_yields elementSize).bind fun value hvalue => ?_
  refine .after fun start => .after fun extent => ?_
  dsimp only
  exact .require fun _ => .pure hvalue

theorem readBoxes_yields {P : Value → Prop} {readOne : Reader Box}
    (hone : readOne.Yields fun b => P b.value) (stop fuel : Nat) :
    (readBoxes readOne stop fuel).Yields fun boxes => ∀ b ∈ boxes, P b.value := by
  induction fuel with
  | zero => exact .pure (by simp)
  | succ fuel ih =>
      rw [readBoxes]
      refine .after fun p => .ite (fun _ => ?_) fun _ => .pure (by simp)
      exact hone.bind fun b hb => ih.bind fun boxes hboxes =>
        .pure (List.forall_mem_cons.2 ⟨hb, hboxes⟩)

theorem tagWidth_lt {v : UInt64} (h : v.toNat < 2 ^ 56) : Ber.tagWidth v < 2 ^ 56 :=
  Nat.lt_of_le_of_lt (Ber.tagWidth_le_iff_lt.2 h) (by decide)

/-- Two tags together do not overflow. -/
theorem toNat_add_of_tags {a b : UInt64} (ha : a.toNat < 2 ^ 56) (hb : b.toNat < 2 ^ 56) :
    (a + b).toNat = a.toNat + b.toNat := by
  rw [UInt64.toNat_add]
  exact Nat.mod_eq_of_lt (by omega)

theorem read_yields (element : GridElement) (length : Nat) :
    (read element length).Yields (Readable element) := by
  rw [read]
  refine .after fun start => (readHeader_yields element).bind fun header hheader => ?_
  obtain ⟨hdimensions, hsizes, hfew, helementSize, hallowed⟩ := hheader
  refine .after fun position => ?_
  dsimp only
  refine .require fun _ => ?_
  rw [readElements]
  cases hprocessing : header.processing with
  | natural =>
      rw [hprocessing] at hallowed
      refine .require fun _ => ((element.read_yields _).times _).bind fun elements helements => ?_
      exact .pure ⟨hdimensions, hsizes, hfew, helements.1, helementSize, Nat.two_pow_pos 56,
        hallowed, nofun, helements.2⟩
  | scaled =>
      rw [hprocessing] at hallowed
      refine .require fun _ => (Floating.read_yields _).bind fun low hlow => ?_
      refine (Floating.read_yields _).bind fun high hhigh => ?_
      refine ((Imap.read_yields low high _).times _).bind fun elements helements => .pure ?_
      have hparameters : length - (position - start) -
          volume header.sizes * header.elementSize < 2 ^ 56 := by
        rcases hlow.1 with hwidth | ⟨hwidth, _⟩ <;> omega
      refine ⟨hdimensions, hsizes, hfew, ?_, helementSize, hparameters, hallowed,
        nofun, low, high, rfl, hlow.1, hhigh.1, fun e he => ?_⟩
      · show (elements.map Value.ofImap).length = _
        rw [List.length_map]
        exact helements.1
      · obtain ⟨x, hx, rfl⟩ := List.mem_map.1 he
        exact helements.2 x hx
  | boolean =>
      rw [hprocessing] at hallowed
      refine (take_bitsOfBytes_yields _).bind fun bytes hbytes => .pure ?_
      refine ⟨hdimensions, hsizes, hfew, ?_, helementSize, Nat.two_pow_pos 56, hallowed,
        nofun, fun e he => ?_⟩
      · show (((bitsOfBytes bytes).take (volume header.sizes)).map Value.bool).length = _
        rw [List.length_map]
        exact hbytes
      · obtain ⟨b, _, rfl⟩ := List.mem_map.1 he
        exact ⟨b, rfl⟩
  | biased =>
      rw [hprocessing] at hallowed
      refine Ber.readTag_yields.bind fun bias hbias => ?_
      have hone : (readDifference bias).Yields fun v =>
          ∃ n, v = .uint n ∧ bias.toNat ≤ n.toNat ∧ n.toNat < bias.toNat + 2 ^ 56 := by
        rw [readDifference]
        refine .after fun _ => Ber.readTag_yields.bind fun difference hdifference => ?_
        refine .require fun _ => .pure ⟨_, rfl, ?_⟩
        rw [toNat_add_of_tags hdifference hbias]
        omega
      refine (hone.times _).bind fun elements helements => .pure ?_
      exact ⟨hdimensions, hsizes, hfew, helements.1, Nat.one_lt_two_pow (by decide),
        tagWidth_lt hbias, hallowed, fun _ => rfl, bias.toNat, helements.2⟩
  | runs =>
      rw [hprocessing] at hallowed
      refine (element.read_yields _).bind fun common hcommon => .after fun left => ?_
      refine (readBoxes_yields (P := fun v => element.Holds header.elementSize v)
        (readBox_yields element _ _) _ _).bind fun boxes hboxes => .pure ?_
      obtain ⟨hcount, hall⟩ := fillBoxes_all (P := fun v => element.Holds header.elementSize v)
        hcommon hboxes
      exact ⟨hdimensions, hsizes, hfew, hcount, helementSize, helementSize, hallowed,
        nofun, hall⟩

/-- What follows a header is read with what the header leaves of the length. -/
theorem read_of_header {length : Nat} {c d : Cursor} {header : Header}
    (hheader : readHeader element c = .ok header d) (hused : d.position - c.position ≤ length) :
    read element length c = readElements element header (length - (d.position - c.position))
      (c.position + length) d := by
  rw [read, Reader.bind_of_ok (Reader.position_apply c), Reader.bind_of_ok hheader,
    Reader.bind_of_ok (Reader.position_apply d)]
  exact if_pos hused ▸ rfl

/-! ## What is written -/

/-- The domain that the elements of an array are scaled over, if they are. -/
def domain? (element : GridElement) (g : Grid) : Option (Binary64 × Binary64) :=
  match g.processing, element with
  | .scaled, _ => g.bounds
  | _, .imap low high => some (low, high)
  | _, _ => none

/-- What it takes besides for an array to be written: the least element of a biased one has
the size of a tag, and scaled elements find back to integers of their width. -/
structure Rewritable (element : GridElement) (g : Grid) : Prop where
  least : g.processing = .biased →
    (Grid.least (g.elements.filterMap Value.asUint?)).toNat < 2 ^ 56
  rescales : ∀ low high, domain? element g = some (low, high) → ∀ e ∈ g.elements,
    Imap.Rescales low high g.elementSize e

theorem domain?_of_scaled (h : g.processing = .scaled) : domain? element g = g.bounds := by
  unfold domain?
  rw [h]

theorem domain?_of_uint (h : g.processing ≠ .scaled) : domain? .uint g = none := by
  unfold domain?
  cases hprocessing : g.processing with
  | scaled => exact absurd hprocessing h
  | _ => rfl

theorem domain?_of_imap {low high : Binary64} (h : g.processing ≠ .scaled) :
    domain? (.imap low high) g = some (low, high) := by
  unfold domain?
  cases hprocessing : g.processing with
  | scaled => exact absurd hprocessing h
  | _ => rfl

theorem volume_pos {sizes : List Nat} (h : ∀ size ∈ sizes, 0 < size) : 0 < volume sizes := by
  induction sizes with
  | nil => exact Nat.one_pos
  | cons size rest ih =>
      obtain ⟨hsize, hrest⟩ := List.forall_mem_cons.1 h
      exact Nat.mul_pos hsize (ih hrest)

theorem foldlM_count {sizes : List Nat} (h : ∀ size ∈ sizes, 0 < size) (total : Nat)
    (hlt : total * volume sizes < 2 ^ 64) :
    sizes.foldlM (fun total size =>
      if total * size < 2 ^ 64 then some (total * size) else none) total =
        some (total * volume sizes) := by
  induction sizes generalizing total with
  | nil =>
      rw [List.foldlM_nil]
      exact congrArg some (Nat.mul_one total).symm
  | cons size rest ih =>
      obtain ⟨_, hrest⟩ := List.forall_mem_cons.1 h
      have hvolume : total * volume (size :: rest) = total * size * volume rest :=
        (Nat.mul_assoc total size (volume rest)).symm
      rw [hvolume] at hlt ⊢
      have hstep : total * size < 2 ^ 64 :=
        Nat.lt_of_le_of_lt (Nat.le_mul_of_pos_right _ (volume_pos hrest)) hlt
      rw [List.foldlM_cons, if_pos hstep]
      exact ih hrest (total * size) hlt

theorem count?_eq {sizes : List Nat} (h : ∀ size ∈ sizes, 0 < size)
    (hfew : volume sizes ≤ maxElements) : count? sizes = some (volume sizes) := by
  have hlt : 1 * volume sizes < 2 ^ 64 := by
    rw [Nat.one_mul]
    exact Nat.lt_of_le_of_lt hfew (by decide)
  have hcount := foldlM_count h 1 hlt
  rw [Nat.one_mul] at hcount
  exact hcount

theorem check_eq_ok (h : Readable element g) : g.check element = .ok () := by
  have hzero : g.sizes.contains 0 = false := by
    rw [Bool.eq_false_iff]
    intro hmem
    exact absurd (h.sizes 0 (List.contains_iff_mem.1 hmem)).1 (Nat.lt_irrefl 0)
  have hempty : g.sizes.isEmpty = false := List.isEmpty_eq_false_iff.2 h.dimensions.1
  rw [check, h.allowed, hzero, hempty, count?_eq (fun size hs => (h.sizes size hs).1) h.few,
    h.count]
  simp

theorem writeNumber_writes {n : Nat} (h : n < 2 ^ 56) :
    (Ber.writeTag (UInt64.ofNat n)).Writes (Ber.tagWidth (UInt64.ofNat n)) := by
  refine Ber.writeTag_writes ?_
  rw [UInt64.toNat_ofNat']
  exact Nat.lt_of_le_of_lt (Nat.mod_le _ _) h

theorem writeHeader_writes (h : Readable element g) {elementSize : Nat}
    (hsize : elementSize < 2 ^ 56) : ∃ n, (g.writeHeader elementSize).Writes n :=
  ⟨_, (writeNumber_writes h.dimensions.2).bind
    ((Encoder.Writes.each fun size hs => writeNumber_writes (h.sizes size hs).2).bind
      ((writeNumber_writes hsize).bind (.emit _)))⟩

theorem mapM_requireUint {elements : List Value} (h : ∀ e ∈ elements, ∃ n, e = .uint n) :
    elements.mapM Value.requireUint = .ok (elements.filterMap Value.asUint?) := by
  induction elements with
  | nil => rfl
  | cons e rest ih =>
      obtain ⟨he, hrest⟩ := List.forall_mem_cons.1 h
      obtain ⟨n, rfl⟩ := he
      rw [List.mapM_cons, ih hrest]
      rfl

theorem mapM_requireBool {elements : List Value} (h : ∀ e ∈ elements, ∃ b, e = .bool b) :
    elements.mapM Value.requireBool = .ok (elements.filterMap Value.asBool?) := by
  induction elements with
  | nil => rfl
  | cons e rest ih =>
      obtain ⟨he, hrest⟩ := List.forall_mem_cons.1 h
      obtain ⟨b, rfl⟩ := he
      rw [List.mapM_cons, ih hrest]
      rfl

theorem foldl_least (first : UInt64) (rest : List UInt64) :
    rest.foldl (fun a b => if b < a then b else a) first ∈ first :: rest ∧
      ∀ v ∈ first :: rest,
        (rest.foldl (fun a b => if b < a then b else a) first).toNat ≤ v.toNat := by
  induction rest generalizing first with
  | nil => simp
  | cons b rest ih =>
      rw [List.foldl_cons]
      by_cases hb : b < first
      · rw [if_pos hb]
        obtain ⟨hmem, hle⟩ := ih b
        refine ⟨List.mem_cons_of_mem _ hmem, fun v hv => ?_⟩
        rcases List.mem_cons.1 hv with rfl | hv
        · exact Nat.le_trans (hle b (List.mem_cons_self ..)) (Nat.le_of_lt hb)
        · exact hle v hv
      · rw [if_neg hb]
        obtain ⟨hmem, hle⟩ := ih first
        refine ⟨?_, fun v hv => ?_⟩
        · rcases List.mem_cons.1 hmem with h | h
          · rw [h]
            exact List.mem_cons_self ..
          · exact List.mem_cons_of_mem _ (List.mem_cons_of_mem _ h)
        · rcases List.mem_cons.1 hv with rfl | hv
          · exact hle _ (List.mem_cons_self ..)
          · rcases List.mem_cons.1 hv with rfl | hv
            · exact Nat.le_trans (hle first (List.mem_cons_self ..)) (Nat.not_lt.1 hb)
            · exact hle v (List.mem_cons_of_mem _ hv)

/-- The least of some numbers is one of them and not above any. -/
theorem least_spec {values : List UInt64} {v : UInt64} (hv : v ∈ values) :
    least values ∈ values ∧ (least values).toNat ≤ v.toNat := by
  cases values with
  | nil => cases hv
  | cons first rest =>
      obtain ⟨hmem, hle⟩ := foldl_least first rest
      exact ⟨hmem, hle v hv⟩

/-- The least of some numbers is below whatever is positive and above all of them. -/
theorem least_lt {values : List UInt64} {limit : Nat} (hlimit : 0 < limit)
    (h : ∀ v ∈ values, v.toNat < limit) : (least values).toNat < limit := by
  cases values with
  | nil => exact hlimit
  | cons first rest => exact h _ (least_spec (List.mem_cons_self ..)).1

/-- Numbers that lie within the range of a tag are written over the least of them. -/
theorem writeBiased_writes {values : List UInt64} (bias : Nat)
    (hleast : (least values).toNat < 2 ^ 56)
    (hrange : ∀ v ∈ values, bias ≤ v.toNat ∧ v.toNat < bias + 2 ^ 56) :
    ∃ n, (Ber.writeTag (least values) >>= fun _ =>
      Encoder.each (fun v => Ber.writeTag (v - least values)) values).Writes n := by
  refine ⟨_, (Ber.writeTag_writes hleast).bind (.each fun v hv => Ber.writeTag_writes ?_)⟩
  obtain ⟨hmem, hle⟩ := least_spec hv
  have hlow := (hrange _ hmem).1
  have hhigh := (hrange v hv).2
  rw [UInt64.toNat_sub_of_le v (least values) hle]
  omega

/-- The boxes of an array are written if its elements are. -/
theorem writeRuns_writes (h : Readable element g)
    (hall : ∀ e ∈ g.elements, (element.write e g.elementSize).Writes g.elementSize) :
    ∃ common n, commonElement? g.elements = some common ∧
      (element.write common g.elementSize >>= fun _ =>
        Encoder.each (writeBox element g.elementSize)
          (findBoxes g.sizes g.elements common)).Writes n := by
  have hcount : g.elements.length ≤ 2 ^ 24 := h.count ▸ h.few
  have hne : g.elements ≠ [] := by
    have hpos := volume_pos fun size hs => (h.sizes size hs).1
    rw [← h.count] at hpos
    exact List.length_pos_iff.1 hpos
  obtain ⟨common, hcommon, hwrites⟩ := commonElement?_eq_some hne hall
  have hbox : ∀ b ∈ findBoxes g.sizes g.elements common,
      (writeBox element g.elementSize b).Writes (g.elementSize +
        ((b.start.map fun n => Ber.tagWidth (UInt64.ofNat n)).sum +
          (b.extent.map fun n => Ber.tagWidth (UInt64.ofNat n)).sum)) := by
    intro b hb
    obtain ⟨hvalue, hstart, hextent⟩ := findBoxes_within hall b hb
    refine hvalue.bind ((Encoder.Writes.each fun s hs => writeNumber_writes ?_).bind
      (Encoder.Writes.each fun n hn => writeNumber_writes ?_))
    · exact Nat.lt_of_le_of_lt (hstart s hs) (by omega)
    · have hn := hextent n hn
      have hsquare := Nat.mul_le_mul hcount (Nat.add_le_add_right hcount 2)
      omega
  exact ⟨common, _, hcommon, hwrites.bind (.each hbox)⟩

theorem writeElements_writes (h : Readable element g) (hrewritable : Rewritable element g) :
    ∃ n, (g.writeElements element).Writes n := by
  have hcontent := h.content
  have hrescales := hrewritable.rescales
  have hleast := hrewritable.least
  have hown : g.processing ≠ .scaled → ∀ e ∈ g.elements, ∀ low high,
      element = .imap low high → Imap.Rescales low high g.elementSize e := by
    rintro hscaled e he low high rfl
    exact hrescales low high (domain?_of_imap hscaled) e he
  rw [writeElements]
  cases hprocessing : g.processing with
  | natural =>
      rw [hprocessing] at hcontent hown
      exact ⟨_, .each fun e he =>
        GridElement.write_writes (hcontent e he) (hown (by decide) e he)⟩
  | scaled =>
      rw [domain?_of_scaled hprocessing] at hrescales
      rw [hprocessing] at hcontent
      obtain ⟨low, high, hbounds, hlow, hhigh, helements⟩ := hcontent
      rw [hbounds]
      exact ⟨_, (Floating.write_writes hlow).bind ((Floating.write_writes hhigh).bind
        (.each fun e he => Imap.write_writes (helements e he)
          (hrescales low high hbounds e he)))⟩
  | biased =>
      rw [hprocessing] at hcontent
      obtain ⟨bias, helements⟩ := hcontent
      have hvalues : g.elements.mapM Value.requireUint =
          .ok (g.elements.filterMap Value.asUint?) :=
        mapM_requireUint fun e he => (helements e he).imp fun n hn => hn.1
      obtain ⟨n, hwrites⟩ := writeBiased_writes bias (hleast hprocessing) fun v hv => by
        obtain ⟨e, he, hasUint⟩ := List.mem_filterMap.1 hv
        obtain ⟨n, rfl, hrange⟩ := helements e he
        injection hasUint with hasUint
        exact hasUint ▸ hrange
      exact ⟨n, .ofExcept hvalues hwrites⟩
  | boolean =>
      rw [hprocessing] at hcontent
      exact ⟨_, .ofExcept (mapM_requireBool hcontent) (.emit _)⟩
  | runs =>
      rw [hprocessing] at hcontent hown
      have hall : ∀ e ∈ g.elements, (element.write e g.elementSize).Writes g.elementSize :=
        fun e he => GridElement.write_writes (hcontent e he) (hown (by decide) e he)
      obtain ⟨common, n, hcommon, hwrites⟩ := writeRuns_writes h hall
      rw [hcommon]
      exact ⟨n, hwrites⟩

/-- An array that was read can be written, if it is rewritable. -/
theorem encode_readable (h : Readable element g) (hrewritable : Rewritable element g) :
    ∃ bytes, g.encode element = .ok bytes := by
  have hsize : (if g.processing = .biased then 1 else g.elementSize) < 2 ^ 56 := by
    split
    · exact Nat.one_lt_two_pow (by decide)
    · exact h.elementSize
  obtain ⟨n, hheader⟩ := writeHeader_writes h hsize
  obtain ⟨m, helements⟩ := writeElements_writes h hrewritable
  have hwrites : (g.write element).Writes (n + m) :=
    .ofExcept (check_eq_ok h) (hheader.bind helements)
  obtain ⟨bytes, hbytes, _⟩ := hwrites.bytes
  exact ⟨bytes, hbytes⟩

/-! ## The record form -/

theorem mapM_natValue (sizes : List Nat) :
    (sizes.map natValue).mapM (fun n => Value.inside "sizes" n.requireUint) =
      .ok (sizes.map UInt64.ofNat) := by
  induction sizes with
  | nil => rfl
  | cons size rest ih =>
      rw [List.map_cons, List.mapM_cons, ih]
      rfl

theorem map_toNat_ofNat {sizes : List Nat} (h : ∀ size ∈ sizes, size < 2 ^ 56) :
    (sizes.map UInt64.ofNat).map UInt64.toNat = sizes := by
  rw [List.map_map]
  refine (List.map_congr_left fun size hs => ?_).trans (List.map_id sizes)
  show (UInt64.ofNat size).toNat = size
  rw [UInt64.toNat_ofNat']
  exact Nat.mod_eq_of_lt (Nat.lt_trans (h size hs) (by decide))

theorem ofCode?_code (p : Processing) : Processing.ofCode? p.code = some p := by
  cases p <;> rfl

/-- The record of an array is that array again, if its numbers are no larger than tags. -/
theorem ofValue_toValue (hsizes : ∀ size ∈ g.sizes, size < 2 ^ 56)
    (hsize : g.elementSize < 2 ^ 56) (hparameters : g.parametersLength < 2 ^ 56) :
    ofValue g.toValue = .ok g := by
  obtain ⟨sizes, elements, elementSize, processing, parametersLength, bounds⟩ := g
  have hsize' : (UInt64.ofNat elementSize).toNat = elementSize := by
    rw [UInt64.toNat_ofNat']
    exact Nat.mod_eq_of_lt (Nat.lt_trans hsize (by decide))
  have hparameters' : (UInt64.ofNat parametersLength).toNat = parametersLength := by
    rw [UInt64.toNat_ofNat']
    exact Nat.mod_eq_of_lt (Nat.lt_trans hparameters (by decide))
  have hrecord : ∀ bounds, ofValue (toValue
      ⟨sizes, elements, elementSize, processing, parametersLength, bounds⟩) =
        .ok ⟨(sizes.map UInt64.ofNat).map UInt64.toNat, elements,
          (UInt64.ofNat elementSize).toNat, processing, (UInt64.ofNat parametersLength).toNat,
          bounds⟩ := by
    intro bounds
    rw [ofValue]
    refine except_bind_eq_ok.2 ⟨sizes.map natValue, by cases bounds <;> rfl, ?_⟩
    refine except_bind_eq_ok.2 ⟨_, mapM_natValue sizes, ?_⟩
    refine except_bind_eq_ok.2 ⟨elements, by cases bounds <;> rfl, ?_⟩
    refine except_bind_eq_ok.2 ⟨processing.code, by cases bounds <;> rfl, ?_⟩
    rw [ofCode?_code]
    refine except_bind_eq_ok.2 ⟨processing, rfl, ?_⟩
    cases bounds <;> rfl
  rw [hrecord, map_toNat_ofNat hsizes, hsize', hparameters']

end Grid

/-! ## Arrays with a domain per row -/

/-- Items that are converted by place keep their places. -/
theorem zipIdx_mapM_all {α β : Type} {f : α × Nat → Except Error β} {P : β → Nat → Prop}
    (hf : ∀ a i b, f (a, i) = .ok b → P b i) {items : List α} {results : List β} {k : Nat}
    (h : (items.zipIdx k).mapM f = .ok results) :
    results.length = items.length ∧ ∀ x ∈ results.zipIdx k, P x.1 x.2 := by
  induction items generalizing results k with
  | nil =>
      injection h with h
      subst h
      exact ⟨rfl, by simp⟩
  | cons a rest ih =>
      rw [List.zipIdx_cons, List.mapM_cons] at h
      obtain ⟨b, hb, h⟩ := except_bind_eq_ok.1 h
      obtain ⟨bs, hbs, h⟩ := except_bind_eq_ok.1 h
      injection h with h
      subst h
      obtain ⟨hlength, hall⟩ := ih hbs
      rw [List.zipIdx_cons]
      exact ⟨congrArg (· + 1) hlength, List.forall_mem_cons.2 ⟨hf a k b hb, hall⟩⟩

namespace RowArray

open Grid

variable {a : RowArray} {g : Grid}

/-- The domain of the row that the element with some index is in. -/
def domainAt (a : RowArray) (columns i : Nat) : Binary64 × Binary64 :=
  a.rows.getD (i / columns) (.zero, .zero)

/-- What the reader has made sure of when it answers an array of scaled rows: the array below
is one of unsigned elements, and every element is scaled over the domain of its row. -/
structure Readable (a : RowArray) (g : Grid) : Prop where
  base : ∃ elements, Grid.Readable .uint { g with elements } ∧
    elements.length = g.elements.length
  scaled : ∃ columns, a.checkShape g = .ok columns ∧ ∀ x ∈ g.elements.zipIdx,
    Imap.IsScaled (a.domainAt columns x.2).1 (a.domainAt columns x.2).2 g.elementSize x.1

/-- The elements of an array find back to integers of their width, each over the domain of
its row. -/
def Rewritable (a : RowArray) (g : Grid) : Prop :=
  ∀ columns, a.checkShape g = .ok columns → ∀ x ∈ g.elements.zipIdx,
    Imap.Rescales (a.domainAt columns x.2).1 (a.domainAt columns x.2).2 g.elementSize x.1

/-- The shape of an array is a matter of its sizes and of how many elements there are. -/
theorem checkShape_congr {elements : List Value} {columns : Nat}
    (hlength : elements.length = g.elements.length) (h : a.checkShape g = .ok columns) :
    a.checkShape { g with elements } = .ok columns := by
  rw [checkShape] at h ⊢
  rw [hlength]
  exact h

theorem mapRows_eq_ok {convert : Value → Binary64 × Binary64 → Except Error Value} {g' : Grid} :
    a.mapRows convert g = .ok g' ↔ ∃ columns elements, a.checkShape g = .ok columns ∧
      g.elements.zipIdx.mapM (fun x => convert x.1 (a.domainAt columns x.2)) = .ok elements ∧
        g' = { g with elements } := by
  rw [mapRows, except_bind_eq_ok]
  constructor
  · rintro ⟨columns, hcolumns, h⟩
    obtain ⟨elements, helements, h⟩ := except_bind_eq_ok.1 h
    injection h with h
    exact ⟨columns, elements, hcolumns, helements, h.symm⟩
  · rintro ⟨columns, elements, hcolumns, helements, rfl⟩
    exact ⟨columns, hcolumns, except_bind_eq_ok.2 ⟨elements, helements, rfl⟩⟩

theorem scaledElement_isScaled {width : Nat} {e v : Value} {domain : Binary64 × Binary64}
    (h : scaledElement width e domain = .ok v) : Imap.IsScaled domain.1 domain.2 width v := by
  obtain ⟨n, _, h⟩ := except_bind_eq_ok.1 h
  obtain ⟨bytes, _, h⟩ := except_bind_eq_ok.1 h
  obtain ⟨x, hx, h⟩ := except_bind_eq_ok.1 h
  injection h with h
  exact h ▸ (Imap.read_yields domain.1 domain.2 width).onBytes hx

theorem read_yields (a : RowArray) (length : Nat) :
    (a.read length).Yields fun v => ∃ g, v = g.toValue ∧ a.Readable g := by
  rw [read]
  refine (Grid.read_yields .uint length).bind fun g hg => ?_
  cases hrows : a.mapRows (scaledElement g.elementSize) g with
  | error e => exact .throw e
  | ok scaled =>
      obtain ⟨columns, elements, hcolumns, helements, rfl⟩ := mapRows_eq_ok.1 hrows
      obtain ⟨hlength, hall⟩ := zipIdx_mapM_all (P := fun v i =>
        Imap.IsScaled (a.domainAt columns i).1 (a.domainAt columns i).2 g.elementSize v)
        (fun _ _ _ h => scaledElement_isScaled h) helements
      refine .pure ⟨_, rfl, ⟨g.elements, hg, hlength.symm⟩, columns, ?_, hall⟩
      exact checkShape_congr hlength hcolumns

/-- A scaled element is an unsigned one of its width again. -/
theorem unsignedElement_eq_ok {width : Nat} {v : Value} {domain : Binary64 × Binary64}
    (h : Imap.IsScaled domain.1 domain.2 width v)
    (hrescales : Imap.Rescales domain.1 domain.2 width v) :
    ∃ e, unsignedElement width v domain = .ok e ∧ GridElement.uint.Holds width e := by
  obtain ⟨x, hx, hwrites⟩ := Imap.exists_write_writes h hrescales
  obtain ⟨bytes, hbytes, hlength⟩ := hwrites.bytes
  obtain ⟨_, hwidth⟩ := checkDomain_eq_ok.1 h.domain
  have hread := (Integer.reads_value bytes (by omega) (by omega)).onBytes
  rw [hlength] at hread
  refine ⟨_, except_bind_eq_ok.2 ⟨x, hx, except_bind_eq_ok.2 ⟨bytes, hbytes,
    except_bind_eq_ok.2 ⟨_, hread, rfl⟩⟩⟩, _, rfl, hwidth, ?_⟩
  rw [Integer.toNat_value_of_le (by omega), ← hlength]
  exact BigEndian.value_lt bytes

/-- An array of unsigned elements of one width is as readable as any other of its shape. -/
theorem readable_of_elements {elements elements' : List Value}
    (h : Grid.Readable .uint { g with elements })
    (hlength : elements'.length = elements.length)
    (hall : ∀ e ∈ elements', GridElement.uint.Holds g.elementSize e) :
    Grid.Readable .uint { g with elements := elements' } ∧
      Grid.Rewritable .uint { g with elements := elements' } := by
  obtain ⟨hdimensions, hsizes, hfew, hcount, hsize, hparameters, hallowed, hsingle, _⟩ := h
  refine ⟨⟨hdimensions, hsizes, hfew, hlength.trans hcount, hsize, hparameters, hallowed,
    hsingle, ?_⟩, ⟨fun hbiased => ?_, fun low high hdomain => ?_⟩⟩
  · exact Grid.content_of_unsigned hallowed hsingle hall
  · refine Grid.least_lt (Nat.two_pow_pos 56) fun v hv => ?_
    obtain ⟨e, he, hasUint⟩ := List.mem_filterMap.1 hv
    obtain ⟨n, rfl, _, hn⟩ := hall e he
    injection hasUint with hasUint
    rw [show g.elementSize = 1 from hsingle hbiased, hasUint] at hn
    exact Nat.lt_trans hn (by decide)
  · have hscaled : g.processing ≠ .scaled := by
      intro hscaled
      have hallowed' : GridElement.uint.allows g.processing := hallowed
      rw [hscaled] at hallowed'
      cases hallowed'
    rw [Grid.domain?_of_uint (g := { g with elements := elements' }) hscaled] at hdomain
    cases hdomain

/-- An array of scaled rows that was read can be written, if it is rewritable. -/
theorem encode_readable (h : a.Readable g) (hrewritable : a.Rewritable g) :
    ∃ bytes, a.encode g.toValue = .ok bytes := by
  obtain ⟨⟨elements, hbase, hlength⟩, columns, hcolumns, hscaled⟩ := h
  have hone : ∀ x ∈ g.elements.zipIdx,
      ∃ e, unsignedElement g.elementSize x.1 (a.domainAt columns x.2) = .ok e ∧
        GridElement.uint.Holds g.elementSize e :=
    fun x hx => unsignedElement_eq_ok (hscaled x hx) (hrewritable columns hcolumns x hx)
  obtain ⟨elements', helements', hlength', hall⟩ := except_mapM_of_all hone
  rw [List.length_zipIdx] at hlength'
  have hvalue : ofValue g.toValue = .ok g :=
    ofValue_toValue (fun size hs => (hbase.sizes size hs).2) hbase.elementSize hbase.parameters
  have hunsigned : a.toUnsigned g.toValue = .ok { g with elements := elements' } := by
    rw [toUnsigned, hvalue]
    exact mapRows_eq_ok.2 ⟨columns, elements', hcolumns, helements', rfl⟩
  obtain ⟨hreadable, hwritable⟩ := readable_of_elements hbase (hlength'.trans hlength.symm) hall
  rw [encode, hunsigned]
  exact Grid.encode_readable hreadable hwritable

end RowArray

end MotionMetadata
