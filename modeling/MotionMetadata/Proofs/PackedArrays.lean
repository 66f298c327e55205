import MotionMetadata.Proofs.ExactNumbers
import MotionMetadata.Proofs.Lengths
import MotionMetadata.Proofs.RunLength

/-!
# Arrays without boxes

Elements that are not sent as boxes follow each other in one of three forms. Each in its own
width is the plain one. Truth values go eight to a byte, and the last byte is filled up; the
reader knows the number of elements from the sizes, so it takes what it needs and leaves the
rest. Whole numbers may go as differences from the least of them, in tags. Nothing is lost
there, since the least number is one of them: no difference is negative, and adding the least
number again cannot pass the element it was taken from.
-/

namespace MotionMetadata

/-! ## Elements and numbers -/

/-- Elements that are all of one kind are what was taken out of them. -/
theorem eq_map_of_mapM {α : Type} {require : Value → Except Error α} {f : α → Value}
    (hrequire : ∀ {v a}, require v = .ok a → v = f a) {elements : List Value} {items : List α}
    (h : elements.mapM require = .ok items) : elements = items.map f := by
  induction except_mapM_eq_ok.1 h with
  | nil => rfl
  | cons hfirst _ ih => rw [hrequire hfirst, List.map_cons, ← ih (except_mapM_eq_ok.2 ‹_›)]

namespace Grid

variable {element : GridElement} {position : Nat} {w : Bytes}

/-! ## Truth values in bytes -/

theorem ceilDiv_add_eight (n : Nat) : ceilDiv (n + 8) 8 = ceilDiv n 8 + 1 := by
  simp only [ceilDiv]
  omega

/-- However many bits there are, they are the first ones in their bytes. -/
theorem bytesOfBits_spec (bits : List Bool) :
    (bytesOfBits bits).length = ceilDiv bits.length 8 ∧
      (bitsOfBytes (bytesOfBits bits)).take bits.length = bits := by
  induction bits using bytesOfBits.induct with
  | case1 =>
      rw [bytesOfBits]
      exact ⟨rfl, rfl⟩
  | case2 bit rest ih =>
      obtain ⟨hlength, hbits⟩ := ih
      have hpadded : (bit :: rest.take 7 ++
          List.replicate (8 - (bit :: rest.take 7).length) false).length = 8 := by
        rw [List.length_append, List.length_replicate, List.length_cons, List.length_take]
        omega
      rw [bytesOfBits, bitsOfBytes_cons, bits_of_byte hpadded, List.length_cons, hlength,
        List.length_drop, List.length_cons]
      by_cases hshort : rest.length < 7
      · have hdrop : rest.drop 7 = [] := List.drop_eq_nil_of_le (by omega)
        have htake : rest.take 7 = rest := List.take_of_length_le (by omega)
        rw [hdrop, htake, bytesOfBits, bitsOfBytes, List.flatMap_nil, List.append_nil]
        refine ⟨?_, List.take_left' rfl⟩
        simp only [ceilDiv]
        omega
      · have hfull : (bit :: rest.take 7).length = 8 := by
          rw [List.length_cons, List.length_take]
          omega
        have hsplit : rest.length + 1 = (rest.length - 7) + 8 := by omega
        rw [hfull, Nat.sub_self, List.replicate_zero, List.append_nil, hsplit, ceilDiv_add_eight]
        refine ⟨rfl, ?_⟩
        rw [List.length_drop] at hbits
        rw [Nat.add_comm, ← hfull, List.take_length_add_append, hbits, List.cons_append,
          List.take_append_drop]

/-- Truth values are read as they were packed, however many there are. -/
theorem reads_packed (bits : List Bool) :
    Reader.Reads (Reader.take (ceilDiv bits.length 8)) (bytesOfBits bits) (bytesOfBits bits) :=
  (bytesOfBits_spec bits).1 ▸ .take _

/-! ## Differences -/

/-- A number that is not less than the bias is read from the difference as it was. -/
theorem reads_difference {bias v : UInt64} (hle : bias.toNat ≤ v.toNat)
    (h : Ber.writeTag (v - bias) position = .ok ((), w)) :
    Reader.Reads (readDifference bias) w (.uint v) := by
  have hdifference : (v - bias).toNat = v.toNat - bias.toNat :=
    UInt64.toNat_sub_of_le v bias hle
  have hfits : (v - bias).toNat + bias.toNat < 2 ^ 64 := by
    have := v.toNat_lt
    omega
  refine .position_bind fun _ => .bind_nil (Ber.reads_writeTag h) ?_
  rw [if_pos hfits, UInt64.sub_add_cancel]
  exact .pure _

/-- What it takes for the differences from the least of some numbers to be taken and undone in
machine words. -/
def Biases (values : List UInt64) : Prop :=
  least values ∈ values ∧ ∀ v ∈ values, (least values).toNat ≤ v.toNat ∧
    (v - least values).toNat = v.toNat - (least values).toNat ∧
    (v - least values).toNat + (least values).toNat < 2 ^ 64

theorem biases {values : List UInt64} (hne : values ≠ []) : Biases values := by
  obtain ⟨first, rest, rfl⟩ := List.exists_cons_of_ne_nil hne
  refine ⟨(least_spec (List.mem_cons_self ..)).1, fun v hv => ?_⟩
  have hle := (least_spec hv).2
  have hdifference := UInt64.toNat_sub_of_le v (least (first :: rest)) hle
  have hlt := v.toNat_lt
  exact ⟨hle, hdifference, by omega⟩

/-! ## The elements of an array -/

section Elements

variable {g : Grid} {bytes : Bytes} (hcount : g.elements.length = volume g.sizes)

include hcount

/-- Elements that each have their own width are read one by one, and they fill what is left. -/
theorem reads_natural (hdiscrete : ∀ e ∈ g.elements, e.Discrete) (hne : g.elements ≠ [])
    (hprocessing : g.processing = .natural)
    (h : g.writeElements element position = .ok ((), w)) (offset stop : Nat) :
    Reader.Reads (readElements element ⟨g.sizes, (UInt64.ofNat g.elementSize).toNat, .natural,
      offset⟩ w.length stop) w (natural g.sizes g.elements g.elementSize) := by
  rw [writeElements, hprocessing] at h
  have hwidth : g.elementSize < 2 ^ 64 := by
    obtain ⟨first, rest, hsplit⟩ := List.exists_cons_of_ne_nil hne
    rw [hsplit] at h
    obtain ⟨_, _, _, hfirst, _⟩ := Encoder.bind_eq_ok.1 h
    have hwidth := (GridElement.reads_write (hdiscrete first (hsplit ▸ List.mem_cons_self ..))
      hfirst).2.2.2
    omega
  have hone : ∀ e ∈ g.elements, (element.write e g.elementSize).Fills g.elementSize :=
    fun e he _ _ _ hwrite => (GridElement.reads_write (hdiscrete e he) hwrite).2.1
  have hfill : w.length = g.elements.length * g.elementSize := by
    rw [Encoder.Fills.each hone _ _ _ h, List.map_const', List.sum_replicate_nat]
  have hreads := Reader.reads_each (f := id) (fun e he _ _ hwrite =>
    (GridElement.reads_write (hdiscrete e he) hwrite).1) h
  rw [List.map_id, hcount] at hreads
  rw [UInt64.toNat_ofNat_of_lt' hwidth, readElements]
  dsimp only
  rw [if_pos (hcount ▸ hfill.ge)]
  exact .bind_nil hreads (.pure _)

/-- Truth values are read from the bits they were packed in. -/
theorem reads_boolean (hprocessing : g.processing = .boolean)
    (h : g.writeElements element position = .ok ((), w)) (elementSize offset left stop : Nat) :
    Reader.Reads (readElements element ⟨g.sizes, elementSize, .boolean, offset⟩ left stop) w
      { sizes := g.sizes, elements := g.elements, elementSize, processing := .boolean
        parametersLength := 0, bounds := none } := by
  rw [writeElements, hprocessing] at h
  obtain ⟨bits, hbits, h⟩ := Encoder.ofExcept_bind_eq_ok.1 h
  have helements := eq_map_of_mapM Value.requireBool_eq_ok hbits
  injection h with h
  injection h with _ h
  have hbitCount : bits.length = volume g.sizes := by
    rw [← hcount, helements, List.length_map]
  have hreads := reads_packed bits
  rw [hbitCount] at hreads
  subst h
  rw [readElements]
  refine .bind_nil hreads (.of_eq ?_ (.pure _))
  dsimp only
  rw [← hbitCount, (bytesOfBits_spec bits).2, helements]

/-- Differences from the least element are read as the elements. -/
theorem reads_biased (hne : g.elements ≠ []) (hprocessing : g.processing = .biased)
    (h : g.writeElements element position = .ok ((), w)) :
    ∃ values, g.elements = values.map Value.uint ∧ Biases values ∧
      ∀ elementSize offset left stop, Reader.Reads
        (readElements element ⟨g.sizes, elementSize, .biased, offset⟩ left stop) w
        { sizes := g.sizes, elements := g.elements, elementSize := 1, processing := .biased
          parametersLength := Ber.tagWidth (least values), bounds := none } := by
  rw [writeElements, hprocessing] at h
  obtain ⟨values, hvalues, h⟩ := Encoder.ofExcept_bind_eq_ok.1 h
  have helements := eq_map_of_mapM Value.requireUint_eq_ok hvalues
  obtain ⟨_, first, rest, hfirst, hrest, rfl⟩ := Encoder.bind_eq_ok.1 h
  have hsome : values ≠ [] := fun hnil => hne (by rw [helements, hnil, List.map_nil])
  have hreads : Reader.Reads (Reader.times values.length (readDifference (least values))) rest
      (values.map Value.uint) := Reader.reads_each
    (fun v hv _ _ hwrite => reads_difference ((biases hsome).2 v hv).1 hwrite) hrest
  rw [← helements, ← List.length_map (f := Value.uint), ← helements, hcount] at hreads
  refine ⟨values, helements, biases hsome, fun elementSize offset left stop => ?_⟩
  rw [readElements]
  exact (Ber.reads_writeTag hfirst).bind (.bind_nil hreads (.pure _))

end Elements

/-- An array that is sent element by element, as truth values in bytes, or as differences from
its least element comes back with its sizes, its processing and its elements. Taking the
differences and undoing them stays within a machine word, whatever the least element is. -/
theorem encoded_elements_read (element : GridElement) {g : Grid} {bytes : Bytes}
    (hprocessing : g.processing = .natural ∨ g.processing = .boolean ∨ g.processing = .biased)
    (hdiscrete : ∀ e ∈ g.elements, e.Discrete) (hfew : volume g.sizes ≤ maxElements)
    (hencode : g.encode element = .ok bytes) (hlength : bytes.length < 2 ^ 64) :
    (∃ back, Reader.Reads (read element bytes.length) bytes back ∧ back.sizes = g.sizes ∧
      back.processing = g.processing ∧ back.elements = g.elements) ∧
    (g.processing = .biased → ∃ values, g.elements = values.map Value.uint ∧ Biases values) := by
  obtain ⟨⟨_, hcount, hne⟩, head, body, p, hbody, rfl, hread⟩ := read_encoded hfew hencode hlength
  -- What follows the header decides; where the header stands does not.
  have hwhole : ∀ back, (∀ offset stop, Reader.Reads (readElements element ⟨g.sizes, (UInt64.ofNat
      (if g.processing = .biased then 1 else g.elementSize)).toNat, g.processing, offset⟩
      body.length stop) body back) →
      Reader.Reads (read element (head ++ body).length) (head ++ body) back := by
    intro back hback c t hc
    obtain ⟨hafter, offset, heq⟩ := hread c t hc
    rw [heq, hback offset _ _ t hafter, Cursor.advance_advance, List.length_append]
  rcases hprocessing with hprocessing | hprocessing | hprocessing
  · rw [hprocessing, if_neg (by decide)] at hwhole
    have hback := hwhole _ fun offset stop =>
      reads_natural hcount hdiscrete hne hprocessing hbody offset stop
    refine ⟨⟨_, hback, rfl, hprocessing.symm, rfl⟩, fun h => ?_⟩
    rw [hprocessing] at h
    cases h
  · rw [hprocessing, if_neg (by decide)] at hwhole
    have hback := hwhole _ fun offset stop =>
      reads_boolean hcount hprocessing hbody _ offset _ stop
    refine ⟨⟨_, hback, rfl, hprocessing.symm, rfl⟩, fun h => ?_⟩
    rw [hprocessing] at h
    cases h
  · obtain ⟨values, helements, hbiases, hreads⟩ := reads_biased hcount hne hprocessing hbody
    rw [hprocessing, if_pos rfl] at hwhole
    have hback := hwhole _ fun offset stop => hreads _ offset _ stop
    exact ⟨⟨_, hback, rfl, hprocessing.symm, rfl⟩, fun _ => ⟨values, helements, hbiases⟩⟩

/-- Eleven truth values, which take two bytes. -/
def elevenBits : Grid where
  sizes := [11]
  elements := [true, false, true, true, false, false, true, false, true, true, true].map .bool
  elementSize := 1
  processing := .boolean
  parametersLength := 0
  bounds := none

/-- Two numbers at the end of what a tag holds. -/
def lastTags : Grid := biased [2, 1] [.uint 72057594037927935, .uint 72057594037927934]

/-- Both come back. -/
theorem elevenBits_lastTags_read :
    (∃ bytes back, elevenBits.encode .bool = .ok bytes ∧ bytes.length = 6 ∧
      Reader.Reads (read .bool bytes.length) bytes back ∧ back.elements = elevenBits.elements) ∧
    ∃ bytes back, lastTags.encode .uint = .ok bytes ∧
      Reader.Reads (read .uint bytes.length) bytes back ∧ back.elements = lastTags.elements := by
  refine ⟨?_, ?_⟩
  · have hpacked : bytesOfBits [true, false, true, true, false, false, true, false, true, true,
        true] = [0xB2, 0xE0] := by
      simp [bytesOfBits]
    have hencode : elevenBits.encode .bool = .ok [1, 11, 1, 3, 0xB2, 0xE0] :=
      hpacked ▸ rfl
    obtain ⟨⟨back, hback, _, _, helements⟩, _⟩ := encoded_elements_read .bool (.inr (.inl rfl))
      (fun e he => by
        obtain ⟨b, _, rfl⟩ := List.mem_map.1 he
        exact .bool b) (by decide) hencode (by decide)
    exact ⟨_, back, hencode, rfl, hback, helements⟩
  · have hencode : lastTags.encode .uint =
        .ok [2, 2, 1, 1, 4, 0xFF, 0xFF, 0xFF, 0xFF, 0xFF, 0xFF, 0xFF, 0x7E, 1, 0] := rfl
    obtain ⟨⟨back, hback, _, _, helements⟩, _⟩ := encoded_elements_read .uint (.inr (.inr rfl))
      (fun e he => by
        rcases List.mem_pair.1 he with rfl | rfl <;> exact .uint _) (by decide) hencode (by decide)
    exact ⟨_, back, hencode, hback, helements⟩

end Grid

end MotionMetadata
