import MotionMetadata.Proofs.Ber
import MotionMetadata.Proofs.Writing

/-!
# What readers answer and encoders take

Whether a value that was read can be written again is a question about two programs that
never meet. Each side gets a relation of its own. `Reader.Yields` says what is true of every
value that a reader answers, whatever the bytes; `Encoder.Writes` says that an encoder does
not fail and how many bytes it adds, whatever the buffer. Both follow the sequences of the
programs, so the two meet where a value is: what the reader yields has to be what the encoder
asks for.
-/

namespace MotionMetadata

namespace Reader

variable {α β : Type} {P : α → Prop} {Q : β → Prop}

/-- Every value that the reader answers has the property. -/
def Yields (reader : Reader α) (P : α → Prop) : Prop :=
  ∀ c a d, reader c = .ok a d → P a

theorem Yields.pure {a : α} (h : P a) : (pure a : Reader α).Yields P := by
  intro c b d hread
  injection hread with hb _
  exact hb ▸ h

theorem Yields.raiseAt (offset : Nat) (fault : Fault) :
    (raiseAt offset fault : Reader α).Yields P :=
  fun _ _ _ hread => nomatch hread

theorem Yields.throw (e : Error) : (throw e : Reader α).Yields P :=
  fun _ _ _ hread => nomatch hread

theorem Yields.any (reader : Reader α) : reader.Yields fun _ => True :=
  fun _ _ _ _ => trivial

theorem Yields.bind {reader : Reader α} {f : α → Reader β} (hreader : reader.Yields P)
    (hf : ∀ a, P a → (f a).Yields Q) : (reader >>= f).Yields Q := by
  intro c b d hread
  obtain ⟨a, c', ha, hb⟩ := bind_eq_ok.1 hread
  exact hf a (hreader c a c' ha) c' b d hb

/-- A sequence that does not rely on what its first part answers. -/
theorem Yields.after {reader : Reader α} {f : α → Reader β} (hf : ∀ a, (f a).Yields Q) :
    (reader >>= f).Yields Q :=
  (Yields.any reader).bind fun a _ => hf a

theorem Yields.imp {reader : Reader α} {P' : α → Prop} (h : reader.Yields P)
    (himp : ∀ a, P a → P' a) : reader.Yields P' :=
  fun c a d hread => himp a (h c a d hread)

theorem Yields.and {reader : Reader α} {P' : α → Prop} (h : reader.Yields P)
    (h' : reader.Yields P') : reader.Yields fun a => P a ∧ P' a :=
  fun c a d hread => ⟨h c a d hread, h' c a d hread⟩

theorem Yields.map {reader : Reader α} {f : α → β} (h : reader.Yields fun a => Q (f a)) :
    (f <$> reader).Yields Q := by
  intro c b d hread
  obtain ⟨a, ha, rfl⟩ := map_eq_ok.1 hread
  exact h c a d ha

theorem Yields.ite {p : Prop} [Decidable p] {x y : Reader α} (hx : p → x.Yields P)
    (hy : ¬ p → y.Yields P) : (if p then x else y).Yields P := by
  split
  · next hp => exact hx hp
  · next hp => exact hy hp

/-- A sequence that goes on only under a condition. -/
theorem Yields.require {p : Prop} [Decidable p] {x : Reader α} {offset : Nat} {fault : Fault}
    (hx : p → x.Yields P) :
    (if p then x else MotionMetadata.raiseAt offset fault >>= fun (_ : Unit) => x).Yields P :=
  .ite hx fun _ _ _ _ hread => nomatch hread

/-- A sequence that does not go on under a condition. -/
theorem Yields.refuse {p : Prop} [Decidable p] {x : Reader α} {offset : Nat} {fault : Fault}
    (hx : ¬ p → x.Yields P) :
    (if p then MotionMetadata.raiseAt offset fault >>= fun (_ : Unit) => x else x).Yields P :=
  .ite (fun _ _ _ _ hread => nomatch hread) hx

theorem Yields.mapError {reader : Reader α} {f : Error → Error} (h : reader.Yields P) :
    (mapError f reader).Yields P :=
  fun c a d hread => h c a d (mapError_eq_ok.1 hread)

theorem Yields.restoring {reader : Reader α} (h : reader.Yields P) :
    (restoring reader).Yields P :=
  fun c a d hread => h c a d (restoring_eq_ok.1 hread)

theorem Yields.inField {reader : Reader α} (h : reader.Yields P) (n : Nat) :
    (inField n reader).Yields P := by
  intro c a d hread
  obtain ⟨_, _, d', hinner⟩ := inField_eq_ok.1 hread
  exact h _ a d' hinner

theorem Yields.times {reader : Reader α} (h : reader.Yields P) (n : Nat) :
    (times n reader).Yields fun items => items.length = n ∧ ∀ a ∈ items, P a := by
  induction n with
  | zero => exact .pure ⟨rfl, by simp⟩
  | succ n ih =>
      refine h.bind fun a ha => ih.bind fun items hitems => .pure ⟨?_, ?_⟩
      · rw [List.length_cons, hitems.1]
      · exact List.forall_mem_cons.2 ⟨ha, hitems.2⟩

theorem Yields.onBytes {reader : Reader α} (h : reader.Yields P) {data : Bytes} {a : α}
    (hread : reader.onBytes data = .ok a) : P a := by
  obtain ⟨d, hread⟩ := onBytes_eq_ok.1 hread
  exact h _ a d hread

theorem Yields.take (n : Nat) : (take n).Yields fun bytes => bytes.length = n := by
  intro c bytes d hread
  obtain ⟨hle, rfl, _⟩ := take_eq_ok.1 hread
  exact List.length_take_of_le hle

end Reader

namespace Ber

theorem readTag_yields : readTag.Yields fun v => v.toNat < 2 ^ 56 :=
  fun _ _ _ hread => readTag_lt hread

end Ber

namespace Encoder

variable {α : Type}

/-- The encoder does not fail, and adds so many bytes wherever it is run. -/
def Writes (encoder : Encoder Unit) (n : Nat) : Prop :=
  ∀ position, ∃ bytes, bytes.length = n ∧ encoder position = .ok ((), bytes)

theorem Writes.pure : (pure () : Encoder Unit).Writes 0 :=
  fun _ => ⟨[], rfl, rfl⟩

theorem Writes.emit (bytes : Bytes) : (emit bytes).Writes bytes.length :=
  fun _ => ⟨bytes, rfl, rfl⟩

theorem Writes.bind {x y : Encoder Unit} {m n : Nat} (hx : x.Writes m) (hy : y.Writes n) :
    (x >>= fun _ => y).Writes (m + n) := by
  intro position
  obtain ⟨first, hfirst, hxok⟩ := hx position
  obtain ⟨second, hsecond, hyok⟩ := hy (position + first.length)
  refine ⟨first ++ second, ?_, bind_of_ok hxok hyok⟩
  rw [List.length_append, hfirst, hsecond]

theorem Writes.of_silent {x : Encoder α} {f : α → Encoder Unit} {a : α} {n : Nat}
    (hx : ∀ position, x position = .ok (a, [])) (hf : (f a).Writes n) :
    (x >>= f).Writes n := by
  intro position
  rw [bind_of_silent (hx position)]
  exact hf position

theorem Writes.ofExcept {x : Except Error α} {f : α → Encoder Unit} {a : α} {n : Nat}
    (hx : x = .ok a) (hf : (f a).Writes n) : (Encoder.ofExcept x >>= f).Writes n := by
  subst hx
  exact .of_silent (fun _ => rfl) hf

theorem Writes.mapError {encoder : Encoder Unit} {f : Error → Error} {n : Nat}
    (h : encoder.Writes n) : (mapError f encoder).Writes n := by
  intro position
  obtain ⟨bytes, hbytes, hok⟩ := h position
  exact ⟨bytes, hbytes, mapError_eq_ok.2 hok⟩

/-- A sequence that goes on with the bytes of its first part. -/
theorem Writes.captured {x : Encoder Unit} {f : Bytes → Encoder Unit} {m n : Nat}
    (hx : x.Writes m) (hf : ∀ body, (f body).Writes n) :
    (Encoder.captured x >>= f).Writes (m + n) := by
  intro position
  obtain ⟨body, hbody, hok⟩ := hx position
  obtain ⟨rest, hrest, hfok⟩ := hf body (position + body.length)
  refine ⟨body ++ rest, ?_, bind_of_ok (captured_eq_ok.2 ⟨rfl, (), hok⟩) hfok⟩
  rw [List.length_append, hbody, hrest]

theorem Writes.each {write : α → Encoder Unit} {width : α → Nat} {items : List α}
    (h : ∀ item ∈ items, (write item).Writes (width item)) :
    (each write items).Writes (items.map width).sum := by
  induction items with
  | nil => exact .pure
  | cons item rest ih =>
      rw [List.map_cons, List.sum_cons]
      exact (h item (List.mem_cons_self ..)).bind
        (ih fun item' hmem => h item' (List.mem_cons_of_mem _ hmem))

/-- Items that all take the same number of bytes. -/
theorem Writes.each_const {write : α → Encoder Unit} {n : Nat} {items : List α}
    (h : ∀ item ∈ items, (write item).Writes n) :
    (Encoder.each write items).Writes (items.length * n) := by
  have heach : (Encoder.each write items).Writes (items.map fun _ => n).sum := .each h
  rw [List.map_const', List.sum_replicate_nat] at heach
  exact heach

/-- What an encoder that does not fail writes to an empty buffer. -/
theorem Writes.bytes {encoder : Encoder Unit} {n : Nat} (h : encoder.Writes n) :
    ∃ bytes, encoder.bytes = .ok bytes ∧ bytes.length = n := by
  obtain ⟨bytes, hlength, hok⟩ := h 0
  exact ⟨bytes, bytes_eq_ok.2 ⟨(), hok⟩, hlength⟩

/-- The encoder does not fail, however many bytes it adds. -/
def Succeeds (encoder : Encoder Unit) : Prop := ∃ n, encoder.Writes n

theorem Writes.succeeds {encoder : Encoder Unit} {n : Nat} (h : encoder.Writes n) :
    encoder.Succeeds :=
  ⟨n, h⟩

theorem Succeeds.bind {x y : Encoder Unit} (hx : x.Succeeds) (hy : y.Succeeds) :
    (x >>= fun _ => y).Succeeds := by
  obtain ⟨m, hx⟩ := hx
  obtain ⟨n, hy⟩ := hy
  exact ⟨m + n, hx.bind hy⟩

theorem Succeeds.ofExcept {x : Except Error α} {f : α → Encoder Unit} {a : α}
    (hx : x = .ok a) (hf : (f a).Succeeds) : (Encoder.ofExcept x >>= f).Succeeds :=
  hf.imp fun _ hf => .ofExcept hx hf

theorem Succeeds.ite {p : Prop} [Decidable p] {x y : Encoder Unit} (hx : p → x.Succeeds)
    (hy : ¬ p → y.Succeeds) : (if p then x else y).Succeeds := by
  split
  · next hp => exact hx hp
  · next hp => exact hy hp

theorem Succeeds.each {write : α → Encoder Unit} {items : List α}
    (h : ∀ item ∈ items, (write item).Succeeds) : (Encoder.each write items).Succeeds := by
  induction items with
  | nil => exact Writes.pure.succeeds
  | cons item rest ih =>
      obtain ⟨hitem, hrest⟩ := List.forall_mem_cons.1 h
      exact hitem.bind (ih hrest)

theorem Succeeds.bytes {encoder : Encoder Unit} (h : encoder.Succeeds) :
    ∃ bytes, encoder.bytes = .ok bytes := by
  obtain ⟨n, h⟩ := h
  exact h.bytes.imp fun _ hbytes => hbytes.1

end Encoder

namespace Ber

theorem writeTag_writes {v : UInt64} (h : v.toNat < 2 ^ 56) :
    (writeTag v).Writes (tagWidth v) :=
  fun _ => ⟨tagBytes v, length_tagBytes v, writeTag_eq_ok.2 ⟨h, rfl⟩⟩

theorem writeLength_writes (n : Nat) : (writeLength n).Writes (widthOfLength n) :=
  fun _ => ⟨_, length_lengthBytes (UInt64.ofNat n), rfl⟩

end Ber

end MotionMetadata
