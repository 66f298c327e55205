import MotionMetadata.Buffer
import MotionMetadata.Proofs.Fields

/-!
# Writing into a buffer adds what is encoded, or nothing

A piece that fails behind other pieces leaves these in the buffer. What it never does is to
touch bytes that were there before, so cutting the buffer off where it ended undoes it. That a
whole field or a whole packet leaves nothing behind therefore needs no more of its parts than
that they only add, and that they add what they are encoded as where they succeed.
-/

namespace MotionMetadata

namespace Appender

variable {α β : Type}

/-- Run on a buffer, the appender adds what the encoder answers. If that fails, so does the
appender, and it has added to the buffer if it has done anything to it. -/
def FollowsAt (a : Appender α) (x : Encoder α) (buffer : Bytes) : Prop :=
  match x buffer.length with
  | .ok (v, bytes) => a buffer = .ok v (buffer ++ bytes)
  | .error e => ∃ left, a buffer = .error e (buffer ++ left)

/-- The same on any buffer. -/
def Follows (a : Appender α) (x : Encoder α) : Prop := ∀ buffer, a.FollowsAt x buffer

/-- The same, with nothing left behind by a failure. -/
def Restores (a : Appender α) (x : Encoder α) : Prop :=
  ∀ buffer, match x buffer.length with
    | .ok (v, bytes) => a buffer = .ok v (buffer ++ bytes)
    | .error e => a buffer = .error e buffer

variable {a : Appender α} {x : Encoder α}

theorem Restores.follows (h : a.Restores x) : a.Follows x := by
  intro buffer
  have hbuffer := h buffer
  rw [FollowsAt]
  split
  · next hx =>
      rw [hx] at hbuffer
      exact hbuffer
  · next hx =>
      rw [hx] at hbuffer
      exact ⟨[], by rw [List.append_nil]; exact hbuffer⟩

theorem Restores.mapError {f : Error → Error} (h : a.Restores x) :
    Restores (Appender.mapError f a) (Encoder.mapError f x) := by
  intro buffer
  have hbuffer := h buffer
  rw [Encoder.mapError, Appender.mapError]
  cases hrun : x buffer.length with
  | error e =>
      rw [hrun] at hbuffer
      dsimp only at hbuffer ⊢
      rw [hbuffer]
  | ok written =>
      rw [hrun] at hbuffer
      dsimp only at hbuffer ⊢
      rw [hbuffer]

/-- A sequence whose first part works something out and writes nothing. -/
theorem Restores.after {y : Except Error α} {f : α → Appender β} {g : α → Encoder β}
    (h : ∀ v, (f v).Restores (g v)) :
    Restores (Appender.ofExcept y >>= f) (Encoder.ofExcept y >>= g) := by
  cases y with
  | error e => exact fun _ => rfl
  | ok v =>
      intro buffer
      rw [Encoder.bind_of_silent (Encoder.ofExcept_ok v)]
      exact h v buffer

/-- Cutting off what was added undoes a failure. -/
theorem Follows.undoing (h : a.Follows x) : (Appender.undoing a).Restores x := by
  intro buffer
  have hbuffer := h buffer
  rw [FollowsAt] at hbuffer
  rw [Appender.undoing]
  split
  · next hx =>
      rw [hx] at hbuffer
      rw [hbuffer]
  · next hx =>
      rw [hx] at hbuffer
      obtain ⟨left, hleft⟩ := hbuffer
      rw [hleft]
      dsimp only
      rw [List.take_left]

/-- A sequence, of which the second part may rely on what the first has added. -/
theorem FollowsAt.bind {f : α → Appender β} {g : α → Encoder β} {buffer : Bytes}
    (hx : a.FollowsAt x buffer)
    (hf : ∀ v bytes, x buffer.length = .ok (v, bytes) → (f v).FollowsAt (g v) (buffer ++ bytes)) :
    (a >>= f).FollowsAt (x >>= g) buffer := by
  rw [FollowsAt] at hx
  show match (x >>= g) buffer.length with
    | .ok (v, bytes) => EStateM.bind a f buffer = .ok v (buffer ++ bytes)
    | .error e => ∃ left, EStateM.bind a f buffer = .error e (buffer ++ left)
  match hrun : x buffer.length with
  | .error e =>
      rw [hrun] at hx
      obtain ⟨left, hleft⟩ := hx
      rw [Encoder.bind_of_error hrun]
      exact ⟨left, by rw [EStateM.bind, hleft]⟩
  | .ok (v, first) =>
      have hsecond := hf v first hrun
      rw [hrun] at hx
      rw [FollowsAt, List.length_append] at hsecond
      dsimp only at hx
      match hmore : g v (buffer.length + first.length) with
      | .error e =>
          rw [hmore] at hsecond
          obtain ⟨left, hleft⟩ := hsecond
          rw [Encoder.bind_of_ok_error hrun hmore]
          refine ⟨first ++ left, ?_⟩
          rw [EStateM.bind, hx, ← List.append_assoc]
          exact hleft
      | .ok (w, second) =>
          rw [hmore] at hsecond
          rw [Encoder.bind_of_ok hrun hmore]
          dsimp only at hsecond ⊢
          rw [EStateM.bind, hx, ← List.append_assoc]
          exact hsecond

/-- A sequence, of which the second part is told what the first has added. -/
theorem FollowsAt.captured {a : Appender Unit} {x : Encoder Unit} {f : Appender β}
    {g : Bytes → Encoder β} {buffer : Bytes} (hx : a.FollowsAt x buffer)
    (hf : ∀ body, f.FollowsAt (g body) (buffer ++ body)) :
    (a >>= fun _ => f).FollowsAt (Encoder.captured x >>= g) buffer := by
  match hrun : x buffer.length with
  | .error e =>
      have hsame :
          (Encoder.captured x >>= g) buffer.length = (x >>= fun _ => g []) buffer.length := by
        rw [Encoder.bind_of_error hrun, Encoder.bind_of_error (by rw [Encoder.captured, hrun])]
      rw [FollowsAt, hsame]
      refine hx.bind fun v bytes hok => ?_
      rw [hrun] at hok
      cases hok
  | .ok (v, body) =>
      have hcaptured : Encoder.captured x buffer.length = .ok (body, body) := by
        rw [Encoder.captured, hrun]
      have hsame : (Encoder.captured x >>= g) buffer.length =
          (x >>= fun _ => g body) buffer.length := by
        rw [Encoder.bind_apply, Encoder.bind_apply, hcaptured, hrun]
      rw [FollowsAt, hsame]
      refine hx.bind fun v bytes hok => ?_
      rw [hrun] at hok
      injection hok with hok
      injection hok with _ hok
      exact hok ▸ hf body

namespace Follows

theorem pure (v : α) : Follows (Pure.pure v) (Pure.pure v : Encoder α) :=
  fun buffer => by
    show _ = _
    rw [List.append_nil]
    rfl

theorem emit (bytes : Bytes) : Follows (Appender.emit bytes) (Encoder.emit bytes) :=
  fun _ => rfl

theorem throw (e : Error) :
    Follows (MonadExcept.throw e) (MonadExcept.throw e : Encoder α) :=
  fun _ => ⟨[], by rw [List.append_nil]; rfl⟩

theorem ofExcept (y : Except Error α) : Follows (Appender.ofExcept y) (Encoder.ofExcept y) := by
  cases y with
  | ok v => exact pure v
  | error e => exact throw e

theorem run (left : Bytes) (x : Encoder Unit) : Follows (Appender.run left x) x := by
  intro buffer
  rw [FollowsAt, Appender.run]
  split
  · next hx => rw [hx]
  · next hx =>
      rw [hx]
      exact ⟨left, rfl⟩

theorem bind {f : α → Appender β} {g : α → Encoder β} (hx : a.Follows x)
    (hf : ∀ v, (f v).Follows (g v)) : (a >>= f).Follows (x >>= g) :=
  fun buffer => (hx buffer).bind fun v bytes _ => hf v (buffer ++ bytes)

theorem mapError {f : Error → Error} (h : a.Follows x) :
    Follows (Appender.mapError f a) (Encoder.mapError f x) := by
  intro buffer
  have hbuffer := h buffer
  rw [FollowsAt] at hbuffer ⊢
  rw [Encoder.mapError, Appender.mapError]
  cases hrun : x buffer.length with
  | error e =>
      rw [hrun] at hbuffer
      obtain ⟨left, hleft⟩ := hbuffer
      exact ⟨left, by rw [hleft]⟩
  | ok written =>
      rw [hrun] at hbuffer
      dsimp only at hbuffer ⊢
      rw [hbuffer]

/-- What lies one level further in, where a level is left for it. -/
theorem descend {γ δ : Type} {inner : Option γ} {part : γ → δ} {f : γ → Appender β}
    {g : δ → Encoder β} (h : ∀ c, inner = some c → (f c).Follows (g (part c))) :
    (MotionMetadata.descend inner >>= f).Follows
      (MotionMetadata.descend (inner.map part) >>= g) := by
  cases inner with
  | none => exact fun _ => ⟨[], by rw [List.append_nil]; rfl⟩
  | some c =>
      have hsilent : (MotionMetadata.descend (some (part c)) >>= g : Encoder β) = g (part c) :=
        funext fun _ => Encoder.bind_of_silent rfl
      exact hsilent ▸ h c rfl

end Follows

end Appender

open Appender

/-! ## Fields -/

namespace BufferCodec

variable {b : BufferCodec}

/-- Writing values into a buffer follows the codec. -/
def Sound (b : BufferCodec) : Prop :=
  ∀ value length, (b.write value length).Follows (b.codec.write value length)

theorem Sound.writeContent (h : b.Sound) (value : Value) (length : Nat) :
    (b.writeContent value length).Restores (b.codec.writeContent value length) := by
  cases value with
  | empty =>
      intro buffer
      show _ = _
      rw [List.append_nil]
      rfl
  | blob bytes => exact fun _ => rfl
  | _ => exact (h _ length).undoing

theorem writeField_apply (value : Value) (length : Nat) (buffer : Bytes) :
    b.writeField value length buffer =
      match b.writeContent value length buffer with
      | .ok _ out =>
        if out.length - buffer.length = length then .ok () out
        else
          .error { fault := .writtenLength b.codec.description (out.length - buffer.length) length }
            (out.take buffer.length)
      | .error e out => .error e out := by
  show EStateM.bind (b.writeContent value length) _ buffer = _
  rw [EStateM.bind]
  cases b.writeContent value length buffer with
  | error e out => rfl
  | ok v out =>
      by_cases hlength : out.length - buffer.length = length
      · simp only [hlength, if_true]
        show (if out.length - buffer.length = length then pure () else _ : Appender Unit) out = _
        rw [if_pos hlength]
        rfl
      · simp only [hlength, if_false]
        show (if out.length - buffer.length = length then pure () else _ : Appender Unit) out = _
        rw [if_neg hlength]
        rfl

/-- A field is written into the buffer, or the buffer is left as it was. -/
theorem Sound.writeField (h : b.Sound) (value : Value) (length : Nat) :
    (b.writeField value length).Restores (b.codec.writeField value length) := by
  intro buffer
  have hcontent := h.writeContent value length buffer
  rw [writeField_apply, Codec.writeField, Encoder.bind_apply, Encoder.captured]
  cases hrun : b.codec.writeContent value length buffer.length with
  | error e =>
      rw [hrun] at hcontent
      dsimp only at hcontent ⊢
      rw [hcontent]
  | ok written =>
      obtain ⟨v, bytes⟩ := written
      rw [hrun] at hcontent
      dsimp only at hcontent ⊢
      have hadded : (buffer ++ bytes).length - buffer.length = bytes.length := by
        rw [List.length_append]
        omega
      rw [hcontent]
      dsimp only
      rw [hadded]
      by_cases hlength : bytes.length = length
      · rw [if_pos hlength, if_pos hlength]
        show _ = _
        rw [List.append_nil]
      · rw [if_neg hlength, if_neg hlength]
        show _ = _
        rw [List.take_left]

end BufferCodec

/-! ## Parts -/

theorem Series.writeInto_follows {element : BufferCodec} (h : element.Sound) (items : List Value) :
    (writeInto element items).Follows (Encoder.each (writeItem element.codec) items) := by
  induction items with
  | nil => exact .pure ()
  | cons item rest ih =>
      have hitem : (writeItemInto element item).Follows (writeItem element.codec item) :=
        (Follows.ofExcept _).bind fun length => (Follows.emit _).bind fun _ =>
          (h.writeField item length).follows
      exact hitem.bind fun _ => ih

namespace FieldSet

variable {κ : Type} [SetKey κ] {table : Table} {inner : Format → BufferCodec}

theorem writeEntryInto_follows (h : ∀ f, (inner f).Sound) (earlier : List Tag)
    (e : Entry κ Value) :
    (writeEntryInto table inner earlier e).Follows
      (writeEntry table (fun f => (inner f).codec) earlier e) :=
  .mapError ((Follows.ofExcept _).bind fun length => (Follows.run [] _).bind fun _ =>
    (Follows.emit _).bind fun _ => ((h _).writeField e.value length).follows)

theorem writeEntriesInto_follows (h : ∀ f, (inner f).Sound) (earlier : List Tag)
    (set : FieldSet κ) :
    (writeEntriesInto table inner earlier set).Follows
      (writeEntries table (fun f => (inner f).codec) earlier set) := by
  induction set generalizing earlier with
  | nil => exact .pure ()
  | cons e rest ih => exact (writeEntryInto_follows h earlier e).bind fun _ => ih _

theorem writeInto_follows {parts : Option (Format → BufferCodec)}
    (h : ∀ inner, parts = some inner → ∀ f, (inner f).Sound) (set : FieldSet κ) :
    (writeInto table parts set).Follows
      (write table (parts.map fun inner f => (inner f).codec) set) :=
  .descend fun inner hinner => (Follows.ofExcept _).bind fun order =>
    writeEntriesInto_follows (h inner hinner) [] order

end FieldSet

theorem IdPack.writeInto_follows {set : BufferCodec} (h : set.Sound) (value : Value) :
    (writeInto set value).Follows (IdPack.write set.codec value) :=
  (Follows.ofExcept _).bind fun _ => (Follows.run [] _).bind fun _ =>
    (Follows.ofExcept _).bind fun content => (Follows.ofExcept _).bind fun length =>
      (h.writeField content length).follows

/-! ## Formats -/

namespace Format

variable {registry : Registry} {left : Leftovers}

theorem layerInto_sound {parts : Option (Format → BufferCodec)}
    (h : ∀ inner, parts = some inner → ∀ f, (inner f).Sound) (f : Format) :
    (layerInto registry left parts f).Sound := by
  intro value length
  cases f with
  | plain p => exact .run _ _
  | series element =>
      show Follows (MotionMetadata.descend parts >>= _)
        (MotionMetadata.descend ((parts.map _).map _) >>= _)
      rw [Option.map_map]
      exact .descend fun inner hinner => (Follows.ofExcept _).bind fun items =>
        Series.writeInto_follows (h inner hinner element) items
  | localSet standard trailer =>
      exact (Follows.ofExcept _).bind fun set => FieldSet.writeInto_follows h set
  | universalSet standard =>
      exact (Follows.ofExcept _).bind fun set => FieldSet.writeInto_follows h set
  | idPack pack =>
      show Follows (MotionMetadata.descend parts >>= _)
        (MotionMetadata.descend ((parts.map _).map _) >>= _)
      rw [Option.map_map]
      exact .descend fun inner hinner => IdPack.writeInto_follows (h inner hinner _) value

/-- The codec of every level is the one of the encoder. -/
theorem codecInto_codec (registry : Registry) (left : Leftovers) (levels : Nat) (f : Format) :
    (codecInto registry left levels f).codec = codec registry levels f := by
  induction levels generalizing f with
  | zero => rfl
  | succ levels ih =>
      show layer registry (some fun f => (codecInto registry left levels f).codec) f = _
      rw [funext ih]
      rfl

theorem codecInto_sound (registry : Registry) (left : Leftovers) (levels : Nat) (f : Format) :
    (codecInto registry left levels f).Sound := by
  induction levels generalizing f with
  | zero =>
      refine layerInto_sound ?_ f
      intro inner h
      cases h
  | succ levels ih =>
      refine layerInto_sound (fun inner h => ?_) f
      injection h with h
      exact h ▸ ih

end Format

/-! ## Packets -/

/-- A trailer closes the packet that starts where the buffer ended. -/
theorem Checksum.Trailer.writeInto_follows (trailer : Trailer) (buffer body : Bytes) :
    FollowsAt (trailer.writeInto buffer.length) (trailer.write body) (buffer ++ body) := by
  refine (Follows.emit trailer.header _).bind fun _ bytes hheader => ?_
  injection hheader with hheader
  injection hheader with _ hheader
  subst hheader
  have hcovered : ((buffer ++ body) ++ trailer.header).drop buffer.length =
      body ++ trailer.header := by
    rw [List.append_assoc, List.drop_left]
  show FollowsAt (run [] (Integer.writeUnsigned (trailer.evaluate
    (((buffer ++ body) ++ trailer.header).drop buffer.length)) trailer.algorithm.width)) _ _
  rw [hcovered]
  exact Follows.run [] _ _

namespace Packet

theorem writeBodyInto_follows {part : BufferCodec} (h : part.Sound) (packet : Packet)
    (length closing : Nat) :
    (writeBodyInto part packet length closing).Follows (do
      packet.key.write
      Ber.writeLength (length + closing)
      part.codec.writeField packet.value length) :=
  (Follows.emit _).bind fun _ => (Follows.emit _).bind fun _ =>
    (h.writeField packet.value length).follows

/-- A packet is written into the buffer, or the buffer is left as it was. -/
theorem writeInto_restores (registry : Registry) (left : Format.Leftovers) (packet : Packet) :
    (writeInto registry left packet).Restores (write registry packet) := by
  have hcodec := Format.codecInto_codec registry left maxDepth (entry registry packet.key).format
  have hsound := Format.codecInto_sound registry left maxDepth (entry registry packet.key).format
  have houter : (entry registry packet.key).format.outermost registry =
      ((entry registry packet.key).format.codecInto registry left maxDepth).codec := hcodec.symm
  rw [writeInto, write]
  dsimp only
  rw [houter]
  refine .mapError (.after fun length => Follows.undoing fun buffer => ?_)
  refine (writeBodyInto_follows hsound packet length _ buffer).captured fun body => ?_
  cases htrailer : (entry registry packet.key).format.trailer with
  | none => exact Follows.pure () _
  | some trailer => exact trailer.writeInto_follows buffer body

end Packet

end MotionMetadata
