import MotionMetadata.Proofs.Locality
import MotionMetadata.Proofs.Fields

/-!
# What answers do not depend on

Every error but one is absorbed by the field it happens in. The one is nesting past the limit,
and whoever reports it should have met it: no number, text or pack without parts ever does.
`Shallow` says of a result, and of a reader, that it is no such report, or that it is one for a
reason. What the reason is stays open. It is the proposition `deep`, which is false for
everything without parts.

Where in a buffer an encoder stands shows in the offsets of errors and nowhere else: what
succeeds somewhere succeeds everywhere, with the same bytes. `Encoder.Steady` says so, and that
the encoder is shallow with it. Readers and encoders are made of few parts, and each way to put
them together keeps these properties.
-/

namespace MotionMetadata

variable {α β : Type} {deep : Prop}

/-! ## Results -/

/-- Whether a fault is that of nesting too deep. -/
def Fault.isDeep (fault : Fault) : Bool := fault.kind == .depth

theorem Fault.kind_ne {fault : Fault} (h : fault.isDeep = false) : fault.kind ≠ .depth :=
  ne_of_beq_false h

/-- If the result is an error for depth, then `deep`. -/
def Shallow (deep : Prop) (x : Except Error α) : Prop :=
  ∀ e, x = .error e → e.kind = .depth → deep

namespace Shallow

theorem ok (a : α) : Shallow deep (.ok a) := nofun

theorem error {e : Error} (h : e.kind ≠ .depth) : Shallow deep (.error e : Except Error α) := by
  intro e' he hdepth
  injection he with he
  exact absurd (he ▸ hdepth) h

theorem raise {fault : Fault} (h : fault.isDeep = false) :
    Shallow deep (MotionMetadata.raise fault : Except Error α) := error (Fault.kind_ne h)

/-- A sequence that relies on what its first part answers. -/
theorem bind_of {x : Except Error α} {f : α → Except Error β} (hx : Shallow deep x)
    (hf : ∀ a, x = .ok a → Shallow deep (f a)) : Shallow deep (x >>= f) := by
  cases x with
  | ok a => exact hf a rfl
  | error e => exact fun e' he => hx e' (by injection he with he; rw [he])

theorem bind {x : Except Error α} {f : α → Except Error β} (hx : Shallow deep x)
    (hf : ∀ a, Shallow deep (f a)) : Shallow deep (x >>= f) := hx.bind_of fun a _ => hf a

/-- Nothing is looked at behind an error. -/
theorem raise_bind {fault : Fault} {f : α → Except Error β} (h : fault.isDeep = false) :
    Shallow deep (MotionMetadata.raise fault >>= f) := error (Fault.kind_ne h)

theorem map {x : Except Error α} {f : α → β} (hx : Shallow deep x) : Shallow deep (f <$> x) := by
  cases x with
  | ok a => exact ok (f a)
  | error e => exact fun e' he => hx e' (by injection he with he; rw [he])

theorem inside {x : Except Error α} (place : String) (hx : Shallow deep x) :
    Shallow deep (Value.inside place x) := by
  cases x with
  | ok a => exact ok a
  | error e =>
      intro e' he hdepth
      injection he with he
      subst he
      exact hx e rfl hdepth

theorem ite {p : Prop} [Decidable p] {x y : Except Error α} (hx : p → Shallow deep x)
    (hy : ¬ p → Shallow deep y) : Shallow deep (if p then x else y) := by
  split
  · next hp => exact hx hp
  · next hp => exact hy hp

theorem mapM {f : α → Except Error β} {items : List α} (h : ∀ a ∈ items, Shallow deep (f a)) :
    Shallow deep (items.mapM f) := by
  induction items with
  | nil => exact ok []
  | cons item rest ih =>
      obtain ⟨hitem, hrest⟩ := List.forall_mem_cons.1 h
      rw [List.mapM_cons]
      exact hitem.bind fun b => (ih hrest).bind fun bs => ok (b :: bs)

theorem forM {f : α → Except Error Unit} (h : ∀ a, Shallow deep (f a)) (items : List α) :
    Shallow deep (items.forM f) := by
  induction items with
  | nil => exact ok ()
  | cons item rest ih => exact (h item).bind fun _ => ih

theorem foldlM {f : β → α → Except Error β} (h : ∀ b a, Shallow deep (f b a)) (items : List α)
    (first : β) : Shallow deep (items.foldlM f first) := by
  induction items generalizing first with
  | nil => exact ok first
  | cons item rest ih =>
      rw [List.foldlM_cons]
      exact (h first item).bind ih

end Shallow

/-! ## Readers -/

namespace Reader

/-- If the reader fails for depth, then `deep`. -/
def Shallow (deep : Prop) (r : Reader α) : Prop :=
  ∀ c e d, r c = .error e d → e.kind = .depth → deep

namespace Shallow

variable {r : Reader α} {f : α → Reader β}

theorem of_ok (h : ∀ c, ∃ a d, r c = .ok a d) : r.Shallow deep := by
  intro c e d he
  obtain ⟨a, d', hok⟩ := h c
  rw [hok] at he
  cases he

theorem pure (a : α) : (Pure.pure a : Reader α).Shallow deep := of_ok fun c => ⟨a, c, rfl⟩

theorem throw {e : Error} (h : e.kind = .depth → deep) :
    (MonadExcept.throw e : Reader α).Shallow deep := by
  intro c e' d he hdepth
  injection he with he
  exact h (he ▸ hdepth)

theorem raiseAt {offset : Nat} {fault : Fault} (h : fault.isDeep = false) :
    (MotionMetadata.raiseAt offset fault : Reader α).Shallow deep :=
  throw fun hdepth => absurd hdepth (Fault.kind_ne h)

theorem bind (hr : r.Shallow deep) (hf : ∀ a, (f a).Shallow deep) : (r >>= f).Shallow deep := by
  intro c e d he hdepth
  cases hfirst : r c with
  | ok a c' =>
      rw [bind_of_ok hfirst] at he
      exact hf a c' e d he hdepth
  | error e' c' =>
      rw [bind_of_error hfirst] at he
      injection he with he
      exact hr c e' c' hfirst (he ▸ hdepth)

theorem map (f : α → β) (hr : r.Shallow deep) : (f <$> r).Shallow deep := by
  rw [← bind_pure_comp]
  exact hr.bind fun a => pure (f a)

theorem ite {p : Prop} [Decidable p] {x y : Reader α} (hx : p → x.Shallow deep)
    (hy : ¬ p → y.Shallow deep) : (if p then x else y).Shallow deep := by
  split
  · next hp => exact hx hp
  · next hp => exact hy hp

theorem require {p : Prop} [Decidable p] {x : Reader α} {offset : Nat} {fault : Fault}
    (h : fault.isDeep = false) (hx : x.Shallow deep) :
    (if p then x else MotionMetadata.raiseAt offset fault >>= fun (_ : Unit) => x).Shallow deep :=
  ite (fun _ => hx) fun _ => (raiseAt h).bind fun _ => hx

theorem refuse {p : Prop} [Decidable p] {x : Reader α} {offset : Nat} {fault : Fault}
    (h : fault.isDeep = false) (hx : x.Shallow deep) :
    (if p then MotionMetadata.raiseAt offset fault >>= fun (_ : Unit) => x else x).Shallow deep :=
  ite (fun _ => (raiseAt h).bind fun _ => hx) fun _ => hx

theorem position : Reader.position.Shallow deep := of_ok fun c => ⟨_, c, rfl⟩

theorem remaining : Reader.remaining.Shallow deep := of_ok fun c => ⟨_, c, rfl⟩

theorem atEnd : Reader.atEnd.Shallow deep := of_ok fun c => ⟨_, c, rfl⟩

theorem enter (n : Nat) : (Reader.enter n).Shallow deep := by
  intro c e d he hdepth
  rcases Nat.lt_or_ge c.rest.length n with hlt | hle
  · rw [enter_of_lt hlt] at he
    injection he with he
    subst he
    cases hdepth
  · rw [enter_of_le hle] at he
    cases he

theorem take (n : Nat) : (Reader.take n).Shallow deep := by
  intro c e d he hdepth
  rcases Nat.lt_or_ge c.rest.length n with hlt | hle
  · rw [take_of_lt hlt] at he
    injection he with he
    subst he
    cases hdepth
  · rw [take_of_le hle] at he
    cases he

theorem byte : Reader.byte.Shallow deep := (take 1).bind fun _ => pure _

theorem bool : Reader.bool.Shallow deep := byte.bind fun _ => pure _

theorem within {place : String} (hr : r.Shallow deep) :
    (Reader.mapError (·.within place) r).Shallow deep := by
  intro c e d he hdepth
  rw [Reader.mapError] at he
  cases hr' : r c with
  | ok a c' =>
      rw [hr'] at he
      cases he
  | error e' c' =>
      rw [hr'] at he
      injection he with he
      subst he
      exact hr c e' c' hr' hdepth

theorem restoring (hr : r.Shallow deep) : (Reader.restoring r).Shallow deep := by
  intro c e d he hdepth
  rw [Reader.restoring] at he
  cases hr' : r c with
  | ok a c' =>
      rw [hr'] at he
      cases he
  | error e' c' =>
      rw [hr'] at he
      injection he with he
      exact hr c e' c' hr' (he ▸ hdepth)

theorem times (hr : r.Shallow deep) (n : Nat) : (Reader.times n r).Shallow deep := by
  induction n with
  | zero => exact pure []
  | succ n ih => exact hr.bind fun _ => ih.bind fun _ => pure _

theorem onBytes (hr : r.Shallow deep) (data : Bytes) :
    MotionMetadata.Shallow deep (r.onBytes data) := by
  rw [Reader.onBytes]
  cases hr' : r (Cursor.ofBytes data) with
  | ok a c' => exact .ok a
  | error e' c' =>
      intro e he
      injection he with he
      exact he ▸ hr _ e' c' hr'

end Shallow

end Reader

/-! ## Encoders -/

namespace Encoder

/-- What the encoder writes does not depend on where it writes, and if it refuses something for
its depth, then `deep`. -/
structure Steady (deep : Prop) (x : Encoder α) : Prop where
  moves : ∀ {position r}, x position = .ok r → ∀ position', x position' = .ok r
  shallow : ∀ {position}, Shallow deep (x position)

namespace Steady

variable {x : Encoder α} {f : α → Encoder β}

theorem mono {deep' : Prop} (h : x.Steady deep) (himp : deep → deep') : x.Steady deep' :=
  ⟨h.moves, fun e he hdepth => himp (h.shallow e he hdepth)⟩

theorem pure (a : α) : (Pure.pure a : Encoder α).Steady deep :=
  ⟨fun h _ => h, Shallow.ok (a, [])⟩

theorem emit (bytes : Bytes) : (Encoder.emit bytes).Steady deep :=
  ⟨fun h _ => h, Shallow.ok ((), bytes)⟩

/-- An encoder that always fails, and not for depth. -/
theorem refusal (h : ∀ position, ∃ e, x position = .error e ∧ e.kind ≠ .depth) :
    x.Steady deep := by
  refine ⟨fun {position r} hok => ?_, fun {position} e he hdepth => ?_⟩
  · obtain ⟨e, he, _⟩ := h position
    rw [he] at hok
    cases hok
  · obtain ⟨e', he', hkind⟩ := h position
    rw [he'] at he
    injection he with he
    exact absurd (he ▸ hdepth) hkind

theorem raise {fault : Fault} (h : fault.isDeep = false) :
    (MotionMetadata.raise fault : Encoder α).Steady deep :=
  refusal fun _ => ⟨_, rfl, Fault.kind_ne h⟩

theorem ofExcept {y : Except Error α} (h : Shallow deep y) : (Encoder.ofExcept y).Steady deep := by
  cases y with
  | ok a => exact pure a
  | error e => exact ⟨nofun, fun {_} e' he => h e' (by injection he with he; rw [he])⟩

theorem bind (hx : x.Steady deep) (hf : ∀ a, (f a).Steady deep) : (x >>= f).Steady deep := by
  refine ⟨fun {position r} hok position' => ?_, fun {position} e he hdepth => ?_⟩
  · obtain ⟨b, bytes⟩ := r
    obtain ⟨a, first, second, hfirst, hsecond, rfl⟩ := bind_eq_ok.1 hok
    exact bind_of_ok (hx.moves hfirst position') ((hf a).moves hsecond _)
  · match hfirst : x position with
    | .error e' =>
        rw [bind_of_error hfirst] at he
        exact hx.shallow e' hfirst (by injection he with he; rwa [he])
    | .ok (a, first) =>
        match hsecond : f a (position + first.length) with
        | .error e' =>
            rw [bind_of_ok_error hfirst hsecond] at he
            exact (hf a).shallow e' hsecond (by injection he with he; rwa [he])
        | .ok (b, second) =>
            rw [bind_of_ok hfirst hsecond] at he
            cases he

/-- A sequence that relies on what was worked out before it. -/
theorem ofExcept_bind {y : Except Error α} (hy : Shallow deep y)
    (hf : ∀ a, y = .ok a → (f a).Steady deep) : (Encoder.ofExcept y >>= f).Steady deep := by
  cases y with
  | ok a =>
      have hsilent : (Encoder.ofExcept (.ok a) >>= f) = f a :=
        funext fun _ => bind_of_silent (ofExcept_ok a)
      exact hsilent ▸ hf a rfl
  | error e => exact ⟨nofun, fun {_} e' he => hy e' (by injection he with he; rw [he])⟩

theorem ite {p : Prop} [Decidable p] {x y : Encoder α} (hx : p → x.Steady deep)
    (hy : ¬ p → y.Steady deep) : (if p then x else y).Steady deep := by
  split
  · next hp => exact hx hp
  · next hp => exact hy hp

/-- A sequence that goes on only under a condition. -/
theorem require {p : Prop} [Decidable p] {x : Encoder α} {fault : Fault}
    (h : fault.isDeep = false) (hx : x.Steady deep) :
    (if p then x else MotionMetadata.raise fault >>= fun (_ : Unit) => x).Steady deep :=
  ite (fun _ => hx) fun _ => (raise h).bind fun _ => hx

/-- A sequence that does not go on under a condition. -/
theorem refuse {p : Prop} [Decidable p] {x : Encoder α} {fault : Fault}
    (h : fault.isDeep = false) (hx : x.Steady deep) :
    (if p then MotionMetadata.raise fault >>= fun (_ : Unit) => x else x).Steady deep :=
  ite (fun _ => (raise h).bind fun _ => hx) fun _ => hx

theorem within {place : String} (hx : x.Steady deep) :
    (Encoder.mapError (·.within place) x).Steady deep := by
  refine ⟨fun hok position' => ?_, fun {position} e he hdepth => ?_⟩
  · exact mapError_eq_ok.2 (hx.moves (mapError_eq_ok.1 hok) position')
  · rw [Encoder.mapError] at he
    cases hx' : x position with
    | ok r =>
        rw [hx'] at he
        cases he
    | error e' =>
        rw [hx'] at he
        injection he with he
        subst he
        exact hx.shallow e' hx' hdepth

theorem captured (hx : x.Steady deep) : (Encoder.captured x).Steady deep := by
  refine ⟨fun {position r} hok position' => ?_, fun {position} e he hdepth => ?_⟩
  · obtain ⟨written, bytes⟩ := r
    obtain ⟨rfl, a, hwrite⟩ := captured_eq_ok.1 hok
    exact captured_eq_ok.2 ⟨rfl, a, hx.moves hwrite position'⟩
  · rw [Encoder.captured] at he
    cases hx' : x position with
    | ok r =>
        rw [hx'] at he
        cases he
    | error e' =>
        rw [hx'] at he
        injection he with he
        exact hx.shallow e' hx' (he ▸ hdepth)

theorem each {write : α → Encoder Unit} {items : List α}
    (h : ∀ item ∈ items, (write item).Steady deep) : (Encoder.each write items).Steady deep := by
  induction items with
  | nil => exact pure ()
  | cons item rest ih =>
      obtain ⟨hitem, hrest⟩ := List.forall_mem_cons.1 h
      exact hitem.bind fun _ => ih hrest

theorem bytes (hx : x.Steady deep) : Shallow deep x.bytes := by
  intro e he
  rw [Encoder.bytes, Encoder.bytesAt] at he
  cases hx' : x 0 with
  | ok r =>
      rw [hx'] at he
      cases he
  | error e' =>
      rw [hx'] at he
      injection he with he
      exact he ▸ hx.shallow e' hx'

end Steady

end Encoder

/-! ## Records -/

namespace Value

theorem expect_eq_ok {expected : String} {value : Value} {content : Option α} {a : α} :
    value.expect expected content = .ok a ↔ content = some a := by
  cases content with
  | some b =>
      refine ⟨fun h => ?_, fun h => ?_⟩
      · have hsame : b = a := Except.ok.inj h
        rw [hsame]
      · rw [Option.some.inj h]
        rfl
  | none => exact ⟨nofun, nofun⟩

theorem expect_shallow (expected : String) (value : Value) (content : Option α) :
    Shallow deep (value.expect expected content) := by
  cases content with
  | some a => exact .ok a
  | none => exact .raise rfl

theorem requireUint_shallow (value : Value) : Shallow deep value.requireUint :=
  value.expect_shallow _ _

theorem requireSint_shallow (value : Value) : Shallow deep value.requireSint :=
  value.expect_shallow _ _

theorem requireFloat_shallow (value : Value) : Shallow deep value.requireFloat :=
  value.expect_shallow _ _

theorem requireImap_shallow (value : Value) : Shallow deep value.requireImap :=
  value.expect_shallow _ _

theorem requireBool_shallow (value : Value) : Shallow deep value.requireBool :=
  value.expect_shallow _ _

theorem requireSeries_shallow (value : Value) : Shallow deep value.requireSeries :=
  value.expect_shallow _ _

theorem field_shallow (value : Value) (name : String) : Shallow deep (value.field name) := by
  rw [field.eq_def]
  split
  · split
    · exact .ok _
    · exact .raise rfl
  · exact .raise rfl

/-- A field asked for by one of the views of its content. -/
theorem fieldOf_shallow {view : Value → Except Error α} (hview : ∀ v, Shallow deep (view v))
    (value : Value) (name : String) :
    Shallow deep (do inside name (view (← value.field name))) :=
  (value.field_shallow name).bind fun v => (hview v).inside name

theorem uintField_shallow (value : Value) (name : String) :
    Shallow deep (value.uintField name) := fieldOf_shallow requireUint_shallow value name

theorem imapField_shallow (value : Value) (name : String) :
    Shallow deep (value.imapField name) := fieldOf_shallow requireImap_shallow value name

theorem boolField_shallow (value : Value) (name : String) :
    Shallow deep (value.boolField name) := fieldOf_shallow requireBool_shallow value name

theorem stringField_shallow (value : Value) (name : String) :
    Shallow deep (value.stringField name) :=
  fieldOf_shallow (fun v => v.expect_shallow _ _) value name

theorem seriesField_shallow (value : Value) (name : String) :
    Shallow deep (value.seriesField name) := fieldOf_shallow requireSeries_shallow value name

theorem optionalField_shallow (value : Value) (name : String) :
    Shallow deep (value.optionalField name) := by
  rw [optionalField.eq_def]
  split
  · exact .ok _
  · exact .raise rfl

end Value

/-! ## Fields -/

namespace Codec

/-- What a codec makes of an interpreted value for being written: it is written the same
wherever it stands, and neither that nor its length is refused for depth unless `deep`. -/
structure Steady (deep : Prop) (codec : Codec) (value : Value) : Prop where
  write : ∀ length, (codec.write value length).Steady deep
  natural : Shallow deep (codec.naturalLength value)

/-- The same of any value, those that are empty or kept as bytes among them. -/
structure Accepts (deep : Prop) (codec : Codec) (value : Value) : Prop where
  length : ∀ hint, Shallow deep (codec.hintedLength value hint)
  content : ∀ length, (codec.writeContent value length).Steady deep

variable {codec : Codec} {value : Value}

theorem Steady.accepts (h : codec.Steady deep value) : codec.Accepts deep value := by
  have hlength : Shallow deep (codec.fieldLength value) := by
    rw [fieldLength.eq_def]
    split
    · exact .ok _
    · exact .ok _
    · split
      · exact .ok _
      · exact h.natural
  refine ⟨fun hint => ?_, fun length => ?_⟩
  · cases hint with
    | none => exact hlength
    | some width => exact .ite (fun _ => .ok _) fun _ => hlength
  · rw [writeContent.eq_def]
    split
    · exact .pure _
    · exact .emit _
    · exact h.write length

/-- No codec has a say in an empty field or in one whose bytes were kept. -/
theorem accepts_of_kept (h : value.isDecoded = false) : codec.Accepts deep value := by
  refine ⟨fun hint => ?_, fun length => ?_⟩
  · have hlength : Shallow deep (codec.fieldLength value) := by
      cases value <;> first | exact .ok _ | cases h
    cases hint with
    | none => exact hlength
    | some width => exact .ite (fun _ => .ok _) fun _ => hlength
  · cases value <;> first | exact .pure _ | exact .emit _ | cases h

theorem Accepts.fieldLength (h : codec.Accepts deep value) :
    Shallow deep (codec.fieldLength value) := h.length none

theorem Accepts.writeField (h : codec.Accepts deep value) (length : Nat) :
    (codec.writeField value length).Steady deep := by
  rw [Codec.writeField]
  exact (h.content length).captured.bind fun _ => .ite (fun _ => .pure _) fun _ => .raise rfl

end Codec

end MotionMetadata
