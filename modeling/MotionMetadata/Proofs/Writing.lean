import Mathlib.Data.List.Forall2
import MotionMetadata.Encoder

/-!
# Encoders step by step

An encoder answers the bytes it adds, so a sequence succeeds exactly if both parts do, and it
adds the bytes of the first and then those of the second. Where in the buffer it stands only
shows in errors; the lemmas therefore carry the position along and never look at it. Results
that are worked out before writing come first: they are sequences too, without bytes.
-/

namespace MotionMetadata

section Outcomes

variable {α β : Type}

theorem except_bind_ok (a : α) (f : α → Except Error β) : ((.ok a : Except Error α) >>= f) = f a :=
  rfl

theorem except_bind_error (e : Error) (f : α → Except Error β) :
    ((.error e : Except Error α) >>= f) = .error e := rfl

theorem except_bind_eq_ok {x : Except Error α} {f : α → Except Error β} {b : β} :
    (x >>= f) = .ok b ↔ ∃ a, x = .ok a ∧ f a = .ok b := by
  cases x with
  | ok a =>
      rw [except_bind_ok]
      simp
  | error e =>
      rw [except_bind_error]
      simp

/-- A list is converted item by item, and as a whole only if each item is. -/
theorem except_mapM_eq_ok {f : α → Except Error β} {items : List α} {results : List β} :
    items.mapM f = .ok results ↔ List.Forall₂ (fun a b => f a = .ok b) items results := by
  induction items generalizing results with
  | nil =>
      rw [List.mapM_nil]
      constructor
      · intro h
        injection h with h
        rw [← h]
        exact .nil
      · intro h
        cases h
        rfl
  | cons item rest ih =>
      rw [List.mapM_cons, except_bind_eq_ok]
      constructor
      · rintro ⟨b, hb, h⟩
        obtain ⟨bs, hbs, h⟩ := except_bind_eq_ok.1 h
        injection h with h
        rw [← h]
        exact .cons hb (ih.1 hbs)
      · intro h
        cases h with
        | cons hb hbs =>
            exact ⟨_, hb, except_bind_eq_ok.2 ⟨_, ih.2 hbs, rfl⟩⟩

/-- A list whose items all convert. -/
theorem except_mapM_of_all {f : α → Except Error β} {Q : β → Prop} {items : List α}
    (h : ∀ a ∈ items, ∃ b, f a = .ok b ∧ Q b) :
    ∃ results, items.mapM f = .ok results ∧ results.length = items.length ∧
      ∀ b ∈ results, Q b := by
  induction items with
  | nil => exact ⟨[], rfl, rfl, by simp⟩
  | cons a rest ih =>
      obtain ⟨ha, hrest⟩ := List.forall_mem_cons.1 h
      obtain ⟨b, hb, hQ⟩ := ha
      obtain ⟨results, hresults, hlength, hall⟩ := ih hrest
      refine ⟨b :: results, ?_, congrArg (· + 1) hlength, List.forall_mem_cons.2 ⟨hQ, hall⟩⟩
      rw [List.mapM_cons, hb, hresults]
      rfl

end Outcomes

end MotionMetadata

namespace MotionMetadata.Encoder

variable {α β : Type} {position : Nat}

@[simp] theorem pure_apply (a : α) : (pure a : Encoder α) position = .ok (a, []) := rfl

@[simp] theorem emit_apply (bytes : Bytes) : emit bytes position = .ok ((), bytes) := rfl

@[simp] theorem position_apply : Encoder.position position = .ok (position, []) := rfl

@[simp] theorem raise_apply (fault : Fault) :
    (raise fault : Encoder α) position = .error { fault } := rfl

@[simp] theorem raiseAt_apply (offset : Nat) (fault : Fault) :
    (raiseAt offset fault : Encoder α) position = .error { fault, offset := some offset } := rfl

@[simp] theorem ofExcept_ok (a : α) : ofExcept (.ok a) position = .ok (a, []) := rfl

@[simp] theorem ofExcept_error (e : Error) :
    (ofExcept (.error e) : Encoder α) position = .error e := rfl

theorem emit_eq_ok {bytes w : Bytes} : emit bytes position = .ok ((), w) ↔ w = bytes := by
  rw [emit_apply, Except.ok.injEq, Prod.mk.injEq, and_iff_right rfl, eq_comm]

/-- Where a check fails there is no result. -/
theorem unless_eq_ok {p : Prop} [Decidable p] {x fail : Encoder α} {r : α × Bytes}
    (hfail : ∀ r, fail position ≠ .ok r) :
    (if p then x else fail) position = .ok r ↔ p ∧ x position = .ok r := by
  by_cases hp : p
  · rw [if_pos hp]
    exact (and_iff_right hp).symm
  · rw [if_neg hp]
    exact iff_of_false (hfail r) fun h => hp h.1

theorem bind_apply (x : Encoder α) (f : α → Encoder β) :
    (x >>= f) position =
      match x position with
      | .error e => .error e
      | .ok (a, first) =>
        match f a (position + first.length) with
        | .error e => .error e
        | .ok (b, second) => .ok (b, first ++ second) := rfl

theorem bind_of_ok {x : Encoder α} {f : α → Encoder β} {a : α} {first second : Bytes} {b : β}
    (hx : x position = .ok (a, first))
    (hf : f a (position + first.length) = .ok (b, second)) :
    (x >>= f) position = .ok (b, first ++ second) := by
  rw [bind_apply, hx]
  dsimp only
  rw [hf]

theorem bind_of_error {x : Encoder α} {f : α → Encoder β} {e : Error}
    (hx : x position = .error e) : (x >>= f) position = .error e := by
  rw [bind_apply, hx]

theorem bind_of_ok_error {x : Encoder α} {f : α → Encoder β} {a : α} {first : Bytes} {e : Error}
    (hx : x position = .ok (a, first)) (hf : f a (position + first.length) = .error e) :
    (x >>= f) position = .error e := by
  rw [bind_apply, hx]
  dsimp only
  rw [hf]

theorem bind_eq_ok {x : Encoder α} {f : α → Encoder β} {b : β} {bytes : Bytes} :
    (x >>= f) position = .ok (b, bytes) ↔
      ∃ a first second, x position = .ok (a, first) ∧
        f a (position + first.length) = .ok (b, second) ∧ bytes = first ++ second := by
  constructor
  · intro h
    match hx : x position with
    | .error e =>
        rw [bind_of_error hx] at h
        cases h
    | .ok (a, first) =>
        match hf : f a (position + first.length) with
        | .error e =>
            rw [bind_of_ok_error hx hf] at h
            cases h
        | .ok (b', second) =>
            rw [bind_of_ok hx hf] at h
            injection h with h
            injection h with hb hbytes
            exact ⟨a, first, second, rfl, by rw [hf, hb], hbytes.symm⟩
  · rintro ⟨a, first, second, hx, hf, rfl⟩
    exact bind_of_ok hx hf

/-- A step that adds nothing. -/
theorem bind_of_silent {x : Encoder α} {f : α → Encoder β} {a : α}
    (hx : x position = .ok (a, [])) : (x >>= f) position = f a position := by
  match hf : f a position with
  | .error e => exact bind_of_ok_error hx hf
  | .ok (b, second) => exact bind_of_ok hx hf

theorem ofExcept_bind_eq_ok {x : Except Error α} {f : α → Encoder β} {b : β} {bytes : Bytes} :
    (ofExcept x >>= f) position = .ok (b, bytes) ↔
      ∃ a, x = .ok a ∧ f a position = .ok (b, bytes) := by
  cases x with
  | ok a =>
      rw [bind_of_silent (ofExcept_ok a)]
      simp
  | error e =>
      rw [bind_of_error (ofExcept_error e)]
      simp

theorem mapError_eq_ok {f : Error → Error} {encoder : Encoder α} {r : α × Bytes} :
    mapError f encoder position = .ok r ↔ encoder position = .ok r := by
  rw [mapError]
  cases encoder position <;> simp

theorem captured_eq_ok {encoder : Encoder α} {written bytes : Bytes} :
    captured encoder position = .ok (written, bytes) ↔
      written = bytes ∧ ∃ a, encoder position = .ok (a, bytes) := by
  rw [captured]
  cases encoder position with
  | error e => simp
  | ok r =>
      obtain ⟨a, out⟩ := r
      constructor
      · intro h
        injection h with h
        injection h with hw hb
        exact ⟨by rw [← hw, hb], a, by rw [hb]⟩
      · rintro ⟨rfl, a', h⟩
        injection h with h
        injection h with _ hb
        rw [hb]

theorem bytes_eq_ok {encoder : Encoder α} {out : Bytes} :
    encoder.bytes = .ok out ↔ ∃ a, encoder 0 = .ok (a, out) := by
  rw [bytes, bytesAt]
  cases encoder 0 with
  | error e => simp
  | ok r =>
      obtain ⟨a, added⟩ := r
      simp

theorem appendTo_eq_ok {encoder : Encoder α} {buffer out : Bytes} :
    encoder.appendTo buffer = (.ok (), out) ↔
      ∃ a added, encoder buffer.length = .ok (a, added) ∧ out = buffer ++ added := by
  rw [appendTo]
  cases encoder buffer.length with
  | error e => simp
  | ok r =>
      obtain ⟨a, added⟩ := r
      constructor
      · intro h
        injection h with _ h
        exact ⟨a, added, rfl, h.symm⟩
      · rintro ⟨a', added', h, rfl⟩
        injection h with h
        injection h with _ h
        rw [h]

/-- What fails leaves the buffer as it was. -/
theorem eq_of_appendTo_error {encoder : Encoder α} {buffer out : Bytes} {e : Error}
    (h : encoder.appendTo buffer = (.error e, out)) : out = buffer := by
  rw [appendTo] at h
  split at h
  · injection h with h
    cases h
  · injection h with _ h
    exact h.symm

end MotionMetadata.Encoder
