import MotionMetadata.Cursor

/-!
# Readers step by step

A reader is a function from cursors to results, and every proof about one takes it apart
bind by bind. The lemmas here are those steps: what each primitive answers, and what must
have happened for a sequence to succeed.

The second half is about position. A cursor carries its offset in the whole buffer so that
errors can name a byte, and nothing else may depend on it: a field has to mean the same
wherever it stands. `Reader.Alike` compares two readers at cursors that see the same bytes
`shift` bytes apart, and a reader that is alike to itself for every shift is `Local`. The
relation takes two readers because a sequence that has asked for its position goes on with
two different numbers. It also says that a reader only moves forward over bytes that are
there, which is the other thing that callers rely on.
-/

namespace MotionMetadata

namespace Cursor

@[simp] theorem rest_advance (c : Cursor) (n : Nat) : (c.advance n).rest = c.rest.drop n := rfl

/-- After some of the bytes the others are left. -/
theorem rest_advance_of_append {c : Cursor} {w t : Bytes} (h : c.rest = w ++ t) :
    (c.advance w.length).rest = t := by
  rw [rest_advance, h, List.drop_left]

theorem advance_append (origin consumed : Nat) (w t : Bytes) :
    (Cursor.mk origin consumed (w ++ t)).advance w.length = ⟨origin, consumed + w.length, t⟩ := by
  rw [advance, List.drop_left]

@[simp] theorem position_advance (c : Cursor) (n : Nat) :
    (c.advance n).position = c.position + n := by
  simp only [position, advance, Nat.add_assoc]

@[simp] theorem consumed_advance (c : Cursor) (n : Nat) :
    (c.advance n).consumed = c.consumed + n := rfl

@[simp] theorem advance_zero (c : Cursor) : c.advance 0 = c := rfl

@[simp] theorem advance_advance (c : Cursor) (n m : Nat) :
    (c.advance n).advance m = c.advance (n + m) := by
  simp only [advance, List.drop_drop, Nat.add_assoc]

@[simp] theorem rest_field (c : Cursor) (n : Nat) : (c.field n).rest = c.rest.take n := rfl

theorem rest_field_of_append {c : Cursor} {w t : Bytes} (h : c.rest = w ++ t) :
    (c.field w.length).rest = w := by
  rw [rest_field, h, List.take_left]

/-- The field of a field is the field. -/
theorem field_field (c : Cursor) (n : Nat) : (c.field n).field n = c.field n := by
  simp only [field, position, Nat.add_zero, List.take_take, Nat.min_self]

@[simp] theorem consumed_field (c : Cursor) (n : Nat) : (c.field n).consumed = 0 := rfl

@[simp] theorem position_field (c : Cursor) (n : Nat) : (c.field n).position = c.position := rfl

@[simp] theorem rest_ofBytes (data : Bytes) : (ofBytes data).rest = data := rfl

@[simp] theorem position_ofBytes (data : Bytes) : (ofBytes data).position = 0 := rfl

@[simp] theorem consumed_ofBytes (data : Bytes) : (ofBytes data).consumed = 0 := rfl

end Cursor

namespace Reader

variable {α β : Type}

/-! ## What each step answers -/

@[simp] theorem pure_apply (a : α) (c : Cursor) : (pure a : Reader α) c = .ok a c := rfl

@[simp] theorem raiseAt_apply (offset : Nat) (fault : Fault) (c : Cursor) :
    (raiseAt offset fault : Reader α) c = .error { fault, offset := some offset } c := rfl

@[simp] theorem raise_apply (fault : Fault) (c : Cursor) :
    (raise fault : Reader α) c = .error { fault } c := rfl

@[simp] theorem throw_apply (e : Error) (c : Cursor) :
    (throw e : Reader α) c = .error e c := rfl

@[simp] theorem position_apply (c : Cursor) : position c = .ok c.position c := rfl

@[simp] theorem remaining_apply (c : Cursor) : remaining c = .ok c.rest.length c := rfl

@[simp] theorem atEnd_apply (c : Cursor) : atEnd c = .ok c.rest.isEmpty c := rfl

@[simp] theorem get_apply (c : Cursor) : (get : Reader Cursor) c = .ok c c := rfl

theorem bind_of_ok {x : Reader α} {f : α → Reader β} {c d : Cursor} {a : α}
    (h : x c = .ok a d) : (x >>= f) c = f a d := by
  show EStateM.bind x f c = f a d
  rw [EStateM.bind, h]

theorem bind_of_error {x : Reader α} {f : α → Reader β} {c d : Cursor} {e : Error}
    (h : x c = .error e d) : (x >>= f) c = .error e d := by
  show EStateM.bind x f c = .error e d
  rw [EStateM.bind, h]

theorem bind_eq_ok {x : Reader α} {f : α → Reader β} {c d : Cursor} {b : β} :
    (x >>= f) c = .ok b d ↔ ∃ a c', x c = .ok a c' ∧ f a c' = .ok b d := by
  constructor
  · intro h
    cases hx : x c with
    | ok a c' =>
        rw [bind_of_ok hx] at h
        exact ⟨a, c', rfl, h⟩
    | error e c' =>
        rw [bind_of_error hx] at h
        cases h
  · rintro ⟨a, c', hx, hf⟩
    rw [bind_of_ok hx, hf]

theorem map_eq_ok {f : α → β} {x : Reader α} {c d : Cursor} {b : β} :
    (f <$> x) c = .ok b d ↔ ∃ a, x c = .ok a d ∧ f a = b := by
  show EStateM.map f x c = .ok b d ↔ _
  rw [EStateM.map]
  cases x c with
  | ok a c' =>
      constructor
      · intro h
        injection h with hb hd
        exact ⟨a, by rw [hd], hb⟩
      · rintro ⟨a', ha', rfl⟩
        injection ha' with ha hd
        rw [ha, hd]
  | error e c' => simp

theorem require_of_le {n : Nat} {c : Cursor} (h : n ≤ c.rest.length) :
    require n c = .ok () c := by
  rw [require, bind_of_ok (get_apply c)]
  rw [if_pos (show n ≤ c.remaining from h), pure_apply]

theorem require_of_lt {n : Nat} {c : Cursor} (h : c.rest.length < n) :
    require n c =
      .error { fault := .outOfBytes n c.remaining, offset := some c.position } c := by
  rw [require, bind_of_ok (get_apply c)]
  rw [if_neg (show ¬ n ≤ c.remaining from Nat.not_le.2 h), raiseAt_apply]

theorem take_of_le {n : Nat} {c : Cursor} (h : n ≤ c.rest.length) :
    take n c = .ok (c.rest.take n) (c.advance n) := by
  rw [take, bind_of_ok (require_of_le h)]
  rfl

theorem take_of_lt {n : Nat} {c : Cursor} (h : c.rest.length < n) :
    take n c = .error { fault := .outOfBytes n c.remaining, offset := some c.position } c := by
  rw [take, bind_of_error (require_of_lt h)]

theorem take_eq_ok {n : Nat} {c d : Cursor} {bytes : Bytes} :
    take n c = .ok bytes d ↔
      n ≤ c.rest.length ∧ bytes = c.rest.take n ∧ d = c.advance n := by
  rcases Nat.lt_or_ge c.rest.length n with h | h
  · rw [take_of_lt h]
    constructor
    · intro hok
      cases hok
    · rintro ⟨hle, _⟩
      omega
  · rw [take_of_le h]
    constructor
    · intro hok
      injection hok with hbytes hd
      exact ⟨h, hbytes.symm, hd.symm⟩
    · rintro ⟨_, rfl, rfl⟩
      rfl

theorem skip_of_le {n : Nat} {c : Cursor} (h : n ≤ c.rest.length) :
    skip n c = .ok () (c.advance n) := by
  rw [skip, bind_of_ok (take_of_le h), pure_apply]

theorem enter_of_le {n : Nat} {c : Cursor} (h : n ≤ c.rest.length) :
    enter n c = .ok (c.field n) (c.advance n) := by
  rw [enter, bind_of_ok (require_of_le h)]
  rfl

theorem enter_of_lt {n : Nat} {c : Cursor} (h : c.rest.length < n) :
    enter n c = .error { fault := .outOfBytes n c.remaining, offset := some c.position } c := by
  rw [enter, bind_of_error (require_of_lt h)]

theorem inField_of_le {inner : Reader α} {n : Nat} {c : Cursor} (h : n ≤ c.rest.length) :
    inField n inner c =
      match inner (c.field n) with
      | .ok value _ => .ok value (c.advance n)
      | .error e _ => .error e (c.advance n) := by
  rw [inField, bind_of_ok (enter_of_le h)]
  cases inner (c.field n) <;> rfl

theorem inField_eq_ok {inner : Reader α} {n : Nat} {c d : Cursor} {a : α} :
    inField n inner c = .ok a d ↔
      n ≤ c.rest.length ∧ d = c.advance n ∧ ∃ d', inner (c.field n) = .ok a d' := by
  rcases Nat.lt_or_ge c.rest.length n with h | h
  · rw [inField, bind_of_error (enter_of_lt h)]
    constructor
    · intro hok
      cases hok
    · rintro ⟨hle, _⟩
      omega
  · rw [inField_of_le h]
    cases inner (c.field n) with
    | ok value d' =>
        constructor
        · intro hok
          injection hok with ha hd
          exact ⟨h, hd.symm, d', by rw [ha]⟩
        · rintro ⟨_, rfl, d'', hd''⟩
          injection hd'' with ha _
          rw [ha]
    | error e d' => simp

theorem mapError_eq_ok {f : Error → Error} {reader : Reader α} {c d : Cursor} {a : α} :
    mapError f reader c = .ok a d ↔ reader c = .ok a d := by
  rw [mapError]
  cases reader c <;> simp

theorem restoring_eq_ok {reader : Reader α} {c d : Cursor} {a : α} :
    restoring reader c = .ok a d ↔ reader c = .ok a d := by
  rw [restoring]
  cases reader c <;> simp

theorem onBytes_eq_ok {reader : Reader α} {data : Bytes} {a : α} :
    reader.onBytes data = .ok a ↔ ∃ d, reader (Cursor.ofBytes data) = .ok a d := by
  rw [onBytes]
  cases reader (Cursor.ofBytes data) <;> simp

/-! ## Position

Cursors `shift` bytes apart over the same bytes, and readers that cannot tell them apart. -/

/-- What two readers that started at `c` and at `c'` ended on: values as `R` has them or the
same fault, after the same number of bytes. -/
def SameOutcome (R : α → α → Prop) (c c' : Cursor) :
    EStateM.Result Error Cursor α → EStateM.Result Error Cursor α → Prop
  | .ok a d, .ok a' d' =>
    R a a' ∧ ∃ n, n ≤ c.rest.length ∧ d = c.advance n ∧ d' = c'.advance n
  | .error e d, .error e' d' =>
    e.fault = e'.fault ∧ ∃ n, n ≤ c.rest.length ∧ d = c.advance n ∧ d' = c'.advance n
  | _, _ => False

/-- The two readers do alike at cursors over the same bytes of which the second stands
`shift` bytes further on, but for values that only agree as `R` says. -/
def AlikeBy (R : α → α → Prop) (shift : Nat) (r r' : Reader α) : Prop :=
  ∀ c c' : Cursor, c'.rest = c.rest → c'.position = c.position + shift →
    SameOutcome R c c' (r c) (r' c')

/-- The two readers do alike, and their values are equal. -/
abbrev Alike (shift : Nat) (r r' : Reader α) : Prop := AlikeBy Eq shift r r'

/-- The reader does the same wherever it stands. -/
def Local (r : Reader α) : Prop := ∀ shift, Alike shift r r

section Alike

variable {shift : Nat} {R : α → α → Prop} {S : β → β → Prop}

theorem SameOutcome.refl_ok {c c' : Cursor} {a a' : α} (h : R a a') :
    SameOutcome R c c' (.ok a c) (.ok a' c') :=
  ⟨h, 0, Nat.zero_le _, rfl, rfl⟩

theorem SameOutcome.refl_error {c c' : Cursor} {e e' : Error} (h : e.fault = e'.fault) :
    SameOutcome R c c' (.error e c) (.error e' c') :=
  ⟨h, 0, Nat.zero_le _, rfl, rfl⟩

/-- Outcomes counted from further on, counted from the start. -/
theorem SameOutcome.of_advance {c c' : Cursor} {n : Nat} (hn : n ≤ c.rest.length)
    {x x' : EStateM.Result Error Cursor α}
    (h : SameOutcome R (c.advance n) (c'.advance n) x x') : SameOutcome R c c' x x' := by
  match x, x', h with
  | .ok a d, .ok a' d', ⟨ha, m, hm, hd, hd'⟩ =>
      rw [Cursor.rest_advance, List.length_drop] at hm
      rw [Cursor.advance_advance] at hd hd'
      exact ⟨ha, n + m, by omega, hd, hd'⟩
  | .error e d, .error e' d', ⟨he, m, hm, hd, hd'⟩ =>
      rw [Cursor.rest_advance, List.length_drop] at hm
      rw [Cursor.advance_advance] at hd hd'
      exact ⟨he, n + m, by omega, hd, hd'⟩

theorem AlikeBy.pure {a a' : α} (h : R a a') :
    AlikeBy R shift (pure a : Reader α) (pure a') :=
  fun _ _ _ _ => .refl_ok h

theorem AlikeBy.raiseAt (p p' : Nat) (fault : Fault) :
    AlikeBy R shift (raiseAt p fault : Reader α) (raiseAt p' fault) :=
  fun _ _ _ _ => .refl_error rfl

theorem AlikeBy.throw {e e' : Error} (h : e.fault = e'.fault) :
    AlikeBy R shift (throw e : Reader α) (throw e') :=
  fun _ _ _ _ => .refl_error h

theorem AlikeBy.bind {x x' : Reader α} {f f' : α → Reader β} (hx : AlikeBy R shift x x')
    (hf : ∀ a a', R a a' → AlikeBy S shift (f a) (f' a')) :
    AlikeBy S shift (x >>= f) (x' >>= f') := by
  intro c c' hrest hpos
  have h := hx c c' hrest hpos
  match hxc : x c, hxc' : x' c', h with
  | .ok a d, .ok a' d', ⟨ha, n, hn, hd, hd'⟩ =>
      rw [bind_of_ok hxc, bind_of_ok hxc', hd, hd']
      refine .of_advance hn (hf a a' ha _ _ ?_ ?_)
      · simp only [Cursor.rest_advance, hrest]
      · simp only [Cursor.position_advance, hpos]
        omega
  | .error e d, .error e' d', h =>
      rw [bind_of_error hxc, bind_of_error hxc']
      exact h

theorem Alike.bind {x x' : Reader α} {f f' : α → Reader β} (hx : Alike shift x x')
    (hf : ∀ a, AlikeBy S shift (f a) (f' a)) : AlikeBy S shift (x >>= f) (x' >>= f') :=
  AlikeBy.bind hx fun a _ ha => ha ▸ hf a

theorem Alike.map {x x' : Reader α} (f : α → β) (hx : Alike shift x x') :
    Alike shift (f <$> x) (f <$> x') :=
  hx.bind fun _ => .pure rfl

theorem AlikeBy.position :
    AlikeBy (fun p p' => p' = p + shift) shift Reader.position Reader.position := by
  intro c c' _ hpos
  rw [position_apply, position_apply, hpos]
  exact .refl_ok rfl

/-- A sequence that asks for its position goes on with two positions `shift` apart. -/
theorem AlikeBy.position_bind {f f' : Nat → Reader α}
    (hf : ∀ p, AlikeBy R shift (f p) (f' (p + shift))) :
    AlikeBy R shift (Reader.position >>= f) (Reader.position >>= f') :=
  AlikeBy.position.bind fun p _ hp => hp ▸ hf p

theorem Alike.remaining : Alike shift remaining remaining := by
  intro c c' hrest _
  rw [remaining_apply, remaining_apply, hrest]
  exact .refl_ok rfl

theorem Alike.atEnd : Alike shift atEnd atEnd := by
  intro c c' hrest _
  rw [atEnd_apply, atEnd_apply, hrest]
  exact .refl_ok rfl

theorem AlikeBy.ite {p : Prop} [Decidable p] {x x' y y' : Reader α} (hx : AlikeBy R shift x x')
    (hy : AlikeBy R shift y y') :
    AlikeBy R shift (if p then x else y) (if p then x' else y') := by
  split
  · exact hx
  · exact hy

/-- A sequence that goes on only under a condition. -/
theorem AlikeBy.require {p : Prop} [Decidable p] {x x' : Reader α} {o o' : Nat}
    {fault : Fault} (hx : AlikeBy R shift x x') :
    AlikeBy R shift (if p then x else MotionMetadata.raiseAt o fault >>= fun (_ : Unit) => x)
      (if p then x' else MotionMetadata.raiseAt o' fault >>= fun (_ : Unit) => x') :=
  .ite hx fun _ _ _ _ => .refl_error rfl

/-- A sequence that does not go on under a condition. -/
theorem AlikeBy.refuse {p : Prop} [Decidable p] {x x' : Reader α} {o o' : Nat}
    {fault : Fault} (hx : AlikeBy R shift x x') :
    AlikeBy R shift (if p then MotionMetadata.raiseAt o fault >>= fun (_ : Unit) => x else x)
      (if p then MotionMetadata.raiseAt o' fault >>= fun (_ : Unit) => x' else x') :=
  .ite (fun _ _ _ _ => .refl_error rfl) hx

theorem AlikeBy.mapError {f f' : Error → Error} (hf : ∀ e e', e.fault = e'.fault →
    (f e).fault = (f' e').fault) {x x' : Reader α} (hx : AlikeBy R shift x x') :
    AlikeBy R shift (mapError f x) (mapError f' x') := by
  intro c c' hrest hpos
  have h := hx c c' hrest hpos
  rw [Reader.mapError, Reader.mapError]
  match x c, x' c', h with
  | .ok a d, .ok a' d', h => exact h
  | .error e d, .error e' d', ⟨he, hd⟩ => exact ⟨hf e e' he, hd⟩

theorem AlikeBy.within {place : String} {x x' : Reader α} (hx : AlikeBy R shift x x') :
    AlikeBy R shift (Reader.mapError (·.within place) x)
      (Reader.mapError (·.within place) x') := by
  refine hx.mapError ?_
  intro e e' h
  exact h

theorem AlikeBy.restoring {x x' : Reader α} (hx : AlikeBy R shift x x') :
    AlikeBy R shift (restoring x) (restoring x') := by
  intro c c' hrest hpos
  have h := hx c c' hrest hpos
  rw [Reader.restoring, Reader.restoring]
  match x c, x' c', h with
  | .ok a d, .ok a' d', h => exact h
  | .error e d, .error e' d', ⟨he, _⟩ => exact .refl_error he

theorem Alike.take (n : Nat) : Alike shift (take n) (take n) := by
  intro c c' hrest _
  rcases Nat.lt_or_ge c.rest.length n with h | h
  · rw [take_of_lt h, take_of_lt (by rw [hrest]; exact h)]
    exact .refl_error (by simp only [Cursor.remaining, hrest])
  · rw [take_of_le h, take_of_le (by rw [hrest]; exact h), hrest]
    exact ⟨rfl, n, h, rfl, rfl⟩

theorem Alike.skip (n : Nat) : Alike shift (skip n) (skip n) :=
  (Alike.take n).bind fun _ => .pure rfl

theorem Alike.byte : Alike shift byte byte :=
  (Alike.take 1).bind fun _ => .pure rfl

theorem Alike.bool : Alike shift bool bool :=
  Alike.byte.bind fun _ => .pure rfl

theorem AlikeBy.inField {x x' : Reader α} (hx : AlikeBy R shift x x') (n : Nat) :
    AlikeBy R shift (inField n x) (inField n x') := by
  intro c c' hrest hpos
  rcases Nat.lt_or_ge c.rest.length n with h | h
  · rw [Reader.inField, Reader.inField, bind_of_error (enter_of_lt h),
      bind_of_error (enter_of_lt (by rw [hrest]; exact h))]
    exact .refl_error (by simp only [Cursor.remaining, hrest])
  · rw [inField_of_le h, inField_of_le (by rw [hrest]; exact h)]
    have hinner := hx (c.field n) (c'.field n) (by simp only [Cursor.rest_field, hrest])
      (by simp only [Cursor.position_field, hpos])
    match x (c.field n), x' (c'.field n), hinner with
    | .ok a d, .ok a' d', ⟨ha, _⟩ => exact ⟨ha, n, h, rfl, rfl⟩
    | .error e d, .error e' d', ⟨he, _⟩ => exact ⟨he, n, h, rfl, rfl⟩

/-- Two readers of `n` bytes that do alike on the bytes of a field do so on the field. -/
theorem AlikeBy.enter_bind {k k' : Cursor → Reader α} (n : Nat)
    (hk : ∀ d d' : Cursor, d'.rest = d.rest → d'.position = d.position + shift →
      d.consumed = 0 → d'.consumed = 0 → d.rest.length = n → AlikeBy R shift (k d) (k' d')) :
    AlikeBy R shift (Reader.enter n >>= k) (Reader.enter n >>= k') := by
  intro c c' hrest hpos
  rcases Nat.lt_or_ge c.rest.length n with h | h
  · rw [bind_of_error (enter_of_lt h), bind_of_error (enter_of_lt (by rw [hrest]; exact h))]
    exact .refl_error (by simp only [Cursor.remaining, hrest])
  · rw [bind_of_ok (enter_of_le h), bind_of_ok (enter_of_le (by rw [hrest]; exact h))]
    refine .of_advance h (hk _ _ ?_ ?_ rfl rfl ?_ _ _ ?_ ?_)
    · simp only [Cursor.rest_field, hrest]
    · simp only [Cursor.position_field, hpos]
    · rw [Cursor.rest_field, List.length_take]
      omega
    · simp only [Cursor.rest_advance, hrest]
    · simp only [Cursor.position_advance, hpos]
      omega

theorem Alike.times {x x' : Reader α} (hx : Alike shift x x') (n : Nat) :
    Alike shift (times n x) (times n x') := by
  induction n with
  | zero => exact .pure rfl
  | succ n ih => exact hx.bind fun _ => ih.bind fun _ => .pure rfl

end Alike

/-! ## Known bytes -/

/-- The reader takes the bytes `data` for `a`, whatever follows them and wherever they
stand. -/
def Reads (r : Reader α) (data : Bytes) (a : α) : Prop :=
  ∀ c t, c.rest = data ++ t → r c = .ok a (c.advance data.length)

section Reads

variable {w w' : Bytes} {a : α} {b : β}

theorem Reads.pure (a : α) : Reads (pure a) [] a := fun _ _ _ => rfl

theorem Reads.onBytes {r : Reader α} (hr : Reads r w a) : r.onBytes w = .ok a := by
  refine onBytes_eq_ok.2 ⟨_, hr (Cursor.ofBytes w) [] ?_⟩
  rw [Cursor.rest_ofBytes, List.append_nil]

theorem Reads.of_eq {r : Reader α} {a' : α} (h : a' = a) (hr : Reads r w a') : Reads r w a :=
  h ▸ hr

theorem Reads.bind {x : Reader α} {f : α → Reader β} (hx : Reads x w a)
    (hf : Reads (f a) w' b) : Reads (x >>= f) (w ++ w') b := by
  intro c t hc
  rw [List.append_assoc] at hc
  rw [bind_of_ok (hx c _ hc), hf (c.advance w.length) t, Cursor.advance_advance,
    List.length_append]
  exact Cursor.rest_advance_of_append hc

/-- A step that takes the last of the bytes. -/
theorem Reads.bind_nil {x : Reader α} {f : α → Reader β} (hx : Reads x w a)
    (hf : Reads (f a) [] b) : Reads (x >>= f) w b :=
  List.append_nil w ▸ hx.bind hf

theorem Reads.map {f : α → β} {x : Reader α} (hx : Reads x w a) : Reads (f <$> x) w (f a) :=
  fun c t hc => map_eq_ok.2 ⟨a, hx c t hc, rfl⟩

theorem Reads.position_bind {f : Nat → Reader α} (hf : ∀ p, Reads (f p) w a) :
    Reads (position >>= f) w a := by
  intro c t hc
  rw [bind_of_ok (position_apply c)]
  exact hf c.position c t hc

theorem Reads.restoring {r : Reader α} (hr : Reads r w a) : Reads (restoring r) w a :=
  fun c t hc => restoring_eq_ok.2 (hr c t hc)

theorem Reads.take (w : Bytes) : Reads (take w.length) w w := by
  intro c t hc
  rw [take_of_le (by rw [hc]; simp), hc, List.take_left]

theorem Reads.byte (b : UInt8) : Reads byte [b] b :=
  .bind_nil (.take [b]) (.pure b)

end Reads

end Reader

end MotionMetadata
