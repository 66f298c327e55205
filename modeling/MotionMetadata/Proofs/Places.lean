import Mathlib.Data.List.GetD
import Mathlib.Order.Nat
import MotionMetadata.Grid

/-!
# Places in row-major order

The place of an index is what is left of it after dividing by one stride after the other. What
a proof about places needs of that is little: places that are there have indices, a place that
is nowhere before another has no smaller index, and indices between two that agree in their
first coordinates agree with them there. These are inductions over the sizes, one division
each. The last coordinate is split off once as well, because rows are walked one element after
the other.
-/

namespace MotionMetadata.Grid

/-- The place of the element with index `i` in an array of some sizes. -/
abbrev placeAt (sizes : List Nat) (i : Nat) : List Nat := placeOf (strides sizes) i

variable {sizes : List Nat}

theorem ext_getD {p q : List Nat} (hlength : p.length = q.length)
    (h : ∀ k < p.length, p.getD k 0 = q.getD k 0) : p = q := by
  refine List.ext_getElem hlength fun k hp hq => ?_
  have hk := h k hp
  rwa [List.getD_eq_getElem _ _ hp, List.getD_eq_getElem _ _ hq] at hk

theorem volume_append (front back : List Nat) :
    volume (front ++ back) = volume front * volume back := by
  induction front with
  | nil => exact (Nat.one_mul _).symm
  | cons size front ih =>
      show size * volume (front ++ back) = size * volume front * volume back
      rw [ih, Nat.mul_assoc]

theorem volume_concat (front : List Nat) (c : Nat) : volume (front ++ [c]) = volume front * c := by
  rw [volume_append]
  exact congrArg (volume front * ·) (Nat.mul_one c)

theorem length_placeAt (sizes : List Nat) (i : Nat) : (placeAt sizes i).length = sizes.length := by
  induction sizes generalizing i with
  | nil => rfl
  | cons size sizes ih => exact congrArg (· + 1) (ih (i % volume sizes))

/-- A place is inside along every dimension. -/
theorem placeAt_lt {i : Nat} (h : i < volume sizes) :
    ∀ k < sizes.length, (placeAt sizes i).getD k 0 < sizes.getD k 0 := by
  induction sizes generalizing i with
  | nil => simp
  | cons size sizes ih =>
      have hlt : i < size * volume sizes := h
      have hpos : 0 < volume sizes := Nat.pos_of_ne_zero fun hzero => by
        rw [hzero] at hlt
        omega
      intro k hk
      cases k with
      | zero => exact (Nat.div_lt_iff_lt_mul hpos).2 hlt
      | succ k => exact ih (Nat.mod_lt i hpos) k (Nat.lt_of_succ_lt_succ hk)

/-- Where all coordinates are inside there is an element. -/
theorem exists_placeAt {place : List Nat} (hlength : place.length = sizes.length)
    (h : ∀ k < sizes.length, place.getD k 0 < sizes.getD k 0) :
    ∃ i, i < volume sizes ∧ placeAt sizes i = place := by
  induction sizes generalizing place with
  | nil => exact ⟨0, Nat.one_pos, (List.eq_nil_of_length_eq_zero hlength).symm⟩
  | cons size sizes ih =>
      match place, hlength with
      | q :: place, hlength =>
          obtain ⟨i, hi, rfl⟩ := ih (Nat.succ.inj hlength) fun k hk =>
            h (k + 1) (Nat.succ_lt_succ hk)
          have hq : q < size := h 0 (Nat.succ_pos _)
          refine ⟨volume sizes * q + i, ?_, ?_⟩
          · show volume sizes * q + i < size * volume sizes
            calc
              volume sizes * q + i < volume sizes * q + volume sizes := Nat.add_lt_add_left hi _
              _ = (q + 1) * volume sizes := by rw [Nat.mul_comm, Nat.succ_mul]
              _ ≤ size * volume sizes := Nat.mul_le_mul_right _ hq
          · show (volume sizes * q + i) / volume sizes ::
              placeAt sizes ((volume sizes * q + i) % volume sizes) = _
            rw [Nat.mul_add_div (by omega), Nat.div_eq_of_lt hi, Nat.mul_add_mod,
              Nat.mod_eq_of_lt hi, Nat.add_zero]

/-- A place that is nowhere before another comes later, or is the same. -/
theorem le_of_placeAt_le {i j : Nat} (hi : i < volume sizes)
    (h : ∀ k < sizes.length, (placeAt sizes i).getD k 0 ≤ (placeAt sizes j).getD k 0) :
    i ≤ j := by
  induction sizes generalizing i j with
  | nil =>
      have hone : i < 1 := hi
      omega
  | cons size sizes ih =>
      have hlt : i < size * volume sizes := hi
      have hpos : 0 < volume sizes := Nat.pos_of_ne_zero fun hzero => by
        rw [hzero] at hlt
        omega
      have hfirst : i / volume sizes ≤ j / volume sizes := h 0 (Nat.succ_pos _)
      have hrest := ih (Nat.mod_lt i hpos) fun k hk => h (k + 1) (Nat.succ_lt_succ hk)
      rw [← Nat.div_add_mod i (volume sizes), ← Nat.div_add_mod j (volume sizes)]
      exact Nat.add_le_add (Nat.mul_le_mul_left _ hfirst) hrest

theorem placeAt_injective {i j : Nat} (hi : i < volume sizes) (hj : j < volume sizes)
    (h : placeAt sizes i = placeAt sizes j) : i = j :=
  Nat.le_antisymm (le_of_placeAt_le hi fun _ _ => h ▸ Nat.le_refl _)
    (le_of_placeAt_le hj fun _ _ => h ▸ Nat.le_refl _)

/-- Between two places that agree in some first coordinates all places do. -/
theorem take_placeAt_between {i k j m : Nat} (hik : i ≤ k) (hkj : k ≤ j)
    (h : (placeAt sizes i).take m = (placeAt sizes j).take m) :
    (placeAt sizes k).take m = (placeAt sizes i).take m := by
  induction sizes generalizing i k j m with
  | nil => rfl
  | cons size sizes ih =>
      cases m with
      | zero => rfl
      | succ m =>
          have hcons : i / volume sizes :: (placeAt sizes (i % volume sizes)).take m =
              j / volume sizes :: (placeAt sizes (j % volume sizes)).take m := h
          injection hcons with hfirst hrest
          have hlow : i / volume sizes ≤ k / volume sizes := Nat.div_le_div_right hik
          have hhigh : k / volume sizes ≤ j / volume sizes := Nat.div_le_div_right hkj
          have hsame : k / volume sizes = i / volume sizes := by omega
          have hi := Nat.div_add_mod i (volume sizes)
          have hk := Nat.div_add_mod k (volume sizes)
          have hj := Nat.div_add_mod j (volume sizes)
          rw [hsame] at hk
          rw [← hfirst] at hj
          show k / volume sizes :: (placeAt sizes (k % volume sizes)).take m =
            i / volume sizes :: (placeAt sizes (i % volume sizes)).take m
          rw [hsame, ih (by omega) (by omega) hrest]

/-- The last coordinate is the column, and the others are the place of the row. -/
theorem placeAt_concat {c i : Nat} (h : i < volume (sizes ++ [c])) :
    placeAt (sizes ++ [c]) i = placeAt sizes (i / c) ++ [i % c] := by
  induction sizes generalizing i with
  | nil =>
      have hlt : i < c * 1 := h
      rw [Nat.mul_one] at hlt
      show [i / 1] = [i % c]
      rw [Nat.div_one, Nat.mod_eq_of_lt hlt]
  | cons size sizes ih =>
      have hlt : i < size * volume (sizes ++ [c]) := h
      have hpos : 0 < volume (sizes ++ [c]) := Nat.pos_of_ne_zero fun hzero => by
        rw [hzero] at hlt
        omega
      show i / volume (sizes ++ [c]) :: placeAt (sizes ++ [c]) (i % volume (sizes ++ [c])) =
        i / c / volume sizes :: (placeAt sizes (i / c % volume sizes) ++ [i % c])
      rw [ih (Nat.mod_lt i hpos), volume_concat, Nat.mul_comm (volume sizes) c,
        Nat.mod_mul_right_div_self, Nat.mod_mul_right_mod, Nat.div_div_eq_div_mul]

/-! ## Rows -/

section Rows

variable {c i j : Nat}

theorem getD_placeAt_last (h : i < volume (sizes ++ [c])) :
    (placeAt (sizes ++ [c]) i).getD sizes.length 0 = i % c := by
  rw [placeAt_concat h, List.getD_append_right _ _ _ _ (by simp [length_placeAt]), length_placeAt,
    Nat.sub_self]
  rfl

theorem getD_placeAt_row (h : i < volume (sizes ++ [c])) {k : Nat} (hk : k < sizes.length) :
    (placeAt (sizes ++ [c]) i).getD k 0 = (placeAt sizes (i / c)).getD k 0 := by
  rw [placeAt_concat h, List.getD_append _ _ _ _ (by rwa [length_placeAt])]

/-- Places that agree but for the column are in one row. -/
theorem row_of_getD_placeAt (hi : i < volume (sizes ++ [c])) (hj : j < volume (sizes ++ [c]))
    (h : ∀ k < sizes.length,
      (placeAt (sizes ++ [c]) i).getD k 0 = (placeAt (sizes ++ [c]) j).getD k 0) :
    i / c = j / c := by
  have hrow : ∀ k < sizes.length,
      (placeAt sizes (i / c)).getD k 0 = (placeAt sizes (j / c)).getD k 0 := by
    intro k hk
    rw [← getD_placeAt_row hi hk, ← getD_placeAt_row hj hk, h k hk]
  rw [volume_concat] at hi hj
  refine placeAt_injective (Nat.div_lt_of_lt_mul (by rwa [Nat.mul_comm]))
    (Nat.div_lt_of_lt_mul (by rwa [Nat.mul_comm])) (ext_getD ?_ fun k hk => ?_)
  · rw [length_placeAt, length_placeAt]
  · rw [length_placeAt] at hk
    exact hrow k hk

end Rows

end MotionMetadata.Grid
