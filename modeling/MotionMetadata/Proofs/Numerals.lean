import MotionMetadata.Json.Numeral
import Mathlib.Data.List.TakeWhile

/-!
# Numerals in a text

A numeral is read back from its own text, whatever follows it, as long as that does not go on
with it. This takes no more of a numeral than that its digits are digits and that no zero
stands in front, and all numerals that are written are of this kind: those of integers because
digits of a number never start with a zero, and those of doubles because the shortest decimal
of a double is not zero unless the double is.
-/

namespace MotionMetadata

namespace Numeral

variable {n : Numeral} {cs rest : List Char}

/-! ## Reading digits -/

/-- What may follow a numeral: nothing that it could be continued with. -/
def Ends (rest : List Char) : Prop :=
  ∀ c ∈ rest.head?, c.isDigit = false ∧ c ≠ '.' ∧ c ≠ 'e' ∧ c ≠ 'E'

/-- Digits, of which there are some. -/
structure AreDigits (cs : List Char) : Prop where
  ne_nil : cs ≠ []
  digits : ∀ c ∈ cs, c.isDigit

theorem digits?_append (hcs : AreDigits cs) (hrest : ∀ c ∈ rest.head?, c.isDigit = false) :
    digits? (cs ++ rest) = some (cs, rest) := by
  have htake : rest.takeWhile Char.isDigit = [] := by
    cases rest with
    | nil => rfl
    | cons c t => rw [List.takeWhile_cons_of_neg (by simp [hrest c rfl])]
  have hdrop : rest.dropWhile Char.isDigit = rest := by
    cases rest with
    | nil => rfl
    | cons c t => rw [List.dropWhile_cons_of_neg (by simp [hrest c rfl])]
  rw [digits?, List.takeWhile_append_of_pos hcs.digits, List.dropWhile_append_of_pos hcs.digits,
    htake, hdrop, List.append_nil]
  cases cs with
  | nil => exact absurd rfl hcs.ne_nil
  | cons c t => rfl

/-- A numeral that has a text: digits before the point with no zero in front of others, and
digits behind it, if there are any. -/
structure Proper (n : Numeral) : Prop where
  whole : AreDigits n.whole
  zero : n.whole.head? = some '0' → n.whole = ['0']
  fraction : ∀ c ∈ n.fraction, c.isDigit

theorem whole?_append (hcs : AreDigits cs) (hzero : cs.head? = some '0' → cs = ['0'])
    (hrest : ∀ c ∈ rest.head?, c.isDigit = false) : whole? (cs ++ rest) = some (cs, rest) := by
  by_cases hhead : cs.head? = some '0'
  · rw [hzero hhead]
    rfl
  · have hdigits := digits?_append hcs hrest
    cases cs with
    | nil => exact absurd rfl hcs.ne_nil
    | cons c t =>
        rw [List.cons_append] at hdigits ⊢
        unfold whole?
        split
        · next hc =>
            injection hc with hc _
            exact absurd (congrArg some hc) hhead
        · exact hdigits

/-- The text of a fraction, which has a point if there is one. -/
def fractionText (fraction : List Char) : List Char :=
  if fraction.isEmpty then [] else '.' :: fraction

theorem fraction?_append {fraction : List Char} (hfraction : ∀ c ∈ fraction, c.isDigit)
    (hrest : ∀ c ∈ rest.head?, c.isDigit = false ∧ c ≠ '.') :
    fraction? (fractionText fraction ++ rest) = some (fraction, rest) := by
  cases fraction with
  | nil =>
      show fraction? rest = some ([], rest)
      unfold fraction?
      split
      · exact absurd rfl (hrest '.' rfl).2
      · rfl
  | cons c t => exact digits?_append ⟨List.cons_ne_nil _ _, hfraction⟩ fun c hc => (hrest c hc).1

/-- The text of an exponent, which always has a sign. -/
def exponentText : Option Int → List Char
  | none => []
  | some e => 'e' :: (if e < 0 then '-' else '+') :: Nat.toDigits 10 e.natAbs

theorem areDigits_toDigits (n : Nat) : AreDigits (Nat.toDigits 10 n) :=
  ⟨Nat.toDigits_ne_nil, fun _ hc => Nat.isDigit_of_mem_toDigits (by decide) (by decide) hc⟩

theorem natValue_toDigits (n : Nat) : natValue (Nat.toDigits 10 n) = n :=
  Nat.ofDigitChars_ten_toDigits

theorem exponent?_append (exponent : Option Int) (hrest : Ends rest) :
    exponent? (exponentText exponent ++ rest) = some (exponent, rest) := by
  cases exponent with
  | none =>
      show exponent? rest = some (none, rest)
      unfold exponent?
      split
      · exact absurd rfl (hrest 'e' rfl).2.2.1
      · exact absurd rfl (hrest 'E' rfl).2.2.2
      · rfl
  | some e =>
      have hdigits := digits?_append (areDigits_toDigits e.natAbs) fun c hc => (hrest c hc).1
      show (signedDigits? (_ :: (Nat.toDigits 10 e.natAbs ++ rest))).map _ = _
      by_cases he : e < 0
      · rw [if_pos he]
        show ((digits? _).map _).map _ = _
        rw [hdigits]
        show some (some (-(natValue (Nat.toDigits 10 e.natAbs) : Int)), rest) = _
        rw [natValue_toDigits, show -(e.natAbs : Int) = e by omega]
      · rw [if_neg he]
        show ((digits? _).map _).map _ = _
        rw [hdigits]
        show some (some (natValue (Nat.toDigits 10 e.natAbs) : Int), rest) = _
        rw [natValue_toDigits, show (e.natAbs : Int) = e by omega]

theorem toList_display (n : Numeral) :
    n.display.toList = (if n.negative then ['-'] else []) ++
      (n.whole ++ (fractionText n.fraction ++ exponentText n.exponent)) := by
  obtain ⟨negative, whole, fraction, exponent⟩ := n
  have hsign : (if negative then "-" else "").toList = if negative then ['-'] else [] := by
    cases negative <;> rfl
  have hfraction : (if fraction.isEmpty then "" else "." ++ String.ofList fraction).toList =
      fractionText fraction := by
    cases fraction with
    | nil => rfl
    | cons c t => simp [fractionText]
  rw [display]
  dsimp only
  rw [String.toList_append, String.toList_append, String.toList_append, hsign, hfraction,
    String.toList_ofList, List.append_assoc, List.append_assoc]
  cases exponent with
  | none => rfl
  | some e => by_cases he : e < 0 <;> simp [exponentText, he]

/-- The digit or the sign that a numeral starts with. -/
theorem head_display (hn : n.Proper) : ∃ c ∈ n.display.toList.head?, c.isDigit ∨ c = '-' := by
  rw [toList_display]
  cases hnegative : n.negative with
  | true => exact ⟨'-', rfl, .inr rfl⟩
  | false =>
      cases hwhole : n.whole with
      | nil => exact absurd hwhole hn.whole.ne_nil
      | cons c t =>
          exact ⟨c, rfl, .inl (hn.whole.digits c (by simp [hwhole]))⟩

theorem head_exponentText (exponent : Option Int) (hrest : Ends rest) :
    ∀ c ∈ (exponentText exponent ++ rest).head?, c.isDigit = false ∧ c ≠ '.' := by
  cases exponent with
  | none => exact fun c hc => ⟨(hrest c hc).1, (hrest c hc).2.1⟩
  | some e =>
      intro c hc
      obtain rfl : 'e' = c := Option.some.inj hc
      decide

theorem head_fractionText (fraction : List Char) (exponent : Option Int) (hrest : Ends rest) :
    ∀ c ∈ (fractionText fraction ++ (exponentText exponent ++ rest)).head?, c.isDigit = false := by
  cases fraction with
  | nil => exact fun c hc => (head_exponentText exponent hrest c hc).1
  | cons d t =>
      intro c hc
      obtain rfl : '.' = c := Option.some.inj hc
      decide

theorem whole_ne_minus (hn : n.Proper) (cs t : List Char) : n.whole ++ cs ≠ '-' :: t := by
  intro ht
  cases hwhole : n.whole with
  | nil => exact hn.whole.ne_nil hwhole
  | cons c rest =>
      rw [hwhole] at ht
      injection ht with hc _
      have hdigit := hn.whole.digits c (by simp [hwhole])
      rw [hc] at hdigit
      exact absurd hdigit (by decide)

/-- A numeral is read back from its text. -/
theorem read?_display (hn : n.Proper) (hrest : Ends rest) :
    read? (n.display.toList ++ rest) = some (n, rest) := by
  have hwhole := whole?_append hn.whole hn.zero (head_fractionText n.fraction n.exponent hrest)
  have hfraction := fraction?_append hn.fraction (head_exponentText n.exponent hrest)
  have hexponent := exponent?_append n.exponent hrest
  have hbody : ∀ negative, ((whole? (n.whole ++ (fractionText n.fraction ++
      (exponentText n.exponent ++ rest)))).bind fun whole =>
        (fraction? whole.2).bind fun fraction => (exponent? fraction.2).bind fun exponent =>
          some (({ negative, whole := whole.1, fraction := fraction.1, exponent := exponent.1 } :
            Numeral), exponent.2)) = some ({ n with negative }, rest) := by
    intro negative
    rw [hwhole, Option.bind_some, hfraction, Option.bind_some, hexponent, Option.bind_some]
  rw [toList_display, List.append_assoc, List.append_assoc, List.append_assoc]
  cases hnegative : n.negative with
  | true =>
      refine (hbody true).trans ?_
      rw [← hnegative]
  | false =>
      refine Eq.trans ?_ ((hbody false).trans (by rw [← hnegative]))
      show read? (n.whole ++ _) = _
      unfold read?
      split
      next heq =>
        split at heq
        · next t ht => exact absurd ht (whole_ne_minus hn _ t)
        · injection heq with hneg hcs
          rw [← hneg, ← hcs]
          rfl

/-! ## Integers -/

theorem head?_toDigits {n : Nat} (hn : n ≠ 0) : (Nat.toDigits 10 n).head? ≠ some '0' := by
  induction n using Nat.strong_induction_on with
  | _ n ih =>
      rw [Nat.toDigits_eq_if (by decide)]
      split
      · simpa using hn
      · next hlarge =>
          have hfront : n / 10 ≠ 0 := by omega
          cases hdigits : Nat.toDigits 10 (n / 10) with
          | nil => exact absurd hdigits Nat.toDigits_ne_nil
          | cons c t =>
              have hhead := ih (n / 10) (by omega) hfront
              rw [hdigits] at hhead
              exact hhead

theorem proper_of_nat (negative : Bool) (n : Nat) :
    Proper { negative, whole := Nat.toDigits 10 n } where
  whole := areDigits_toDigits n
  zero hhead := by
    by_cases hn : n = 0
    · rw [hn]
      rfl
    · exact absurd hhead (head?_toDigits hn)
  fraction := nofun

theorem proper_ofNat (n : Nat) : (ofNat n).Proper := proper_of_nat false n

theorem proper_ofInt (n : Int) : (ofInt n).Proper := proper_of_nat _ n.natAbs

/-- An integer is the integer that its numeral spells. -/
theorem integer?_ofNat (n : Nat) : (ofNat n).integer? = some (n : Int) := by
  show some ((natValue (Nat.toDigits 10 n) : Nat) : Int) = _
  rw [natValue_toDigits]

theorem integer?_ofInt (n : Int) : (ofInt n).integer? = some n := by
  show (if decide (n < 0) then
    (if natValue (Nat.toDigits 10 n.natAbs) = 0 then none
      else some (-(natValue (Nat.toDigits 10 n.natAbs) : Int)))
    else some ((natValue (Nat.toDigits 10 n.natAbs) : Nat) : Int)) = some n
  rw [natValue_toDigits]
  by_cases hn : n < 0
  · rw [decide_eq_true hn, if_pos rfl, if_neg (by omega)]
    congr 1
    omega
  · rw [decide_eq_false hn, if_neg (by decide)]
    congr 1
    omega

end Numeral

/-! ## Doubles -/

namespace Decimal

variable {d : Decimal} {x : Binary64}

theorem stripZeros_digits (fuel : Nat) (hd : d.digits ≠ 0) : (stripZeros fuel d).digits ≠ 0 := by
  induction fuel generalizing d with
  | zero => exact hd
  | succ fuel ih =>
      rw [stripZeros]
      split
      · next h =>
          refine ih ?_
          show d.digits / 10 ≠ 0
          omega
      · exact hd

/-- The interval of a double that is not zero lies above zero. -/
theorem low_pos (hx : x.magnitude ≠ 0) : 0 < (Interval.ofBinary64 x).low := by
  have hfields : x.magnitude = x.exponentField * 2 ^ 52 + x.fraction := by
    rw [Binary64.exponentField, Binary64.fraction]
    omega
  show 0 < (4 * (if x.exponentField = 0 then x.fraction else 2 ^ 52 + x.fraction) -
    (if x.fraction = 0 ∧ 1 < x.exponentField then 1 else 2)) * 2 ^ _
  refine Nat.mul_pos ?_ (Nat.two_pow_pos _)
  have hbelow : (if x.fraction = 0 ∧ 1 < x.exponentField then 1 else 2) ≤ 2 := by
    split <;> omega
  have hsignificand : 1 ≤ (if x.exponentField = 0 then x.fraction else 2 ^ 52 + x.fraction) := by
    split <;> omega
  omega

/-- No double but zero is read from zero. -/
theorem digits_of_contains (hx : x.magnitude ≠ 0) (h : (Interval.ofBinary64 x).contains d) :
    d.digits ≠ 0 := by
  intro hzero
  have hlow : 0 < (Interval.ofBinary64 x).low * 10 ^ (-d.exponent).toNat :=
    Nat.mul_pos (low_pos hx) (Nat.pow_pos (by decide))
  rw [Interval.contains, hzero, Nat.zero_mul, Nat.zero_mul] at h
  split at h <;> (rw [Bool.and_eq_true, decide_eq_true_iff] at h; omega)

theorem digits_of_nearestOnGrid {tie : Tie} {exponent : Int} (hx : x.magnitude ≠ 0)
    (h : (Interval.ofBinary64 x).nearestOnGrid tie exponent = some d) : d.digits ≠ 0 := by
  unfold Interval.nearestOnGrid at h
  generalize (Interval.ofBinary64 x).value * 10 ^ (-exponent).toNat = numerator at h
  generalize (Interval.ofBinary64 x).denominator * 10 ^ exponent.toNat = step at h
  have hbelow : (Interval.ofBinary64 x).contains ⟨numerator / step, exponent⟩ →
      numerator / step ≠ 0 := digits_of_contains hx
  have habove : numerator / step + 1 ≠ 0 := Nat.succ_ne_zero _
  cases hin : (Interval.ofBinary64 x).contains ⟨numerator / step, exponent⟩ <;>
    cases hout : (Interval.ofBinary64 x).contains ⟨numerator / step + 1, exponent⟩ <;>
      simp only [hin, hout] at h
  · cases h
  · exact Option.some.inj h ▸ habove
  · exact Option.some.inj h ▸ hbelow hin
  · have hone : d = ⟨numerator / step, exponent⟩ ∨ d = ⟨numerator / step + 1, exponent⟩ := by
      split at h
      · exact .inl (Option.some.inj h).symm
      · exact .inr (Option.some.inj h).symm
      · exact .inr (Option.some.inj h).symm
      · split at h
        · exact .inl (Option.some.inj h).symm
        · exact .inr (Option.some.inj h).symm
    rcases hone with rfl | rfl
    · exact hbelow hin
    · exact habove

/-- The shortest decimal of a double that is not zero is not zero. -/
theorem shortest_digits (tie : Tie) (hx : x.magnitude ≠ 0) : (shortest tie x).digits ≠ 0 := by
  rw [shortest, if_neg hx]
  refine stripZeros_digits _ ?_
  cases hfound : (List.range 17).findSome? fun (n : Nat) =>
      (Interval.ofBinary64 x).nearestOnGrid tie
        ((Interval.ofBinary64 x).scale - (n : Int) - 1) with
  | some d =>
      obtain ⟨_, _, hd⟩ := List.exists_of_findSome?_eq_some hfound
      exact digits_of_nearestOnGrid hx hd
  | none =>
      show (Interval.ofBinary64 x).value * 5 ^ _ ≠ 0
      have hle : (Interval.ofBinary64 x).low ≤ (Interval.ofBinary64 x).value :=
        Nat.mul_le_mul_right _ (Nat.sub_le _ _)
      exact Nat.mul_ne_zero (by have := low_pos hx; omega) (Nat.pow_pos (by decide)).ne'

end Decimal

namespace Numeral

/-- Some of the first digits of a number are digits, and start with its first one. -/
theorem areDigits_take {k : Nat} (hcs : AreDigits cs) (hk : k ≠ 0) :
    AreDigits (cs.take k) ∧ (cs.take k).head? = cs.head? := by
  refine ⟨⟨?_, fun c hc => hcs.digits c (List.mem_of_mem_take hc)⟩, ?_⟩
  · rw [Ne, List.take_eq_nil_iff, not_or]
    exact ⟨hk, hcs.ne_nil⟩
  · rw [List.head?_take, if_neg hk]

theorem isDigit_of_mem_zeros {k : Nat} {c : Char} (hc : c ∈ Decimal.zeros k) : c.isDigit := by
  rw [(List.mem_replicate.1 hc).2]
  rfl

/-- What stands before the point of a decimal, and what behind. -/
theorem places_digits {d : Decimal} (hd : d.digits ≠ 0 ∨ d = ⟨0, 0⟩) :
    AreDigits d.places.1 ∧ (d.places.1.head? = some '0' → d.places.1 = ['0']) ∧
      ∀ c ∈ d.places.2, c.isDigit := by
  have hdigits := areDigits_toDigits d.digits
  have hfront : (Nat.toDigits 10 d.digits).head? = some '0' → d = ⟨0, 0⟩ := fun hhead =>
    hd.resolve_left fun hne => head?_toDigits hne hhead
  rw [Decimal.places]
  split
  · refine ⟨⟨by simp [hdigits.ne_nil], fun c hc => ?_⟩, fun hhead => ?_, nofun⟩
    · exact (List.mem_append.1 hc).elim (hdigits.digits c) isDigit_of_mem_zeros
    · rw [List.head?_append, List.head?_eq_some_head hdigits.ne_nil, Option.some_or,
        ← List.head?_eq_some_head hdigits.ne_nil] at hhead
      rw [hfront hhead]
      rfl
  · next hexponent =>
      split
      · next hpoint =>
          obtain ⟨htake, hhead⟩ := areDigits_take hdigits
            (show ((Nat.toDigits 10 d.digits).length + d.exponent).toNat ≠ 0 by omega)
          refine ⟨htake, fun hzero => ?_, fun c hc => hdigits.digits c (List.mem_of_mem_drop hc)⟩
          rw [hfront (hhead ▸ hzero)] at hexponent
          exact absurd (Int.le_refl 0) hexponent
      · refine ⟨⟨by simp, by simp⟩, fun _ => rfl, fun c hc => ?_⟩
        exact (List.mem_append.1 hc).elim isDigit_of_mem_zeros (hdigits.digits c)

theorem proper_ofDecimal (negative : Bool) {d : Decimal} (hd : d.digits ≠ 0 ∨ d = ⟨0, 0⟩) :
    (ofDecimal negative d).Proper := by
  have hdigits := areDigits_toDigits d.digits
  rw [ofDecimal]
  dsimp only
  split
  · obtain ⟨hwhole, hzero, hfraction⟩ := places_digits hd
    refine ⟨hwhole, hzero, ?_⟩
    dsimp only
    split
    · simp
    · exact hfraction
  · next hscientific =>
      obtain ⟨htake, hhead⟩ := areDigits_take hdigits Nat.one_ne_zero
      refine ⟨htake, fun hzero => ?_, fun c hc => hdigits.digits c (List.mem_of_mem_drop hc)⟩
      refine absurd ?_ hscientific
      rcases hd with hne | rfl
      · exact absurd (hhead ▸ hzero) (head?_toDigits hne)
      · decide

theorem proper_ofBinary64 (x : Binary64) : (ofBinary64 x).Proper := by
  refine proper_ofDecimal _ ?_
  by_cases hx : x.magnitude = 0
  · right
    rw [Decimal.shortest, if_pos hx]
  · exact .inl (Decimal.shortest_digits .toEven hx)

end Numeral

end MotionMetadata
