import MotionMetadata.PrecisionTime

/-!
# Where something first stands

What a search answers is said by `IsFirst`: the first place with a property, or that there is
none. The search for a pattern of bytes is one of these.

A time packet is searched for by its tags, and this is not quite a search for a packet. The
tags are looked for one after the other, and the first tag that stands anywhere decides: its
first place is the answer if a whole packet is there. For the text tag, which is the only one
of its kind, that is the first packet, since behind a place without room for a packet there is
no room either. Of the two UUID tags the one for microseconds comes first, and where it stands
behind a nanosecond packet that packet is overlooked.
-/

namespace MotionMetadata

/-- The answer is the first number with the property, or none if no number has it. -/
def IsFirst (p : Nat → Prop) : Option Nat → Prop
  | some k => p k ∧ ∀ j < k, ¬ p j
  | none => ∀ k, ¬ p k

namespace IsFirst

variable {p q : Nat → Prop} {found found' : Option Nat}

theorem unique (h : IsFirst p found) (h' : IsFirst p found') : found = found' := by
  match found, found', h, h' with
  | none, none, _, _ => rfl
  | none, some k, h, h' => exact absurd h'.1 (h k)
  | some k, none, h, h' => exact absurd h.1 (h' k)
  | some k, some k', h, h' =>
      have hle : k ≤ k' := Nat.le_of_not_lt fun hlt => h.2 k' hlt h'.1
      have hge : k' ≤ k := Nat.le_of_not_lt fun hlt => h'.2 k hlt h.1
      rw [Nat.le_antisymm hle hge]

theorem congr (hpq : ∀ k, p k ↔ q k) (h : IsFirst p found) : IsFirst q found := by
  rwa [← funext fun k => propext (hpq k)]

/-- The first place with a property is also the first with a wider one, if that never holds
before the narrower one does. -/
theorem widen (hpq : ∀ k, p k → q k) (hback : ∀ k, q k → ∃ j ≤ k, p j) (h : IsFirst p found) :
    IsFirst q found := by
  cases found with
  | none =>
      intro k hk
      obtain ⟨j, -, hj⟩ := hback k hk
      exact h j hj
  | some k =>
      refine ⟨hpq k h.1, fun i hi hqi => ?_⟩
      obtain ⟨j, hle, hj⟩ := hback i hqi
      exact h.2 j (Nat.lt_of_le_of_lt hle hi) hj

/-- A place where the property does not hold is passed over. -/
theorem succ (hzero : ¬ p 0) (h : IsFirst (fun k => p (k + 1)) found) :
    IsFirst p (found.map (· + 1)) := by
  cases found with
  | none =>
      intro k
      cases k with
      | zero => exact hzero
      | succ k => exact h k
  | some k =>
      refine ⟨h.1, fun j hj => ?_⟩
      cases j with
      | zero => exact hzero
      | succ j => exact h.2 j (Nat.lt_of_succ_lt_succ hj)

/-- To ask afterwards for what only gets lost farther on is to ask for it at once. -/
theorem filter {enough : Nat → Bool} (hback : ∀ j k, j ≤ k → enough k → enough j)
    (h : IsFirst p found) : IsFirst (fun k => p k ∧ enough k) (found.filter enough) := by
  cases found with
  | none => exact fun k hk => h k hk.1
  | some k =>
      rw [Option.filter_some]
      split
      · next henough => exact ⟨⟨h.1, henough⟩, fun j hj hpj => h.2 j hj hpj.1⟩
      · next hshort =>
          intro j hj
          have hlt : j < k := Nat.lt_of_not_le fun hle => hshort (hback k j hle hj.2)
          exact h.2 j hlt hj.1

end IsFirst

namespace Bytes

theorem offsetOf?_isFirst (pattern data : Bytes) :
    IsFirst (fun k => pattern <+: data.drop k) (offsetOf? pattern data) := by
  induction data with
  | nil =>
      rw [offsetOf?]
      cases pattern with
      | nil => exact ⟨List.prefix_rfl, fun j hj => absurd hj (Nat.not_lt_zero j)⟩
      | cons b pattern =>
          intro k hprefix
          rw [List.drop_nil] at hprefix
          exact List.cons_ne_nil b pattern (List.prefix_nil.1 hprefix)
  | cons b rest ih =>
      rw [offsetOf?]
      split
      · next hhere =>
          exact ⟨List.isPrefixOf_iff_prefix.1 hhere, fun j hj => absurd hj (Nat.not_lt_zero j)⟩
      · next hnot => exact .succ (fun hhere => hnot (List.isPrefixOf_iff_prefix.2 hhere)) ih

theorem offsetOf?_prefix {pattern data : Bytes} (h : pattern <+: data) :
    offsetOf? pattern data = some 0 :=
  (offsetOf?_isFirst pattern data).unique ⟨h, fun j hj => absurd hj (Nat.not_lt_zero j)⟩

end Bytes

namespace PrecisionTime

/-! ## Time packets -/

/-- A packet with the tag stands at `k`, with all the bytes of a packet. -/
def Whole (tag data : Bytes) (k : Nat) : Prop :=
  tag <+: data.drop k ∧ packetLength ≤ data.length - k

/-- A packet of the kind stands at `k`, whichever tag of the kind it has. -/
def PacketAt (kind : TimeTag) (data : Bytes) (k : Nat) : Prop :=
  ∃ nano, Whole (tagBytes kind nano) data k

/-- A nanosecond packet stands at `k`. The microsecond tag stands somewhere in the data, but not
so far. -/
structure Overlooked (data : Bytes) (k : Nat) : Prop where
  packet : Whole nanoTag data k
  behind : ∀ j ≤ k, ¬ uuidTag <+: data.drop j
  occurs : ∃ u, uuidTag <+: data.drop u

variable {data : Bytes} {kind : TimeTag} {k : Nat}

theorem packetAt_text : PacketAt .text data k ↔ Whole textTag data k :=
  ⟨fun ⟨_, h⟩ => h, fun h => ⟨false, h⟩⟩

theorem packetAt_uuid : PacketAt .uuid data k ↔ Whole uuidTag data k ∨ Whole nanoTag data k := by
  constructor
  · rintro ⟨nano, h⟩
    cases nano with
    | false => exact .inl h
    | true => exact .inr h
  · rintro (h | h)
    · exact ⟨false, h⟩
    · exact ⟨true, h⟩

/-- The first place of a tag, if a whole packet is there, is that of the first packet with the
tag. -/
theorem offsetOf?_filter_isFirst (tag data : Bytes) :
    IsFirst (Whole tag data)
      ((Bytes.offsetOf? tag data).filter fun k => packetLength ≤ data.length - k) := by
  have hroom : ∀ j k, j ≤ k → decide (packetLength ≤ data.length - k) →
      decide (packetLength ≤ data.length - j) := by
    intro j k hle hk
    have hk := of_decide_eq_true hk
    exact decide_eq_true (by omega)
  refine ((Bytes.offsetOf?_isFirst tag data).filter hroom).congr fun k => ?_
  rw [decide_eq_true_iff]
  rfl

/-- The tags of a kind, in the order in which they are looked for. -/
def tagsOf : TimeTag → List Bytes
  | .text => [textTag]
  | .uuid => [uuidTag, nanoTag]

theorem find?_eq (data : Bytes) (kind : TimeTag) : find? data kind =
    ((tagsOf kind).findSome? fun tag => Bytes.offsetOf? tag data).filter
      fun k => packetLength ≤ data.length - k := by
  rw [find?.eq_def]
  show (match (tagsOf kind).findSome? fun tag => Bytes.offsetOf? tag data with
    | some offset => if packetLength ≤ data.length - offset then some offset else none
    | none => none) = _
  cases (tagsOf kind).findSome? fun tag => Bytes.offsetOf? tag data with
  | none => rfl
  | some k => simp only [Option.filter_some, decide_eq_true_iff]

theorem find?_text_isFirst (data : Bytes) : IsFirst (Whole textTag data) (find? data .text) := by
  rw [find?_eq, tagsOf, List.findSome?_singleton]
  exact offsetOf?_filter_isFirst textTag data

/-- Where the microsecond tag stands, no other is looked for. -/
theorem find?_uuid_isFirst (h : ∃ u, uuidTag <+: data.drop u) :
    IsFirst (Whole uuidTag data) (find? data .uuid) := by
  have hfirst := Bytes.offsetOf?_isFirst uuidTag data
  have hwhole := offsetOf?_filter_isFirst uuidTag data
  rw [find?_eq, tagsOf, List.findSome?_cons]
  cases hfound : Bytes.offsetOf? uuidTag data with
  | none =>
      obtain ⟨u, hu⟩ := h
      rw [hfound] at hfirst
      exact absurd hu (hfirst u)
  | some k => rwa [hfound] at hwhole

theorem find?_nano_isFirst (h : ∀ u, ¬ uuidTag <+: data.drop u) :
    IsFirst (Whole nanoTag data) (find? data .uuid) := by
  have hfirst := Bytes.offsetOf?_isFirst uuidTag data
  rw [find?_eq, tagsOf, List.findSome?_cons]
  cases hfound : Bytes.offsetOf? uuidTag data with
  | none =>
      dsimp only
      rw [List.findSome?_singleton]
      exact offsetOf?_filter_isFirst nanoTag data
  | some k =>
      rw [hfound] at hfirst
      exact absurd hfirst.1 (h k)

/-- In front of a whole packet there is room for another. -/
theorem Whole.of_le {tag tag' : Bytes} {j : Nat} (h : Whole tag data k) (hle : j ≤ k)
    (htag : tag' <+: data.drop j) : Whole tag' data j := by
  have hroom := h.2
  exact ⟨htag, by omega⟩

theorem find?_uuid_isFirst_iff :
    IsFirst (PacketAt .uuid data) (find? data .uuid) ↔ ∀ k, ¬ Overlooked data k := by
  constructor
  · intro hfirst k hover
    have hpacket : PacketAt .uuid data k := packetAt_uuid.2 (.inr hover.packet)
    have huuid := find?_uuid_isFirst hover.occurs
    cases hfound : find? data .uuid with
    | none =>
        rw [hfound] at hfirst
        exact hfirst k hpacket
    | some j =>
        rw [hfound] at hfirst huuid
        have hlt : k < j := Nat.lt_of_not_le fun hle => hover.behind j hle huuid.1.1
        exact hfirst.2 k hlt hpacket
  · intro hnone
    by_cases hoccurs : ∃ u, uuidTag <+: data.drop u
    · -- A nanosecond packet has the microsecond tag before it, and there is room for that packet.
      refine (find?_uuid_isFirst hoccurs).widen (fun k h => packetAt_uuid.2 (.inl h)) fun k h => ?_
      rcases packetAt_uuid.1 h with hk | hk
      · exact ⟨k, Nat.le_refl k, hk⟩
      · refine Classical.byContradiction fun hbehind => ?_
        exact hnone k ⟨hk, fun j hle hj => hbehind ⟨j, hle, hk.of_le hle hj⟩, hoccurs⟩
    · have hnever : ∀ u, ¬ uuidTag <+: data.drop u := not_exists.1 hoccurs
      refine (find?_nano_isFirst hnever).congr fun k => ?_
      rw [packetAt_uuid]
      exact (or_iff_right fun h => hnever k h.1).symm

/-- The first text packet is found. So is the first UUID packet, exactly if no nanosecond packet
is overlooked. Where the microsecond tag stands anywhere, what is found is the first packet with
that tag. -/
theorem found_first_iff (data : Bytes) :
    IsFirst (PacketAt .text data) (find? data .text) ∧
      (IsFirst (PacketAt .uuid data) (find? data .uuid) ↔ ∀ k, ¬ Overlooked data k) ∧
      ((∃ u, uuidTag <+: data.drop u) → IsFirst (Whole uuidTag data) (find? data .uuid)) :=
  ⟨(find?_text_isFirst data).congr fun _ => packetAt_text.symm, find?_uuid_isFirst_iff,
    find?_uuid_isFirst⟩

/-- A nanosecond packet is not found if the other tag stands behind it, even if that is all
that stands there. -/
theorem packetBeforeTag_overlooked :
    let data := nanoTag ++ [unknownStatus] ++ stuff 0 ++ uuidTag
    PacketAt .uuid data 0 ∧ find? data .uuid = none ∧
      IsFirst (Whole uuidTag data) (find? data .uuid) ∧
      ¬ IsFirst (PacketAt .uuid data) (find? data .uuid) := by
  intro data
  obtain ⟨-, hfirst, huuid⟩ := found_first_iff data
  have hpacket : Whole nanoTag data 0 := ⟨by decide, by decide⟩
  have hoccurs : ∃ u, uuidTag <+: data.drop u := ⟨packetLength, by decide⟩
  refine ⟨packetAt_uuid.2 (.inr hpacket), by decide, huuid hoccurs, fun h => ?_⟩
  refine hfirst.1 h 0 ⟨hpacket, fun j hj => ?_, hoccurs⟩
  rw [Nat.le_zero.1 hj]
  decide

end PrecisionTime

end MotionMetadata
