import MotionMetadata.Proofs.Retelling

/-!
# Values that survive JSON

Two checks of depth guard the way to JSON and back, one in the writer and one in the reader, and
neither may refuse what the other lets pass. The writer says how deep a value may nest. What it
lets pass the reader reads, in a tree of whatever height that makes.

So a value without doubles comes back: the same entries under the same keys, the same items and
fields in the same order, repetitions included. Only the widths that sets remember are not told,
and they are no part of what a value is equal to.
-/

namespace MotionMetadata

namespace Imap

theorem reread_id (v : Imap) : v.reread id = v := by
  cases v <;> rfl

theorem equals_self {v : Imap} (h : ∀ x, v ≠ .normal x) : v.equals v := by
  cases v with
  | normal x => exact absurd rfl (h x)
  | nan signaling negative payload =>
      show (signaling == signaling && negative == negative && payload == payload) = true
      simp only [beq_self_eq_true, Bool.and_self]
  | belowMinimum => rfl
  | aboveMaximum => rfl
  | userDefined payload => exact beq_self_eq_true payload

end Imap

namespace Value

/-- The second value lies so many levels deep in the first, which itself is at depth zero. -/
inductive NestedAt : Nat → Value → Value → Prop
  | here (v : Value) : NestedAt 0 v v
  | inside {n : Nat} {v child w : Value} (hchild : child ∈ v.children)
      (h : NestedAt n child w) : NestedAt (n + 1) v w

/-- The levels that a value takes up are counted from one, and depths from zero. -/
theorem isWithin_iff {levels : Nat} {v : Value} :
    v.isWithin levels ↔ ∀ n w, NestedAt n v w → n < levels := by
  induction levels generalizing v with
  | zero => exact iff_of_false nofun fun h => absurd (h 0 v (.here v)) (Nat.lt_irrefl 0)
  | succ levels ih =>
      rw [isWithin, List.all_eq_true]
      constructor
      · intro h n w hw
        cases hw with
        | here => exact Nat.succ_pos levels
        | inside hchild hw => exact Nat.succ_lt_succ (ih.1 (h _ hchild) _ _ hw)
      · exact fun h child hchild => ih.2 fun n w hw =>
          Nat.lt_of_succ_lt_succ (h (n + 1) w (.inside hchild hw))

theorem isWithin_of_toJson {v : Value} {json : Json} (h : v.toJson = .ok json) :
    v.isWithin jsonLevels := by
  by_contra hdeep
  rw [toJson, toJsonWithin_tooDeep (Bool.eq_false_iff.2 hdeep)] at h
  cases h

/-- A value has a form exactly if nothing in it is nested too deep. -/
theorem toJson_isOk_iff {v : Value} :
    (∃ json, v.toJson = .ok json) ↔ ∀ n w, NestedAt n v w → n ≤ maxDepth := by
  have hwithin : v.isWithin jsonLevels ↔ ∀ n w, NestedAt n v w → n ≤ maxDepth :=
    isWithin_iff.trans (forall₃_congr fun _ _ _ => Nat.lt_succ_iff)
  rw [← hwithin]
  constructor
  · rintro ⟨json, hjson⟩
    exact isWithin_of_toJson hjson
  · intro h
    obtain ⟨json, hform⟩ := exists_form h
    exact ⟨json, hform.told⟩

/-- A form is read from a tree that is as high as the form. -/
theorem Retold.ofJson {v : Value} {json : Json} (h : Retold jsonLevels v json)
    {r : Binary64 → Binary64} (hr : v.RereadsAs r) : ofJson json = .ok (v.reread r) := by
  rw [Value.ofJson, h.retold r _ _ _ hr (Nat.min_le_right ..) (Nat.le_refl _) (Nat.le_refl _)]
  rfl

/-! ## Values without doubles -/

/-- Whether the value itself is a double. -/
def isDouble : Value → Bool
  | float _ => true
  | imap (.normal _) => true
  | _ => false

/-- There is no double in the value. -/
def Exact (v : Value) : Prop := ∀ x, ¬ v.HoldsDouble x

namespace Exact

variable {v : Value}

theorem child {child : Value} (h : v.Exact) (hchild : child ∈ v.children) : child.Exact :=
  fun x hx => h x (.child hchild hx)

theorem of_children (hv : v.isDouble = false) (h : ∀ child ∈ v.children, child.Exact) :
    v.Exact := by
  intro x hx
  cases hx with
  | float => cases hv
  | imap => cases hv
  | child hchild hx => exact h _ hchild x hx

theorem leaf (hv : v.isDouble = false) (hnone : v.children = []) : v.Exact :=
  of_children hv (hnone ▸ nofun)

theorem rereadsAs (h : v.Exact) (r : Binary64 → Binary64) : v.RereadsAs r :=
  fun x hx => absurd hx (h x)

end Exact

/-! ## Equality

Widths are no part of what a value is equal to, and without doubles every value is equal to
itself. -/

theorem equalLocal_reread {entries : FieldSet Tag}
    (h : ∀ e ∈ entries, e.value.equals (e.value.reread id)) :
    equalLocal entries (entries.map (rereadEntry id)) := by
  induction entries with
  | nil => rfl
  | cons e rest ih =>
      obtain ⟨he, hrest⟩ := List.forall_mem_cons.1 h
      rw [List.map_cons, rereadEntry, equalLocal, he, ih hrest]
      simp

theorem equalUniversal_reread {entries : FieldSet UniversalKey}
    (h : ∀ e ∈ entries, e.value.equals (e.value.reread id)) :
    equalUniversal entries (entries.map (rereadEntry id)) := by
  induction entries with
  | nil => rfl
  | cons e rest ih =>
      obtain ⟨he, hrest⟩ := List.forall_mem_cons.1 h
      rw [List.map_cons, rereadEntry, equalUniversal, he, ih hrest]
      simp [UniversalKey.same]

theorem equalItems_reread {items : List Value} (h : ∀ item ∈ items, item.equals (item.reread id)) :
    equalItems items (items.map (reread id)) := by
  induction items with
  | nil => rfl
  | cons item rest ih =>
      obtain ⟨hitem, hrest⟩ := List.forall_mem_cons.1 h
      rw [List.map_cons, equalItems, hitem, ih hrest]
      rfl

theorem equalFields_reread {fields : List (String × Value)}
    (h : ∀ f ∈ fields, f.2.equals (f.2.reread id)) :
    equalFields fields (fields.map fun f => (f.1, f.2.reread id)) := by
  induction fields with
  | nil => rfl
  | cons f rest ih =>
      obtain ⟨hf, hrest⟩ := List.forall_mem_cons.1 h
      rw [List.map_cons, equalFields, hf, ih hrest]
      simp

theorem equals_reread {levels : Nat} {v : Value} (hwithin : v.isWithin levels) (hv : v.Exact) :
    v.equals (v.reread id) := by
  induction levels generalizing v with
  | zero => exact nomatch hwithin
  | succ levels ih =>
      have hchild : ∀ child ∈ v.children, child.equals (child.reread id) := fun child hmem =>
        ih (List.all_eq_true.1 hwithin child hmem) (hv.child hmem)
      cases v with
      | float x => exact absurd (.float x) (hv x)
      | imap special =>
          rw [reread, Imap.reread_id, equals]
          refine Imap.equals_self fun x hx => ?_
          subst hx
          exact hv x (.imap x)
      | localSet entries =>
          rw [reread_localSet, equals]
          exact equalLocal_reread (List.forall_mem_map.1 hchild)
      | universalSet entries =>
          rw [reread_universalSet, equals]
          exact equalUniversal_reread (List.forall_mem_map.1 hchild)
      | series items =>
          rw [reread_series, equals]
          exact equalItems_reread hchild
      | record fields =>
          rw [reread_record, equals]
          exact equalFields_reread (List.forall_mem_map.1 hchild)
      | _ => simp [reread, equals]

/-- A value without doubles survives JSON. It has a form exactly if nothing in it is nested too
deep, and is refused for depth otherwise. The form is read back as the value with the widths of
its sets forgotten and everything else as it was, be it in the order that it was told in or in
the order of its keys, and that is equal to the value. -/
theorem survives_tree {v : Value} (hv : v.Exact) :
    ((∃ json, v.toJson = .ok json) ↔ ∀ n w, NestedAt n v w → n ≤ maxDepth) ∧
    (∀ n w, NestedAt n v w → maxDepth < n → v.toJson = raise .tooDeep) ∧
    ∀ json, v.toJson = .ok json → ofJson json = .ok (v.reread id) ∧
      ofJson json.sorted = .ok (v.reread id) ∧ v.equals (v.reread id) := by
  refine ⟨toJson_isOk_iff, fun n w hw hdeep => ?_, fun json hjson => ?_⟩
  · refine toJsonWithin_tooDeep (Bool.eq_false_iff.2 fun hwithin => ?_)
    have hlow : n < maxDepth + 1 := isWithin_iff.1 hwithin n w hw
    omega
  · have hwithin := isWithin_of_toJson hjson
    obtain ⟨json', hform⟩ := exists_form hwithin
    obtain rfl : json' = json := Except.ok.inj (hform.told.symm.trans hjson)
    exact ⟨hform.retold.ofJson (hv.rereadsAs id), hform.sorted.ofJson (hv.rereadsAs id),
      equals_reread hwithin hv⟩

/-- A set with a tag that repeats and a width, in which everything nests that may. -/
def repeatedTag : Value :=
  .localSet [⟨4, .uint 19, some 2⟩,
    ⟨4, .universalSet [⟨PacketKey.movingTarget, .blob [0xAB], none⟩], none⟩,
    ⟨9, .record [("a", .series [.imap .belowMinimum, .imap (.nan true false 5)]),
      ("a", .empty)], none⟩]

/-- It is read back with both entries, both fields and all of the label. -/
theorem repeatedTag_survives : repeatedTag.Exact ∧
    ∃ json, repeatedTag.toJson = .ok json ∧ ofJson json.sorted = .ok (.localSet [
      ⟨4, .uint 19, none⟩, ⟨4, .universalSet [⟨PacketKey.movingTarget, .blob [0xAB], none⟩], none⟩,
      ⟨9, .record [("a", .series [.imap .belowMinimum, .imap (.nan true false 5)]),
        ("a", .empty)], none⟩]) := by
  have hlabel : (universalSet [⟨PacketKey.movingTarget, .blob [0xAB], none⟩]).Exact :=
    .of_children rfl (List.forall_mem_singleton.2 (.leaf rfl rfl))
  have hspecial : (series [.imap .belowMinimum, .imap (.nan true false 5)]).Exact :=
    .of_children rfl (List.forall_mem_cons.2 ⟨.leaf rfl rfl,
      List.forall_mem_singleton.2 (.leaf rfl rfl)⟩)
  have hfields : (record [("a", .series [.imap .belowMinimum, .imap (.nan true false 5)]),
      ("a", .empty)]).Exact :=
    .of_children rfl (List.forall_mem_cons.2 ⟨hspecial,
      List.forall_mem_singleton.2 (.leaf rfl rfl)⟩)
  have hexact : repeatedTag.Exact :=
    .of_children rfl (List.forall_mem_cons.2 ⟨.leaf rfl rfl,
      List.forall_mem_cons.2 ⟨hlabel, List.forall_mem_singleton.2 hfields⟩⟩)
  have hwithin : repeatedTag.isWithin jsonLevels := rfl
  have hshallow : ∀ n w, NestedAt n repeatedTag w → n ≤ maxDepth := fun n w hw =>
    Nat.lt_succ_iff.1 (isWithin_iff.1 hwithin n w hw)
  obtain ⟨hform, -, hread⟩ := survives_tree hexact
  obtain ⟨json, hjson⟩ := hform.2 hshallow
  exact ⟨hexact, json, hjson, (hread json hjson).2.1⟩

end Value

end MotionMetadata
