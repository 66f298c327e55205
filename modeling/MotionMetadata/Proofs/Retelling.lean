import MotionMetadata.Proofs.JsonScalars
import MotionMetadata.Proofs.JsonText

/-!
# Values told and retold

A value has a JSON form if it does not nest too deep, and the form is read back as the value,
with two reservations. What a set remembers of the widths of its entries is not told. And a
double is whatever its numeral is read as: `reread r` is the value with every double changed
by `r`, so that with the identity only the widths are gone.

One induction on the levels does it all. A value is told with a level less for what nests in
it, and the reader gives up one of its steps, one level of values and up to three levels of
arrays and objects for each. A form may be kept as text, in the order that it was told in, or as
a tree whose objects are in the order of their keys, and the induction carries both.
-/

namespace MotionMetadata

/-- A special value with its number changed by `r`. -/
def Imap.reread (r : Binary64 → Binary64) : Imap → Imap
  | .normal x => .normal (r x)
  | other => other

namespace Value

mutual

/-- The value without the widths that its sets remember, every double changed by `r`. -/
def reread (r : Binary64 → Binary64) : Value → Value
  | empty => empty
  | blob bytes => blob bytes
  | uint v => uint v
  | sint v => sint v
  | float x => float (r x)
  | imap v => imap (v.reread r)
  | string text => string text
  | bool b => bool b
  | localSet entries => localSet (rereadLocal r entries)
  | universalSet entries => universalSet (rereadUniversal r entries)
  | series items => series (rereadItems r items)
  | record fields => record (rereadFields r fields)
termination_by structural v => v

def rereadLocal (r : Binary64 → Binary64) : List (Entry Tag Value) → List (Entry Tag Value)
  | [] => []
  | ⟨key, value, _⟩ :: rest => ⟨key, reread r value, none⟩ :: rereadLocal r rest
termination_by structural entries => entries

def rereadUniversal (r : Binary64 → Binary64) :
    List (Entry UniversalKey Value) → List (Entry UniversalKey Value)
  | [] => []
  | ⟨key, value, _⟩ :: rest => ⟨key, reread r value, none⟩ :: rereadUniversal r rest
termination_by structural entries => entries

def rereadItems (r : Binary64 → Binary64) : List Value → List Value
  | [] => []
  | item :: rest => reread r item :: rereadItems r rest
termination_by structural items => items

def rereadFields (r : Binary64 → Binary64) : List (String × Value) → List (String × Value)
  | [] => []
  | (name, value) :: rest => (name, reread r value) :: rereadFields r rest
termination_by structural fields => fields

end

/-- The entry as it is read back: its value is, and its width is forgotten. -/
def rereadEntry {κ : Type} (r : Binary64 → Binary64) (e : Entry κ Value) : Entry κ Value :=
  ⟨e.key, e.value.reread r, none⟩

variable {r : Binary64 → Binary64}

theorem reread_localSet (entries : FieldSet Tag) :
    (localSet entries).reread r = localSet (entries.map (rereadEntry r)) := by
  have hentries : rereadLocal r entries = entries.map (rereadEntry r) := by
    induction entries with
    | nil => rfl
    | cons e rest ih => rw [List.map_cons, ← ih]; rfl
  rw [reread, hentries]

theorem reread_universalSet (entries : FieldSet UniversalKey) :
    (universalSet entries).reread r = universalSet (entries.map (rereadEntry r)) := by
  have hentries : rereadUniversal r entries = entries.map (rereadEntry r) := by
    induction entries with
    | nil => rfl
    | cons e rest ih => rw [List.map_cons, ← ih]; rfl
  rw [reread, hentries]

theorem reread_series (items : List Value) :
    (series items).reread r = series (items.map (reread r)) := by
  have hitems : rereadItems r items = items.map (reread r) := by
    induction items with
    | nil => rfl
    | cons item rest ih => rw [List.map_cons, ← ih]; rfl
  rw [reread, hitems]

theorem reread_record (fields : List (String × Value)) :
    (record fields).reread r = record (fields.map fun f => (f.1, f.2.reread r)) := by
  have hfields : rereadFields r fields = fields.map fun f => (f.1, f.2.reread r) := by
    induction fields with
    | nil => rfl
    | cons f rest ih => rw [List.map_cons, ← ih]; rfl
  rw [reread, hfields]

/-! ## What nests -/

/-- The values that are right inside another. -/
def children : Value → List Value
  | localSet entries => entries.map (·.value)
  | universalSet entries => entries.map (·.value)
  | series items => items
  | record fields => fields.map (·.2)
  | _ => []

/-- Whether a value and what nests in it take up no more than `levels` levels. -/
def isWithin : (levels : Nat) → Value → Bool
  | 0, _ => false
  | levels + 1, value => value.children.all (isWithin levels)

/-- The doubles in a value. -/
inductive HoldsDouble : Value → Binary64 → Prop
  | float (x : Binary64) : HoldsDouble (float x) x
  | imap (x : Binary64) : HoldsDouble (imap (.normal x)) x
  | child {value child : Value} {x : Binary64} (hchild : child ∈ value.children)
      (h : HoldsDouble child x) : HoldsDouble value x

/-- Every double in the value is read back as what `r` makes of it. -/
def RereadsAs (r : Binary64 → Binary64) (value : Value) : Prop :=
  ∀ x, value.HoldsDouble x → (Json.ofBinary64 x).binary64? = some (r x)

theorem RereadsAs.child {value child : Value} (h : value.RereadsAs r)
    (hchild : child ∈ value.children) : child.RereadsAs r :=
  fun x hx => h x (.child hchild hx)

end Value

/-! ## Numbers -/

namespace Json

variable {r : Binary64 → Binary64} {x : Binary64} {levels : Nat}

theorem proper_ofBinary64 (x : Binary64) : (ofBinary64 x).Proper := by
  rw [ofBinary64]
  split
  · exact .number (Numeral.proper_ofBinary64 x)
  · split <;> exact .string _

theorem holds_ofBinary64 (h : (ofBinary64 x).binary64? = some (r x)) (levels : Nat) :
    (ofBinary64 x).holds levels := by
  rw [ofBinary64] at h ⊢
  split
  · next hfinite =>
      rw [if_pos hfinite] at h
      rw [holds]
      exact Option.isSome_of_eq_some h
  · split <;> rw [holds]

theorem proper_ofImap (v : Imap) : (ofImap v).Proper := by
  cases v with
  | normal x =>
      exact .object (List.forall_mem_cons.2 ⟨.string _,
        List.forall_mem_singleton.2 (proper_ofBinary64 x)⟩)
  | nan signaling negative payload =>
      exact .object (List.forall_mem_cons.2 ⟨.string _, List.forall_mem_cons.2 ⟨.bool _,
        List.forall_mem_cons.2 ⟨.bool _,
          List.forall_mem_singleton.2 (.number (Numeral.proper_ofNat _))⟩⟩⟩)
  | belowMinimum => exact .object (List.forall_mem_singleton.2 (.string _))
  | aboveMaximum => exact .object (List.forall_mem_singleton.2 (.string _))
  | userDefined payload =>
      exact .object (List.forall_mem_cons.2 ⟨.string _,
        List.forall_mem_singleton.2 (.number (Numeral.proper_ofNat _))⟩)

/-- The parts of a special value can be taken in before it is known what they should be. -/
theorem holds_ofImap {v : Imap} (hlevels : 0 < levels)
    (hv : ∀ x, v = .normal x → (ofBinary64 x).binary64? = some (r x)) :
    (ofImap v).holds levels := by
  have hpayload : ∀ (payload : UInt64) (k : Nat), (ofNat payload.toNat).holds k := by
    intro payload k
    rw [ofNat, holds]
    exact Numeral.binary64?_ofNat payload.toNat_lt
  cases v with
  | normal x => simp [ofImap, holds, holdsFields, hlevels, holds_ofBinary64 (hv x rfl)]
  | nan signaling negative payload => simp [ofImap, holds, holdsFields, hlevels, hpayload]
  | belowMinimum => simp [ofImap, holds, holdsFields, hlevels]
  | aboveMaximum => simp [ofImap, holds, holdsFields, hlevels]
  | userDefined payload => simp [ofImap, holds, holdsFields, hlevels, hpayload]

/-- However its payload is written, a NaN is read as soon as that is, in either order of its
parts. -/
theorem imap?_nan {json : Json} {payload : UInt64} {signaling negative : Bool} (early : Bool)
    (h : json.asUInt64? = some payload) {fields : List (String × Json)}
    (hfields : fields = [("kind", string "nan"), ("signaling", bool signaling),
        ("negative", bool negative), ("payload", json)] ∨
      fields = [("kind", string "nan"), ("negative", bool negative), ("payload", json),
        ("signaling", bool signaling)])
    (hholds : (object fields).holds levels) :
    (object fields).imap? early levels = some (.nan signaling negative payload) := by
  rcases hfields with rfl | rfl <;>
  · rw [imap?, hholds]
    simp [imapParts?, unique?, namedOrNumbered?, imapOfParts?, record?, asBool?, h]

theorem imap?_userDefined {json : Json} {payload : UInt64} (early : Bool)
    (h : json.asUInt64? = some payload)
    (hholds : (object [("kind", string "user_defined"), ("payload", json)]).holds levels) :
    (object [("kind", string "user_defined"), ("payload", json)]).imap? early levels =
      some (.userDefined payload) := by
  rw [imap?, hholds]
  simp [imapParts?, unique?, namedOrNumbered?, imapOfParts?, record?, h]

theorem imap?_ofImap {v : Imap} (early : Bool) (hlevels : 0 < levels)
    (hv : ∀ x, v = .normal x → (ofBinary64 x).binary64? = some (r x)) :
    (ofImap v).imap? early levels = some (v.reread r) := by
  have hholds := holds_ofImap hlevels hv
  cases v with
  | normal x =>
      rw [imap?, hholds]
      simp [ofImap, imapParts?, unique?, namedOrNumbered?, imapOfParts?, record?, hv x rfl,
        Imap.reread]
  | nan signaling negative payload =>
      exact imap?_nan early (asUInt64?_ofNat payload) (.inl rfl) hholds
  | belowMinimum =>
      rw [imap?, hholds]
      rfl
  | aboveMaximum =>
      rw [imap?, hholds]
      rfl
  | userDefined payload => exact imap?_userDefined early (asUInt64?_ofNat payload) hholds

/-! ## Heights -/

variable {items : List Json} {n : Nat}

theorem heightOfItems_le_iff : heightOfItems items ≤ n ↔ ∀ item ∈ items, item.height ≤ n := by
  induction items with
  | nil => exact iff_of_true (Nat.zero_le n) nofun
  | cons item rest ih => rw [heightOfItems, Nat.max_le, ih, List.forall_mem_cons]

theorem height_lt_array {item : Json} (h : item ∈ items) : item.height < (array items).height :=
  Nat.lt_succ_of_le (heightOfItems_le_iff.1 (Nat.le_refl _) item h)

theorem height_array_le (h : ∀ item ∈ items, item.height ≤ n) : (array items).height ≤ n + 1 :=
  Nat.succ_le_succ (heightOfItems_le_iff.2 h)

@[simp] theorem height_tagged (kind : String) (content : Json) :
    (tagged kind content).height = content.height + 1 := by
  simp [tagged, height, heightOfFields]

/-! ## The order of fields

Where a tree is kept instead of a text, the fields of an object are in the order of their keys.
In the forms of values they nearly always are. -/

theorem sorted_two {first second : String} (h : ¬ second < first) (a b : Json) :
    (object [(first, a), (second, b)]).sorted = object [(first, a.sorted), (second, b.sorted)] := by
  show object (insertField (first, a.sorted) [(second, b.sorted)]) = _
  rw [insertField, if_neg h]

@[simp] theorem sorted_tagged (kind : String) (content : Json) :
    (tagged kind content).sorted = tagged kind content.sorted :=
  sorted_two (by decide) (string kind) content

theorem sorted_array (items : List Json) : (array items).sorted = array (items.map sorted) := by
  have hitems : sortedItems items = items.map sorted := by
    induction items with
    | nil => rfl
    | cons item rest ih => rw [sortedItems, ih, List.map_cons]
  rw [sorted, hitems]

/-- A tree that nests nothing and has no fields to put in order. -/
structure Leaf (json : Json) : Prop where
  height : json.height = 0
  sorted : json.sorted = json

theorem leaf_ofBinary64 (x : Binary64) : (ofBinary64 x).Leaf := by
  rw [ofBinary64]
  split
  · exact ⟨rfl, rfl⟩
  · split <;> exact ⟨rfl, rfl⟩

theorem height_ofImap (v : Imap) : (ofImap v).height = 1 := by
  cases v <;> simp [ofImap, ofNat, height, heightOfFields, (leaf_ofBinary64 _).height]

/-- Only the parts of what is not a number change places. -/
theorem sorted_ofImap (v : Imap) :
    (∃ signaling negative payload, v = .nan signaling negative payload ∧
      (ofImap v).sorted = object [("kind", string "nan"), ("negative", bool negative),
        ("payload", ofNat payload.toNat), ("signaling", bool signaling)]) ∨
    (ofImap v).sorted = ofImap v := by
  cases v with
  | normal x =>
      refine .inr ((sorted_two (by decide) _ _).trans ?_)
      rw [(leaf_ofBinary64 x).sorted]
      rfl
  | nan signaling negative payload =>
      refine .inl ⟨signaling, negative, payload, rfl, ?_⟩
      have hpayload : ¬ "payload" < "negative" := by decide
      have hsignaling : "negative" < "signaling" ∧ "payload" < "signaling" := by decide
      have hkind : ¬ "negative" < "kind" := by decide
      show object (insertField ("kind", string "nan") (insertField ("signaling", bool signaling)
        (insertField ("negative", bool negative) [("payload", ofNat payload.toNat)]))) = _
      simp only [insertField, hpayload, hsignaling, hkind, if_true, if_false]
  | belowMinimum => exact .inr rfl
  | aboveMaximum => exact .inr rfl
  | userDefined payload => exact .inr (sorted_two (by decide) _ _)

theorem height_sorted_ofImap (v : Imap) : (ofImap v).sorted.height = 1 := by
  rcases sorted_ofImap v with ⟨_, _, _, rfl, hsorted⟩ | hsorted
  · rw [hsorted]
    rfl
  · rw [hsorted, height_ofImap]

/-- They are found where they are. -/
theorem imap?_sorted_ofImap {v : Imap} (early : Bool) (hlevels : 0 < levels)
    (hv : ∀ x, v = .normal x → (ofBinary64 x).binary64? = some (r x)) :
    (ofImap v).sorted.imap? early levels = some (v.reread r) := by
  rcases sorted_ofImap v with ⟨signaling, negative, payload, rfl, hsorted⟩ | hsorted
  · rw [hsorted]
    refine imap?_nan early (asUInt64?_ofNat payload) (.inr rfl) ?_
    have hpayload : (ofNat payload.toNat).holds (levels - 1) := by
      rw [ofNat, holds]
      exact Numeral.binary64?_ofNat payload.toNat_lt
    simp [holds, holdsFields, hlevels, hpayload]
  · rw [hsorted]
    exact imap?_ofImap early hlevels hv

end Json

/-! ## One level -/

/-- A traversal that succeeds everywhere answers what its steps do. -/
theorem mapM_eq_pure_map {m : Type → Type} [Monad m] [LawfulMonad m] {α β : Type} {f : α → m β}
    {g : α → β} {items : List α} (h : ∀ a ∈ items, f a = pure (g a)) :
    items.mapM f = pure (items.map g) := by
  induction items with
  | nil => rfl
  | cons a rest ih =>
      obtain ⟨ha, hrest⟩ := List.forall_mem_cons.1 h
      rw [List.mapM_cons, ha, pure_bind, ih hrest, pure_bind, List.map_cons]

namespace Value

variable {r : Binary64 → Binary64}

/-- `json` is the form of a value for which so many levels are enough, and is read back. -/
structure Told (levels : Nat) (value : Value) (json : Json) : Prop where
  told : value.toJsonWithin levels = .ok json
  proper : json.Proper
  retold : ∀ (r : Binary64 → Binary64) (fuel depth room : Nat), value.RereadsAs r →
    levels ≤ fuel → 3 * levels ≤ depth + 1 → levels ≤ room →
      ofJsonWithin fuel false depth room json = some (.ok (value.reread r))

/-- `json` is read back as a value for which so many levels are enough. The reader needs no more
steps and levels than either of them has, and no value has more than three levels of arrays and
objects for each of its own. -/
structure Retold (levels : Nat) (value : Value) (json : Json) : Prop where
  low : json.height < 3 * levels
  retold : ∀ (r : Binary64 → Binary64) (fuel depth room : Nat), value.RereadsAs r →
    min levels json.height ≤ fuel → json.height ≤ depth → levels ≤ room →
      ofJsonWithin fuel false depth room json = some (.ok (value.reread r))

/-- `json` is the form of a value for which so many levels are enough. It is read back in the
order that it was told in, and in the order of its keys. -/
structure Form (levels : Nat) (value : Value) (json : Json) : Prop where
  told : value.toJsonWithin levels = .ok json
  proper : json.Proper
  retold : Retold levels value json
  sorted : Retold levels value json.sorted

theorem Form.toTold {levels : Nat} {value : Value} {json : Json} (h : Form levels value json) :
    Told levels value json where
  told := h.told
  proper := h.proper
  retold r fuel depth room hr hfuel hdepth hroom := by
    have hlow := h.retold.low
    exact h.retold.retold r fuel depth room hr (by omega) (by omega) hroom

/-- A tagged value is read by its kind. -/
theorem ofJsonWithin_tagged {fuel depth room : Nat} (kind : String) (content : Json)
    (hdepth : depth ≠ 0) (hroom : room ≠ 0) :
    ofJsonWithin (fuel + 1) false depth room (.tagged kind content) =
      ofNestingJson? (ofJsonWithin fuel false · (room - 1)) false (depth - 1) kind content := by
  have hparts : (Json.tagged kind content).tagged? false (depth - 1) =
      some ⟨kind, some content, false⟩ := rfl
  rw [ofJsonWithin, if_neg hdepth, hparts]
  show (do
    let value ← ofNestingJson? (ofJsonWithin fuel false · (room - 1)) false (depth - 1) kind content
    return if room = 0 then raise .tooDeep else value) = _
  simp only [if_neg hroom, bind_pure]

theorem proper_tagged {kind : String} {content : Json} (h : content.Proper) :
    (Json.tagged kind content).Proper :=
  .object (List.forall_mem_cons.2 ⟨.string _, List.forall_mem_singleton.2 h⟩)

section Tagged

variable {value : Value} {kind : String} {content : Json} {levels : Nat}

/-- A tagged form is read back if its content is read as the value, by what is left of the steps
and levels of the reader. -/
theorem retold_tagged (hlow : content.height ≤ 3 * levels + 1)
    (hread : ∀ (r : Binary64 → Binary64) (fuel depth room : Nat), value.RereadsAs r →
      min levels content.height ≤ fuel → content.height ≤ depth → levels ≤ room →
        ofNestingJson? (ofJsonWithin fuel false · room) false depth kind content =
          some (.ok (value.reread r))) :
    Retold (levels + 1) value (.tagged kind content) where
  low := by
    rw [Json.height_tagged]
    omega
  retold r fuel depth room hr hfuel hdepth hroom := by
    rw [Json.height_tagged] at hfuel hdepth
    obtain ⟨fuel, rfl⟩ := Nat.exists_eq_succ_of_ne_zero (show fuel ≠ 0 by omega)
    rw [ofJsonWithin_tagged _ _ (by omega) (by omega),
      hread r _ _ _ hr (by omega) (by omega) (by omega)]

theorem form_tagged (htold : value.toJsonWithin (levels + 1) = .ok (.tagged kind content))
    (hproper : content.Proper) (h : Retold (levels + 1) value (.tagged kind content))
    (h' : Retold (levels + 1) value (.tagged kind content.sorted)) :
    Form (levels + 1) value (.tagged kind content) :=
  ⟨htold, proper_tagged hproper, h, Json.sorted_tagged kind content ▸ h'⟩

/-- The form of a value that is a single word or number. -/
theorem form_leaf (htold : value.toJsonWithin (levels + 1) = .ok (.tagged kind content))
    (hproper : content.Proper) (hleaf : content.Leaf)
    (hread : ∀ (r : Binary64 → Binary64) (nested : Nat → Json → Option (Except Error Value))
      (depth : Nat), value.RereadsAs r →
        ofNestingJson? nested false depth kind content = some (.ok (value.reread r))) :
    Form (levels + 1) value (.tagged kind content) := by
  have hretold : Retold (levels + 1) value (.tagged kind content) := by
    refine retold_tagged ?_ fun r fuel depth room hr _ _ _ => hread r _ depth hr
    rw [hleaf.height]
    exact Nat.zero_le _
  exact form_tagged htold hproper hretold (hleaf.sorted.symm ▸ hretold)

end Tagged

/-! ## Values with nothing nested in them -/

theorem form_empty (levels : Nat) :
    Form (levels + 1) empty (.object [("type", .string "empty")]) := by
  have hretold : Retold (levels + 1) empty (.object [("type", .string "empty")]) := by
    have hheight : (Json.object [("type", .string "empty")]).height = 1 := rfl
    refine ⟨by omega, fun r fuel depth room hr hfuel hdepth hroom => ?_⟩
    rw [hheight] at hfuel hdepth
    obtain ⟨fuel, rfl⟩ := Nat.exists_eq_succ_of_ne_zero (show fuel ≠ 0 by omega)
    have hparts : (Json.object [("type", .string "empty")]).tagged? false (depth - 1) =
        some ⟨"empty", none, false⟩ := rfl
    rw [ofJsonWithin, if_neg (by omega), hparts]
    show some (if room = 0 then raise .tooDeep else Except.ok empty) = _
    rw [if_neg (by omega)]
    rfl
  exact ⟨rfl, .object (List.forall_mem_singleton.2 (.string _)), hretold, hretold⟩

theorem ofScalarJson?_blob (early : Bool) (levels : Nat) {text : String} {bytes : Bytes}
    (h : Text.Base64.decode? text = some bytes) :
    ofScalarJson? early levels "blob" (.string text) = some (.ok (blob bytes)) := by
  simp [ofScalarJson?, Json.asString?, h]

theorem form_blob (levels : Nat) (bytes : Bytes) :
    Form (levels + 1) (blob bytes) (.tagged "blob" (.string (Text.Base64.encode bytes))) := by
  refine form_leaf rfl (.string _) ⟨rfl, rfl⟩ fun r nested depth _ => ?_
  exact ofScalarJson?_blob false depth (Text.Base64.decode?_encode bytes)

theorem form_uint (levels : Nat) (v : UInt64) :
    Form (levels + 1) (uint v) (.tagged "uint" (.ofNat v.toNat)) := by
  refine form_leaf rfl (.number (Numeral.proper_ofNat _)) ⟨rfl, rfl⟩ fun r nested depth _ => ?_
  show (do return Except.ok (uint (← (Json.ofNat v.toNat).asUInt64?))) = _
  rw [Json.asUInt64?_ofNat]
  rfl

theorem form_sint (levels : Nat) (v : Int64) :
    Form (levels + 1) (sint v) (.tagged "sint" (.ofInt v.toInt)) := by
  refine form_leaf rfl (.number (Numeral.proper_ofInt _)) ⟨rfl, rfl⟩ fun r nested depth _ => ?_
  show (do return Except.ok (sint (← (Json.ofInt v.toInt).asInt64?))) = _
  rw [Json.asInt64?_ofInt]
  rfl

theorem form_float (levels : Nat) (x : Binary64) :
    Form (levels + 1) (float x) (.tagged "float" (.ofBinary64 x)) := by
  refine form_leaf rfl (Json.proper_ofBinary64 x) (Json.leaf_ofBinary64 x)
    fun r nested depth hr => ?_
  show (do return Except.ok (float (← (Json.ofBinary64 x).binary64?))) = _
  rw [hr x (.float x)]
  rfl

theorem form_imap (levels : Nat) (v : Imap) :
    Form (levels + 1) (imap v) (.tagged "imap" (.ofImap v)) := by
  have hread : ∀ (nested : Nat → Json → Option (Except Error Value)) (depth : Nat) (json : Json)
      (back : Imap), json.imap? false depth = some back →
        ofNestingJson? nested false depth "imap" json = some (.ok (imap back)) := by
    intro nested depth json back hback
    show (do return Except.ok (imap (← json.imap? false depth))) = _
    rw [hback]
    rfl
  have hdouble : ∀ r, (imap v).RereadsAs r → ∀ x, v = .normal x →
      (Json.ofBinary64 x).binary64? = some (r x) := by
    rintro r hr x rfl
    exact hr x (.imap x)
  refine form_tagged rfl (Json.proper_ofImap v)
    (retold_tagged ?_ fun r fuel depth room hr _ hdepth _ => ?_)
    (retold_tagged ?_ fun r fuel depth room hr _ hdepth _ => ?_)
  · rw [Json.height_ofImap]
    omega
  · rw [Json.height_ofImap] at hdepth
    exact hread _ _ _ _ (Json.imap?_ofImap false hdepth (hdouble r hr))
  · rw [Json.height_sorted_ofImap]
    omega
  · rw [Json.height_sorted_ofImap] at hdepth
    exact hread _ _ _ _ (Json.imap?_sorted_ofImap false hdepth (hdouble r hr))

theorem form_string (levels : Nat) (text : String) :
    Form (levels + 1) (string text) (.tagged "string" (.string text)) :=
  form_leaf rfl (.string _) ⟨rfl, rfl⟩ fun _ _ _ _ => rfl

theorem form_bool (levels : Nat) (b : Bool) :
    Form (levels + 1) (bool b) (.tagged "bool" (.bool b)) :=
  form_leaf rfl (.bool _) ⟨rfl, rfl⟩ fun _ _ _ _ => rfl

/-! ## Values that others nest in -/

theorem retold_series {levels : Nat} {items : List Value} {form : Value → Json}
    (h : ∀ item ∈ items, Retold levels item (form item)) :
    Retold (levels + 1) (series items) (.tagged "series" (.array (items.map form))) := by
  refine retold_tagged ?_ fun r fuel depth room hr hfuel hdepth hroom => ?_
  · refine Json.height_array_le (List.forall_mem_map.2 fun item hitem => ?_)
    exact Nat.le_of_lt (h item hitem).low
  · have hheight : ∀ item ∈ items, (form item).height < (Json.array (items.map form)).height :=
      fun item hitem => Json.height_lt_array (List.mem_map_of_mem hitem)
    have hitems : (items.map form).mapM (ofJsonWithin fuel false (depth - 1) room) =
        some (items.map fun item => .ok (item.reread r)) := by
      rw [List.mapM_map]
      refine mapM_eq_pure_map fun item hitem => ?_
      have hlow := hheight item hitem
      exact (h item hitem).retold r fuel _ room (hr.child hitem) (by omega) (by omega) hroom
    have hseries : seriesOf (items.map fun item => .ok (item.reread r)) =
        .ok ((series items).reread r) := by
      have hall : (items.map fun item => Except.ok (item.reread r)).mapM id =
          (Except.ok (items.map (reread r)) : Except Error (List Value)) := by
        rw [List.mapM_map]
        exact mapM_eq_pure_map fun _ _ => rfl
      rw [seriesOf, hall, reread_series]
      rfl
    have hpos : 0 < depth := Nat.lt_of_lt_of_le (Nat.succ_pos _) hdepth
    show (do
      let items ← Json.items? depth (.array (items.map form))
      return seriesOf (← items.mapM (ofJsonWithin fuel false (depth - 1) room))) = _
    rw [Json.items?, if_pos hpos]
    show (do
      return seriesOf (← (items.map form).mapM (ofJsonWithin fuel false (depth - 1) room))) = _
    rw [hitems, ← hseries]
    rfl

theorem form_series {levels : Nat} {items : List Value} {form : Value → Json}
    (h : ∀ item ∈ items, Form levels item (form item)) :
    Form (levels + 1) (series items) (.tagged "series" (.array (items.map form))) := by
  refine form_tagged ?_ (.array ?_) (retold_series fun item hitem => (h item hitem).retold) ?_
  · show (do return Json.tagged "series" (.array (← items.mapM (toJsonWithin levels)))) = _
    rw [mapM_eq_pure_map fun item hitem => (h item hitem).told]
    rfl
  · rintro json hjson
    obtain ⟨item, hitem, rfl⟩ := List.mem_map.1 hjson
    exact (h item hitem).proper
  · rw [Json.sorted_array, List.map_map]
    exact retold_series fun item hitem => (h item hitem).sorted

/-! ### Rows of pairs

The form of a set or a record is a row of pairs, each of something that names a value and of
the form of the value. -/

section Pairs

variable {α β : Type} {items : List α} {child : α → Value} {levels : Nat}
variable {first second kind : String} {labelOf form : α → Json} {label : Json → Option β}

/-- A pair of that kind. -/
def pairOf (first second : String) (label form : Json) : Json :=
  .object [(first, label), (second, form)]

theorem height_pairOf {label form : Json} (hlabel : label.Leaf) :
    (pairOf first second label form).height = form.height + 1 := by
  simp [pairOf, Json.height, Json.heightOfFields, hlabel.height]

theorem sorted_pairOf {label form : Json} (hlabel : label.Leaf) (horder : ¬ second < first) :
    (pairOf first second label form).sorted = pairOf first second label form.sorted := by
  rw [pairOf, Json.sorted_two horder, hlabel.sorted, pairOf]

/-- What nests is told with a level less. -/
theorem mapM_told (h : ∀ a ∈ items, (child a).toJsonWithin levels = .ok (form a)) :
    (items.mapM fun a => do
      return pairOf first second (labelOf a) (← toJsonWithin levels (child a))) =
        Except.ok (items.map fun a => pairOf first second (labelOf a) (form a)) := by
  refine mapM_eq_pure_map fun a ha => ?_
  rw [h a ha]
  rfl

theorem proper_pairs (hlabel : ∀ a ∈ items, (labelOf a).Proper)
    (h : ∀ a ∈ items, (form a).Proper) :
    (Json.array (items.map fun a => pairOf first second (labelOf a) (form a))).Proper := by
  refine .array fun json hjson => ?_
  obtain ⟨a, ha, rfl⟩ := List.mem_map.1 hjson
  exact .object (List.forall_mem_cons.2 ⟨hlabel a ha, List.forall_mem_singleton.2 (h a ha)⟩)

/-- The parts of the pairs, where a level is left for the row and one for its pairs. -/
theorem pairs?_map (hne : first ≠ second) {depth : Nat} (hdepth : 0 < depth)
    (hpairs : items ≠ [] → 1 < depth) :
    (Json.array (items.map fun a => pairOf first second (labelOf a) (form a))).pairs?
      depth first second = some (items.map fun a => (labelOf a, form a)) := by
  have hpair : ∀ a ∈ items, (pairOf first second (labelOf a) (form a)).pair?
      (depth - 1) first second = some (labelOf a, form a) := by
    intro a ha
    have hlevel := hpairs (List.ne_nil_of_mem ha)
    rw [Json.pair?, if_neg (by omega)]
    simp [pairOf, Json.record?, Json.unique?, hne, hne.symm]
  rw [Json.pairs?, Json.items?, if_pos hdepth]
  show (items.map _).mapM _ = _
  rw [List.mapM_map]
  exact mapM_eq_pure_map hpair

/-- How a row of pairs stands for a value: by the names that its labels are read as, and by
putting the values that nest in it together. -/
structure Row (value : Value) (kind first second : String) (items : List α) (child : α → Value)
    (labelOf : α → Json) (label : Json → Option β) (name : α → β)
    (gather : List (β × Except Error Value) → Except Error Value) : Prop where
  order : first ≠ second ∧ ¬ second < first
  nests : ∀ a ∈ items, child a ∈ value.children
  labels : ∀ a ∈ items, (labelOf a).Proper ∧ (labelOf a).Leaf ∧ label (labelOf a) = some (name a)
  telling : ∀ levels, value.toJsonWithin (levels + 1) = do
    let pairs ← items.mapM fun a => do
      return pairOf first second (labelOf a) (← toJsonWithin levels (child a))
    return .tagged kind (.array pairs)
  reading : ∀ nested depth content, ofNestingJson? nested false depth kind content = do
    return gather (← (← content.pairs? depth first second).mapM fun (text, value) => do
      return (← label text, ← nested (depth - 2) value))
  gathering : ∀ r, gather (items.map fun a => (name a, .ok ((child a).reread r))) =
    .ok (value.reread r)

namespace Row

variable {value : Value} {name : α → β}
  {gather : List (β × Except Error Value) → Except Error Value}
  (row : Row value kind first second items child labelOf label name gather)
include row

theorem toRetold (h : ∀ a ∈ items, Retold levels (child a) (form a)) :
    Retold (levels + 1) value (.tagged kind
      (.array (items.map fun a => pairOf first second (labelOf a) (form a)))) := by
  have hheight : ∀ a ∈ items, (pairOf first second (labelOf a) (form a)).height =
      (form a).height + 1 := fun a ha => height_pairOf (row.labels a ha).2.1
  refine retold_tagged ?_ fun r fuel depth room hr hfuel hdepth hroom => ?_
  · refine Json.height_array_le (List.forall_mem_map.2 fun a ha => ?_)
    rw [hheight a ha]
    exact (h a ha).low
  · have hlow : ∀ a ∈ items, (form a).height + 1 <
        (Json.array (items.map fun a => pairOf first second (labelOf a) (form a))).height :=
      fun a ha => hheight a ha ▸ Json.height_lt_array (List.mem_map_of_mem ha)
    have hpos : 0 < depth := Nat.lt_of_lt_of_le (Nat.succ_pos _) hdepth
    have hlevel : items ≠ [] → 1 < depth := by
      intro hitems
      obtain ⟨a, ha⟩ := List.exists_mem_of_ne_nil _ hitems
      have := hlow a ha
      omega
    have hpairs : ((items.map fun a => (labelOf a, form a)).mapM fun (text, value) => do
        return (← label text, ← ofJsonWithin fuel false (depth - 2) room value)) =
          some (items.map fun a => (name a, Except.ok ((child a).reread r))) := by
      rw [List.mapM_map]
      refine mapM_eq_pure_map fun a ha => ?_
      show (do return (← label (labelOf a),
        ← ofJsonWithin fuel false (depth - 2) room (form a))) = _
      have := hlow a ha
      rw [(row.labels a ha).2.2, (h a ha).retold r fuel _ room (hr.child (row.nests a ha))
        (by omega) (by omega) hroom]
      rfl
    rw [row.reading, pairs?_map row.order.1 hpos hlevel]
    show (do
      return gather (← (items.map fun a => (labelOf a, form a)).mapM fun (text, value) => do
        return (← label text, ← ofJsonWithin fuel false (depth - 2) room value))) = _
    rw [hpairs, ← row.gathering]
    rfl

theorem toForm (h : ∀ a ∈ items, Form levels (child a) (form a)) :
    Form (levels + 1) value (.tagged kind
      (.array (items.map fun a => pairOf first second (labelOf a) (form a)))) := by
  refine form_tagged ?_ (proper_pairs (fun a ha => (row.labels a ha).1) fun a ha => (h a ha).proper)
    (row.toRetold fun a ha => (h a ha).retold) ?_
  · rw [row.telling, mapM_told fun a ha => (h a ha).told]
    rfl
  · have hsorted : (items.map fun a => pairOf first second (labelOf a) (form a)).map Json.sorted =
        items.map fun a => pairOf first second (labelOf a) (form a).sorted := by
      rw [List.map_map]
      exact List.map_congr_left fun a ha => sorted_pairOf (row.labels a ha).2.1 row.order.2
    rw [Json.sorted_array, hsorted]
    exact row.toRetold fun a ha => (h a ha).sorted

end Row

end Pairs

theorem form_localSet {levels : Nat} {entries : FieldSet Tag} {form : Entry Tag Value → Json}
    (h : ∀ e ∈ entries, Form levels e.value (form e)) :
    Form (levels + 1) (localSet entries) (.tagged "local_set" (.array
      (entries.map fun e => pairOf "tag" "value" (.ofNat e.key.toNat) (form e)))) := by
  have row : Row (localSet entries) "local_set" "tag" "value" entries (·.value)
      (fun e => .ofNat e.key.toNat) Json.asUInt64? (·.key) localSetOf := by
    refine ⟨by decide, fun e he => List.mem_map_of_mem he, fun e _ =>
      ⟨.number (Numeral.proper_ofNat _), ⟨rfl, rfl⟩, Json.asUInt64?_ofNat e.key⟩,
      fun _ => rfl, fun _ _ _ => rfl, fun r => ?_⟩
    have hall : (entries.map fun e => (e.key, Except.ok (e.value.reread r))).mapM
        (fun (pair : Tag × Except Error Value) => do return ⟨pair.1, ← pair.2, none⟩) =
          (Except.ok (entries.map (rereadEntry r)) : Except Error (FieldSet Tag)) := by
      rw [List.mapM_map]
      exact mapM_eq_pure_map fun _ _ => rfl
    rw [reread_localSet]
    show (do return localSet (← List.mapM _ _)) = _
    rw [hall]
    rfl
  exact row.toForm h

theorem form_universalSet {levels : Nat} {entries : FieldSet UniversalKey}
    {form : Entry UniversalKey Value → Json}
    (h : ∀ e ∈ entries, Form levels e.value (form e)) :
    Form (levels + 1) (universalSet entries) (.tagged "universal_set" (.array
      (entries.map fun e => pairOf "key" "value" (.string e.key.display) (form e)))) := by
  have row : Row (universalSet entries) "universal_set" "key" "value" entries (·.value)
      (fun e => .string e.key.display) Json.asString? (·.key.display) universalSetOf := by
    refine ⟨by decide, fun e he => List.mem_map_of_mem he, fun e _ =>
      ⟨.string _, ⟨rfl, rfl⟩, rfl⟩, fun _ => rfl, fun _ _ _ => rfl, fun r => ?_⟩
    have hall : (entries.map fun e => (e.key.display, Except.ok (e.value.reread r))).mapM
        (fun (pair : String × Except Error Value) => do
          let key ← UniversalKey.parse pair.1
          return ⟨key, ← pair.2, none⟩) =
          (Except.ok (entries.map (rereadEntry r)) : Except Error (FieldSet UniversalKey)) := by
      rw [List.mapM_map]
      refine mapM_eq_pure_map fun e _ => ?_
      show (do
        let key ← UniversalKey.parse e.key.display
        return (⟨key, e.value.reread r, none⟩ : Entry UniversalKey Value)) = _
      rw [UniversalKey.parse_display]
      rfl
    rw [reread_universalSet]
    show (do return universalSet (← List.mapM _ _)) = _
    rw [hall]
    rfl
  exact row.toForm h

theorem form_record {levels : Nat} {fields : List (String × Value)} {form : String × Value → Json}
    (h : ∀ f ∈ fields, Form levels f.2 (form f)) :
    Form (levels + 1) (record fields) (.tagged "record" (.array
      (fields.map fun f => pairOf "name" "value" (.string f.1) (form f)))) := by
  have row : Row (record fields) "record" "name" "value" fields (·.2)
      (fun f => .string f.1) Json.asString? (·.1) recordOf := by
    refine ⟨by decide, fun f hf => List.mem_map_of_mem hf, fun f _ =>
      ⟨.string _, ⟨rfl, rfl⟩, rfl⟩, fun _ => rfl, fun _ _ _ => rfl, fun r => ?_⟩
    have hall : (fields.map fun f => (f.1, Except.ok (f.2.reread r))).mapM
        (fun (pair : String × Except Error Value) => do return (pair.1, ← pair.2)) =
          (Except.ok (fields.map fun f => (f.1, f.2.reread r)) :
            Except Error (List (String × Value))) := by
      rw [List.mapM_map]
      exact mapM_eq_pure_map fun _ _ => rfl
    rw [reread_record]
    show (do return record (← List.mapM _ _)) = _
    rw [hall]
    rfl
  exact row.toForm h

/-! ## All levels -/

/-- A value for which there are levels enough has a form. -/
theorem exists_form {levels : Nat} {value : Value} (h : value.isWithin levels) :
    ∃ json, Form levels value json := by
  induction levels generalizing value with
  | zero => exact nomatch h
  | succ levels ih =>
      have hchildren : ∀ child : Value, ∃ json,
          child ∈ value.children → Form levels child json := by
        intro child
        by_cases hmem : child ∈ value.children
        · rw [isWithin, List.all_eq_true] at h
          obtain ⟨json, hjson⟩ := ih (h child hmem)
          exact ⟨json, fun _ => hjson⟩
        · exact ⟨.null, fun hmem' => absurd hmem' hmem⟩
      choose form hform using hchildren
      cases value with
      | empty => exact ⟨_, form_empty levels⟩
      | blob bytes => exact ⟨_, form_blob levels bytes⟩
      | uint v => exact ⟨_, form_uint levels v⟩
      | sint v => exact ⟨_, form_sint levels v⟩
      | float x => exact ⟨_, form_float levels x⟩
      | imap v => exact ⟨_, form_imap levels v⟩
      | string text => exact ⟨_, form_string levels text⟩
      | bool b => exact ⟨_, form_bool levels b⟩
      | localSet entries =>
          exact ⟨_, form_localSet fun e he => hform e.value (List.mem_map_of_mem he)⟩
      | universalSet entries =>
          exact ⟨_, form_universalSet fun e he => hform e.value (List.mem_map_of_mem he)⟩
      | series items => exact ⟨_, form_series fun item hitem => hform item hitem⟩
      | record fields =>
          exact ⟨_, form_record fun f hf => hform f.2 (List.mem_map_of_mem hf)⟩

theorem exists_told {levels : Nat} {value : Value} (h : value.isWithin levels) :
    ∃ json, Told levels value json := by
  obtain ⟨json, hform⟩ := exists_form h
  exact ⟨json, hform.toTold⟩

/-- A traversal one of whose steps goes too deep, and none of which fails otherwise. -/
theorem mapM_tooDeep {α β : Type} {f : α → Except Error β} {items : List α} {a : α}
    (hf : ∀ a ∈ items, f a = raise .tooDeep ∨ ∃ b, f a = .ok b) (ha : a ∈ items)
    (hdeep : f a = raise .tooDeep) : items.mapM f = raise .tooDeep := by
  induction items with
  | nil => exact absurd ha List.not_mem_nil
  | cons first rest ih =>
      obtain ⟨hfirst, hrest⟩ := List.forall_mem_cons.1 hf
      rw [List.mapM_cons]
      rcases hfirst with hfirst | ⟨b, hfirst⟩
      · rw [hfirst]
        rfl
      · rcases List.mem_cons.1 ha with rfl | ha
        · rw [hfirst] at hdeep
          cases hdeep
        · rw [hfirst, ih hrest ha]
          rfl

/-- A value that nests deeper has none. -/
theorem toJsonWithin_tooDeep {levels : Nat} {value : Value} (h : value.isWithin levels = false) :
    value.toJsonWithin levels = raise .tooDeep := by
  induction levels generalizing value with
  | zero => rfl
  | succ levels ih =>
      have heither : ∀ child : Value, child.toJsonWithin levels = raise .tooDeep ∨
          ∃ json, child.toJsonWithin levels = .ok json := by
        intro child
        cases hchild : child.isWithin levels with
        | false => exact .inl (ih hchild)
        | true =>
            obtain ⟨json, hjson⟩ := exists_told hchild
            exact .inr ⟨json, hjson.told⟩
      rw [isWithin, List.all_eq_false] at h
      obtain ⟨child, hmem, hchild⟩ := h
      have hdeep := ih (Bool.eq_false_iff.2 hchild)
      have hrow : ∀ {α : Type} {items : List α} (part : α → Value) (wrap : α → Json → Json)
          (close : List Json → Except Error Json), child ∈ items.map part →
            (items.mapM (fun a => do return wrap a (← (part a).toJsonWithin levels)) >>= close) =
              raise .tooDeep := by
        intro α items part wrap close hmem
        obtain ⟨a, ha, rfl⟩ := List.mem_map.1 hmem
        rw [mapM_tooDeep (fun a _ => ?_) ha (by rw [hdeep]; rfl)]
        · rfl
        · rcases heither (part a) with hpart | ⟨json, hpart⟩
          · exact .inl (by rw [hpart]; rfl)
          · exact .inr ⟨wrap a json, by rw [hpart]; rfl⟩
      cases value with
      | localSet entries =>
          exact hrow _ (fun (e : Entry Tag Value) => pairOf "tag" "value" (.ofNat e.key.toNat)) _
            hmem
      | universalSet entries =>
          exact hrow _ (fun (e : Entry UniversalKey Value) =>
            pairOf "key" "value" (.string e.key.display)) _ hmem
      | series items =>
          have hitems : items.mapM (toJsonWithin levels) = raise .tooDeep :=
            mapM_tooDeep (fun item _ => heither item) hmem hdeep
          show (do return Json.tagged "series" (.array (← items.mapM (toJsonWithin levels)))) = _
          rw [hitems]
          rfl
      | record fields =>
          exact hrow _ (fun (f : String × Value) => pairOf "name" "value" (.string f.1)) _ hmem
      | _ => exact absurd hmem List.not_mem_nil

end Value

end MotionMetadata
