import MotionMetadata.Proofs.ArrayPacks
import MotionMetadata.Proofs.Forwarding
import MotionMetadata.Proofs.Retelling

/-!
# Values with nothing to forget

A value without parts that was read has no sets in it, and so it is its own retelling. What
readers answer is put together from numbers, texts and bytes, and the records and series of
them; of the arrays it is known already what they hold.
-/

namespace MotionMetadata

namespace Value

/-- The value is its own retelling: no set in it remembers a width. -/
def Lasts (v : Value) : Prop := v.reread id = v

variable {v : Value}

theorem lasts_empty : empty.Lasts := rfl

theorem lasts_uint (n : UInt64) : (uint n).Lasts := rfl

theorem lasts_float (x : Binary64) : (float x).Lasts := rfl

theorem lasts_bool (b : Bool) : (bool b).Lasts := rfl

theorem lasts_string (text : String) : (string text).Lasts := rfl

theorem lasts_ofImap (x : Imap) : (ofImap x).Lasts := by
  cases x <;> rfl

theorem lasts_of_asImap? {x : Imap} (h : v.asImap? = some x) : v.Lasts := by
  cases v with
  | imap x => cases x <;> rfl
  | float x => rfl
  | _ => cases h

theorem lasts_series {items : List Value} (h : ∀ item ∈ items, item.Lasts) :
    (series items).Lasts := by
  rw [Lasts, reread_series, List.map_congr_left (g := id) h, List.map_id]

/-- Fields of values with nothing to forget. -/
def FieldsLast (fields : List (String × Value)) : Prop := ∀ f ∈ fields, f.2.Lasts

variable {fields : List (String × Value)}

theorem FieldsLast.nil : FieldsLast [] := nofun

theorem FieldsLast.cons {name : String} (hv : v.Lasts) (hfields : FieldsLast fields) :
    FieldsLast ((name, v) :: fields) :=
  List.forall_mem_cons.2 ⟨hv, hfields⟩

theorem FieldsLast.append {more : List (String × Value)} (hfields : FieldsLast fields)
    (hmore : FieldsLast more) : FieldsLast (fields ++ more) :=
  fun f hf => (List.mem_append.1 hf).elim (hfields f) (hmore f)

theorem FieldsLast.record (h : FieldsLast fields) : (record fields).Lasts := by
  have hfields : (fields.map fun f => (f.1, f.2.reread id)) = fields := by
    rw [List.map_congr_left (g := id) fun f hf => by rw [h f hf]; rfl, List.map_id]
  rw [Lasts, reread_record, hfields]

theorem Named.fieldsLast {ι : Type} {name : ι → String} {P : ι → Value → Prop} {items : List ι}
    (h : Named name P items fields) (hP : ∀ i v, P i v → v.Lasts) : FieldsLast fields := by
  induction h with
  | nil => exact .nil
  | cons hv _ ih => exact .cons (hP _ _ hv) ih

end Value

open Value

/-! ### Packs -/

namespace Grid

theorem lasts_toValue {g : Grid} (h : ∀ e ∈ g.elements, e.Lasts) : g.toValue.Lasts := by
  have hsizes : (series (g.sizes.map natValue)).Lasts := by
    refine lasts_series fun size hsize => ?_
    obtain ⟨n, _, rfl⟩ := List.mem_map.1 hsize
    rfl
  refine (FieldsLast.append (.append (.cons hsizes (.cons (lasts_uint _) (.cons (lasts_uint _)
    (.cons (lasts_uint _) .nil)))) ?_) (.cons (lasts_series h) .nil)).record
  split
  · exact .cons (lasts_float _) (.cons (lasts_float _) .nil)
  · exact .nil

theorem lasts_of_holds {element : GridElement} {width : Nat} {v : Value}
    (h : element.Holds width v) : v.Lasts := by
  cases element with
  | uint => obtain ⟨n, rfl, -⟩ := h; rfl
  | sint => obtain ⟨n, rfl, -⟩ := h; rfl
  | float => obtain ⟨x, rfl, -⟩ := h; rfl
  | imap low high => obtain ⟨x, hx, -⟩ := h.room; exact lasts_of_asImap? hx
  | bool => obtain ⟨-, b, rfl⟩ := h; rfl

theorem Readable.lasts {element : GridElement} {g : Grid} (h : Readable element g) :
    g.toValue.Lasts := by
  refine lasts_toValue fun e he => ?_
  have hcontent := h.content
  cases hprocessing : g.processing with
  | natural =>
      rw [hprocessing] at hcontent
      exact lasts_of_holds (hcontent e he)
  | runs =>
      rw [hprocessing] at hcontent
      exact lasts_of_holds (hcontent e he)
  | scaled =>
      rw [hprocessing] at hcontent
      obtain ⟨low, high, -, -, -, hscaled⟩ := hcontent
      obtain ⟨x, hx, -⟩ := (hscaled e he).room
      exact lasts_of_asImap? hx
  | biased =>
      rw [hprocessing] at hcontent
      obtain ⟨bias, hbiased⟩ := hcontent
      obtain ⟨n, rfl, -⟩ := hbiased e he
      rfl
  | boolean =>
      rw [hprocessing] at hcontent
      obtain ⟨b, rfl⟩ := hcontent e he
      rfl

end Grid

theorem RowArray.Readable.lasts {a : RowArray} {g : Grid} (h : a.Readable g) :
    g.toValue.Lasts := by
  obtain ⟨columns, -, hscaled⟩ := h.scaled
  refine Grid.lasts_toValue fun e he => ?_
  obtain ⟨i, hi⟩ := List.mem_iff_getElem?.1 he
  obtain ⟨x, hx, -⟩ := (hscaled (e, i) (List.mk_mem_zipIdx_iff_getElem?.2 hi)).room
  exact lasts_of_asImap? hx

theorem Correlation.read_lasts (preceding : List Tag) :
    (Correlation.read preceding).Yields fun c => c.toValue.Lasts := by
  rw [read_eq]
  refine .after fun start => .after fun n => ?_
  dsimp only
  refine .require fun _ => .after fun start => .after fun control => .after fun stop => ?_
  refine .require fun _ => .refuse fun _ => ?_
  generalize ofControl _ _ _ = c
  rw [readValues]
  have hsigma : (c.readSigma n.toNat).Yields fun sigma => ∀ s ∈ sigma, s.Lasts := by
    rw [readSigma]
    refine .ite (fun _ => ?_) fun _ => .pure (List.forall_mem_nil _)
    exact (Reader.Yields.times (.map ((Reader.Yields.any _).imp fun x _ => lasts_float x)) _).imp
      fun _ h => h.2
  have hone : (readCoefficient c.rhoScaled c.rhoLength).Yields Lasts := by
    rw [readCoefficient]
    exact .ite (fun _ => .after fun x => .pure (lasts_ofImap x)) fun _ =>
      .after fun x => .pure (lasts_float x)
  have hrho : ∀ present, (c.readRho present).Yields fun rho => ∀ r ∈ rho, r.Lasts := by
    intro present
    rw [readRho]
    refine .ite (fun _ => ?_) fun _ => .pure (List.forall_mem_nil _)
    refine (readCoefficients_yields hone present).imp fun rho hrho r hr => ?_
    rcases hrho.2 r hr with hlasts | ⟨rfl, -⟩
    · exact hlasts
    · exact lasts_float _
  refine .after fun present => hsigma.bind fun sigma hsigma => (hrho present).bind fun rho hrho =>
    .pure ?_
  have hmembers : (series (c.members.map uint)).Lasts := by
    refine lasts_series fun member hmember => ?_
    obtain ⟨tag, _, rfl⟩ := List.mem_map.1 hmember
    rfl
  exact (FieldsLast.cons hmembers (.cons (lasts_series hsigma) (.cons (lasts_series hrho)
    (.cons (lasts_uint _) (.cons (lasts_uint _) (.cons (lasts_bool _) (.cons (lasts_bool _)
      (.cons (lasts_bool _) (.cons (lasts_bool _) .nil))))))))).record

theorem Position.read_lasts (p : Position) : p.read.Yields Lasts := by
  have hscaled : ∀ {fields values}, ScaledField.Read fields values → FieldsLast values :=
    fun h => h.fieldsLast fun _ _ hv => have ⟨_, hx, _⟩ := hv.room; lasts_of_asImap? hx
  have htriple : ∀ fields, (readTriple fields).Yields Lasts := fun fields =>
    (readTriple_yields fields).imp fun triple htriple => by
      rcases htriple with rfl | ⟨values, rfl, hvalues⟩
      · rfl
      · exact (hscaled hvalues).record
  rw [read]
  refine (ScaledField.readAll_yields _).bind fun first hfirst => ?_
  refine (htriple _).bind fun deviations hdeviations => ?_
  refine (htriple _).bind fun correlations hcorrelations => .pure ?_
  exact ((hscaled hfirst).append (.cons hdeviations (.cons hcorrelations .nil))).record

theorem Identity.read_lasts : Identity.read.Yields Lasts := by
  rw [read]
  refine .after fun version => .after fun usage => ?_
  refine (readIds_yields _).bind fun ids hids => .pure ?_
  have hids : FieldsLast ids := hids.fieldsLast fun item v hv => by
    rw [Holds] at hv
    split at hv
    · obtain ⟨bytes, rfl, -⟩ := hv
      rfl
    · rw [hv]
      rfl
  exact (FieldsLast.append (.cons (lasts_uint _) (.cons (lasts_uint _) (.cons (lasts_uint _) .nil)))
    hids).record

theorem WindowCorners.read_lasts : WindowCorners.read.Yields Lasts := by
  refine (readCorners_yields _).bind fun fields hfields => .pure ?_
  exact (hfields.fieldsLast fun _ v ⟨n, hn, _⟩ => hn ▸ lasts_uint n).record

theorem MetricImplementer.read_lasts (length : Nat) :
    (MetricImplementer.read length).Yields Lasts := by
  rw [read]
  refine .after fun start => .after fun bytes => ?_
  cases Text.Utf8.decode bytes with
  | error f => exact .raiseAt _ _
  | ok text =>
      refine .pure ?_
      cases (split text.toList).2 with
      | none => exact (FieldsLast.cons (lasts_string _) (.cons lasts_empty .nil)).record
      | some chars => exact (FieldsLast.cons (lasts_string _) (.cons (lasts_string _) .nil)).record

theorem RangeSection.read_lasts : RangeSection.read.Yields Lasts := by
  have hindex : ∀ n, n ≠ 0 → (index.read n).Yields Lasts := fun n _ =>
    .after fun v => .pure (lasts_uint v)
  have harray : ∀ n, n ≠ 0 → (array.read n).Yields Lasts := fun n _ =>
    (Grid.read_yields .float n).bind fun g hg => .pure hg.lasts
  rw [read]
  refine (readPart_yields lasts_empty hindex).bind fun x hx => ?_
  refine (readPart_yields lasts_empty hindex).bind fun y hy => ?_
  refine (readPart_yields lasts_empty harray).bind fun measurements hmeasurements => ?_
  refine (readPartIfAny_yields lasts_empty harray).bind fun uncertainty huncertainty => ?_
  refine (readCoefficients_yields _).bind fun plane hplane => .pure ?_
  have hplane : FieldsLast plane := hplane.fieldsLast fun _ v hv => by
    rcases hv with rfl | ⟨x, rfl⟩ <;> rfl
  exact (FieldsLast.append (.cons hx (.cons hy (.cons hmeasurements (.cons huncertainty .nil))))
    hplane).record

/-- A field without parts has nothing to forget. -/
theorem PlainFormat.readField_lasts (f : PlainFormat) (n : Nat) :
    (f.codec.readField n).Yields Lasts := by
  refine Codec.readField_yields rfl (fun _ => rfl) fun _ _ => ?_
  cases f with
  | blob c => exact .after fun bytes => .pure rfl
  | uint c => exact .after fun v => .pure (lasts_uint v)
  | sint c => exact .after fun v => .pure rfl
  | berOid => exact .after fun v => .pure (lasts_uint v)
  | enumeration name c names => exact .after fun v => .pure (lasts_uint v)
  | bool => exact .after fun b => .pure (lasts_bool b)
  | float c => exact .after fun x => .pure (lasts_float x)
  | imap low high c => exact .after fun x => .pure (lasts_ofImap x)
  | linear signed low high c =>
      exact .ite (fun _ => .after fun x => .pure (lasts_float x)) fun _ =>
        .after fun x => .pure (lasts_float x)
  | text encoding characters c =>
      refine .after fun start => .after fun bytes => .ite (fun _ => .pure (lasts_string _))
        fun _ => ?_
      split
      · exact .pure (lasts_string _)
      · exact .throw _
  | grid element => exact (Grid.read_yields element n).bind fun g hg => .pure hg.lasts
  | rowArray a =>
      refine (a.read_yields n).imp fun v hv => ?_
      obtain ⟨g, rfl, hg⟩ := hv
      exact hg.lasts
  | correlation preceding => exact (Correlation.read_lasts preceding).bind fun c hc => .pure hc
  | position p => exact p.read_lasts
  | identity => exact Identity.read_lasts
  | metricPeriod =>
      exact .after fun timestamp => .after fun offset =>
        .pure (FieldsLast.cons (lasts_uint _) (.cons (lasts_uint _) .nil)).record
  | windowCorners => exact WindowCorners.read_lasts
  | metricImplementer => exact MetricImplementer.read_lasts n
  | rangeEnumerations =>
      exact .after fun bits => .pure (FieldsLast.cons (lasts_uint _) (.cons (lasts_uint _)
        (.cons (lasts_uint _) .nil))).record
  | rangeSection => exact RangeSection.read_lasts
  | userData =>
      exact .after fun b =>
        .pure (FieldsLast.cons (lasts_uint _) (.cons (lasts_uint _) .nil)).record
  | detectorIndex =>
      exact .after fun row => .after fun column =>
        .pure (FieldsLast.cons (lasts_uint _) (.cons (lasts_uint _) .nil)).record

end MotionMetadata
