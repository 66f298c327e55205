import MotionMetadata.Json.Parser
import MotionMetadata.Json.Printer
import MotionMetadata.Proofs.Numerals

/-!
# A tree is read back from its text

The text of a tree on many lines is read as that tree. Three things have to hold for this. A
string ends at the quote that closes it and not before, since every quote inside is escaped;
a numeral ends where its text does, since only a comma, a bracket or a line break comes after
it; and the steps of the reader, which the number of characters bounds, are enough. Every
level of nesting costs two steps and brings at least two brackets.
-/

namespace MotionMetadata.Json

/-! ## Strings -/

/-- What one character of a text is written as, and is found to be. -/
def pieceOf (c : Char) : Piece :=
  if c.toNat < 32 ∧ c ≠ '\n' ∧ c ≠ '\r' ∧ c ≠ '\t' ∧ c.toNat ≠ 8 ∧ c.toNat ≠ 12 then
    .unit c.toNat
  else .char c

theorem unit?_hexDigit : ∀ n < 32,
    unit? '0' '0' (Text.hexDigit (n / 16)) (Text.hexDigit (n % 16)) = some n := by
  decide

/-- A character that is written as a backslash and a letter. -/
theorem readPieces?_letter {c d : Char} (hd : d ≠ 'u') (h : escaped? d = some c)
    (hc : pieceOf c = .char c) (rest : List Char) :
    readPieces? (['\\', d] ++ rest) =
      (readPieces? rest).map fun r => (pieceOf c :: r.1, r.2) := by
  rw [hc, List.cons_append, List.cons_append, List.nil_append, readPieces?, h]
  · cases readPieces? rest <;> rfl
  · exact fun _ _ _ _ _ hu _ => hd hu

/-- A character is found as one piece, however it is written. -/
theorem readPieces?_escapedChar (c : Char) (rest : List Char) :
    readPieces? (escapedChar c ++ rest) =
      (readPieces? rest).map fun r => (pieceOf c :: r.1, r.2) := by
  unfold escapedChar
  split
  · next h => subst h; exact readPieces?_letter (by decide) rfl rfl rest
  split
  · next h => subst h; exact readPieces?_letter (by decide) rfl rfl rest
  split
  · next h => subst h; exact readPieces?_letter (by decide) rfl rfl rest
  split
  · next h => subst h; exact readPieces?_letter (by decide) rfl rfl rest
  split
  · next h => subst h; exact readPieces?_letter (by decide) rfl rfl rest
  split
  · next h =>
      obtain rfl : Char.ofNat 8 = c := by rw [← h, Char.ofNat_toNat]
      exact readPieces?_letter (by decide) rfl rfl rest
  split
  · next h =>
      obtain rfl : Char.ofNat 12 = c := by rw [← h, Char.ofNat_toNat]
      exact readPieces?_letter (by decide) rfl rfl rest
  split
  · next hquote hbackslash hline hreturn htab hback hfeed hsmall =>
      have hbyte : (UInt8.ofNat c.toNat).toNat = c.toNat := by
        rw [UInt8.toNat_ofNat']
        omega
      rw [pieceOf, if_pos ⟨hsmall, hline, hreturn, htab, hback, hfeed⟩, Text.hexByte, hbyte]
      simp only [List.cons_append, List.nil_append]
      rw [readPieces?, unit?_hexDigit _ hsmall]
      cases readPieces? rest <;> rfl
  · next hquote hbackslash hline hreturn htab hback hfeed hlarge =>
      rw [pieceOf, if_neg fun h => hlarge h.1, List.singleton_append, readPieces?, if_neg hlarge]
      · cases readPieces? rest <;> rfl
      · exact hquote
      · exact fun _ _ _ _ _ h _ => hbackslash h
      · exact fun _ _ h _ => hbackslash h

theorem readPieces?_escaped (text rest : List Char) :
    readPieces? (text.flatMap escapedChar ++ '"' :: rest) = some (text.map pieceOf, rest) := by
  induction text with
  | nil => rfl
  | cons c text ih =>
      rw [List.flatMap_cons, List.append_assoc, readPieces?_escapedChar, ih]
      rfl

/-- A unit below the surrogates stands for its character, whatever comes after it. -/
theorem textOf?_unit {code : Nat} (hcode : code < 0xD800) (pieces : List Piece) :
    textOf? (.unit code :: pieces) = (textOf? pieces).map (Char.ofNat code :: ·) := by
  have hleading : isLeading code = false := by
    rw [isLeading, decide_eq_false (Nat.not_le.mpr hcode), Bool.false_and]
  have htrailing : isTrailing code = false := by
    rw [isTrailing, decide_eq_false (by omega), Bool.false_and]
  by_cases hnext : ∃ low rest, pieces = .unit low :: rest
  · obtain ⟨low, rest, rfl⟩ := hnext
    rw [textOf?, hleading, htrailing]
    rfl
  · rw [textOf?, hleading, htrailing]
    · rfl
    · exact fun low rest h => hnext ⟨low, rest, h⟩

/-- The pieces of a text spell it. Those that are units are no surrogates. -/
theorem textOf?_map_pieceOf (text : List Char) : textOf? (text.map pieceOf) = some text := by
  induction text with
  | nil => rfl
  | cons c text ih =>
      rw [List.map_cons, pieceOf]
      split
      · next h => rw [textOf?_unit (by omega), ih, Char.ofNat_toNat, Option.map_some]
      · rw [textOf?, ih, Option.map_some]

theorem toList_quotedText (text : String) :
    (quotedText text).toList = '"' :: (text.toList.flatMap escapedChar ++ ['"']) := by
  simp [quotedText]

/-- A string is read back from its text. -/
theorem readString?_quotedText (text : String) (rest : List Char) :
    readString? (text.toList.flatMap escapedChar ++ '"' :: rest) = some (some text, rest) := by
  rw [readString?, readPieces?_escaped]
  show some ((textOf? (text.toList.map pieceOf)).map String.ofList, rest) = _
  rw [textOf?_map_pieceOf, Option.map_some, String.ofList_toList]

/-! ## Blanks and brackets -/

def Blanks (cs : List Char) : Prop := ∀ c ∈ cs, isBlank c

variable {blanks closing cs rest : List Char} {level fuel : Nat}

theorem skipBlanks_append (hblanks : Blanks blanks) {c : Char} (hc : isBlank c = false) :
    skipBlanks (blanks ++ c :: cs) = c :: cs := by
  rw [skipBlanks, List.dropWhile_append_of_pos hblanks, List.dropWhile_cons_of_neg (by simp [hc])]

theorem skipBlanks_cons {c : Char} (hc : isBlank c = false) : skipBlanks (c :: cs) = c :: cs :=
  @skipBlanks_append [] cs nofun c hc

theorem blanks_lineBreak (level : Nat) : Blanks (lineBreak level).toList := by
  have htext : (lineBreak level).toList = '\n' :: List.replicate (2 * level) ' ' := by
    simp [lineBreak]
  intro c hc
  rw [htext] at hc
  rcases List.mem_cons.1 hc with rfl | hc
  · rfl
  · rw [(List.mem_replicate.1 hc).2]
    rfl

theorem ends_cons {c : Char} (hc : isBlank c ∨ c = ',' ∨ c = ']' ∨ c = '\x7d') :
    Numeral.Ends (c :: cs) := by
  intro d hd
  obtain rfl : c = d := Option.some.inj hd
  simp only [isBlank, Bool.or_eq_true, decide_eq_true_eq] at hc
  rcases hc with (((rfl | rfl) | rfl) | rfl) | rfl | rfl | rfl <;> decide

/-- A numeral ends where a bracket or blanks in front of one come. -/
theorem ends_closing (hclosing : Blanks closing) {c : Char} (hc : c = ']' ∨ c = '\x7d') :
    Numeral.Ends (closing ++ c :: cs) := by
  cases closing with
  | nil => exact ends_cons (.inr (.inr hc))
  | cons d closing => exact ends_cons (.inl (hclosing d List.mem_cons_self))

/-! ## The text of a tree -/

/-- A tree that has a text: none of it is broken, and its numerals are proper. -/
inductive Proper : Json → Prop
  | null : Proper null
  | bool (b : Bool) : Proper (bool b)
  | number {n : Numeral} : n.Proper → Proper (number n)
  | string (text : String) : Proper (string text)
  | array {items : List Json} : (∀ item ∈ items, Proper item) → Proper (array items)
  | object {fields : List (String × Json)} : (∀ f ∈ fields, Proper f.2) → Proper (object fields)

/-- The items of an array, each on its line. -/
def itemsText (level : Nat) (items : List Json) : List Char :=
  (("," ++ lineBreak level).intercalate (prettyItems level items)).toList

/-- The fields of an object, each on its line. -/
def fieldsText (level : Nat) (fields : List (String × Json)) : List Char :=
  (("," ++ lineBreak level).intercalate (prettyFields level fields)).toList

theorem itemsText_singleton (level : Nat) (item : Json) :
    itemsText level [item] = (prettyAt level item).toList := by
  rw [itemsText, prettyItems, prettyItems, String.intercalate_singleton]

theorem itemsText_cons (level : Nat) (item : Json) {items : List Json} (hitems : items ≠ []) :
    itemsText level (item :: items) =
      (prettyAt level item).toList ++
        ',' :: ((lineBreak level).toList ++ itemsText level items) := by
  have hparts : prettyItems level items ≠ [] := by
    cases items with
    | nil => exact absurd rfl hitems
    | cons => exact List.cons_ne_nil _ _
  rw [itemsText, prettyItems, String.intercalate_cons_of_ne_nil hparts, String.toList_append,
    String.toList_append, String.toList_append, List.append_assoc, List.append_assoc]
  rfl

/-- The text of one field. -/
def fieldText (level : Nat) (key : String) (value : Json) : List Char :=
  (quotedText key).toList ++ ':' :: ' ' :: (prettyAt level value).toList

theorem fieldsText_singleton (level : Nat) (key : String) (value : Json) :
    fieldsText level [(key, value)] = fieldText level key value := by
  rw [fieldsText, prettyFields, prettyFields, String.intercalate_singleton, String.toList_append,
    String.toList_append, List.append_assoc]
  rfl

theorem fieldsText_cons (level : Nat) (key : String) (value : Json)
    {fields : List (String × Json)} (hfields : fields ≠ []) :
    fieldsText level ((key, value) :: fields) =
      fieldText level key value ++
        ',' :: ((lineBreak level).toList ++ fieldsText level fields) := by
  have hparts : prettyFields level fields ≠ [] := by
    cases fields with
    | nil => exact absurd rfl hfields
    | cons => exact List.cons_ne_nil _ _
  rw [fieldsText, prettyFields, String.intercalate_cons_of_ne_nil hparts]
  simp only [String.toList_append, List.append_assoc]
  rw [fieldText, List.append_assoc]
  rfl

theorem toList_prettyAt_no_items (level : Nat) :
    (prettyAt level (array [])).toList = ['[', ']'] := by
  simp [prettyAt, prettyItems, bracketed]

theorem toList_prettyAt_no_fields (level : Nat) :
    (prettyAt level (object [])).toList = ['\x7b', '\x7d'] := by
  simp [prettyAt, prettyFields, bracketed]

theorem toList_prettyAt_array (level : Nat) {items : List Json} (hitems : items ≠ []) :
    (prettyAt level (array items)).toList =
      '[' :: ((lineBreak (level + 1)).toList ++
        (itemsText (level + 1) items ++ ((lineBreak level).toList ++ [']']))) := by
  cases items with
  | nil => exact absurd rfl hitems
  | cons item items =>
      rw [prettyAt, bracketed, if_neg (by simp [prettyItems])]
      simp only [String.toList_append, List.append_assoc]
      rfl

theorem toList_prettyAt_object (level : Nat) {fields : List (String × Json)}
    (hfields : fields ≠ []) :
    (prettyAt level (object fields)).toList =
      '\x7b' :: ((lineBreak (level + 1)).toList ++
        (fieldsText (level + 1) fields ++ ((lineBreak level).toList ++ ['\x7d']))) := by
  cases fields with
  | nil => exact absurd rfl hfields
  | cons field fields =>
      obtain ⟨key, value⟩ := field
      rw [prettyAt, bracketed, if_neg (by simp [prettyFields])]
      simp only [String.toList_append, List.append_assoc]
      rfl

/-- The first character of a tree. -/
theorem head_prettyAt {json : Json} (hjson : json.Proper) (level : Nat) :
    ∃ c cs, (prettyAt level json).toList = c :: cs ∧ isBlank c = false ∧ c ≠ ']' := by
  cases hjson with
  | null => exact ⟨'n', ['u', 'l', 'l'], by rw [prettyAt]; rfl, by decide⟩
  | bool b =>
      cases b
      · exact ⟨'f', ['a', 'l', 's', 'e'], by rw [prettyAt]; rfl, by decide⟩
      · exact ⟨'t', ['r', 'u', 'e'], by rw [prettyAt]; rfl, by decide⟩
  | number hn =>
      obtain ⟨c, hc, hdigit⟩ := Numeral.head_display hn
      obtain ⟨cs, hcs⟩ := List.head?_eq_some_iff.1 hc
      refine ⟨c, cs, hcs, Bool.eq_false_iff.2 fun hblank => ?_, ?_⟩
      · simp only [isBlank, Bool.or_eq_true, decide_eq_true_eq] at hblank
        rcases hblank with ((rfl | rfl) | rfl) | rfl <;> exact absurd hdigit (by decide)
      · rintro rfl
        exact absurd hdigit (by decide)
  | string text => exact ⟨'"', _, toList_quotedText text, by decide⟩
  | @array items hitems =>
      cases items with
      | nil => exact ⟨'[', [']'], toList_prettyAt_no_items level, by decide⟩
      | cons => exact ⟨'[', _, toList_prettyAt_array level (List.cons_ne_nil _ _), by decide⟩
  | @object fields hfields =>
      cases fields with
      | nil => exact ⟨'\x7b', ['\x7d'], toList_prettyAt_no_fields level, by decide⟩
      | cons => exact ⟨'\x7b', _, toList_prettyAt_object level (List.cons_ne_nil _ _), by decide⟩

theorem head_itemsText (level : Nat) {items : List Json} (hne : items ≠ [])
    (hitems : ∀ item ∈ items, item.Proper) :
    ∃ c cs, itemsText level items = c :: cs ∧ isBlank c = false ∧ c ≠ ']' := by
  cases items with
  | nil => exact absurd rfl hne
  | cons item items =>
      obtain ⟨c, cs, hcs, hc⟩ := head_prettyAt (hitems item List.mem_cons_self) level
      by_cases hmore : items = []
      · exact ⟨c, cs, by rw [hmore, itemsText_singleton, hcs], hc⟩
      · exact ⟨c, _, by rw [itemsText_cons level item hmore, hcs, List.cons_append], hc⟩

theorem head_fieldsText (level : Nat) {fields : List (String × Json)} (hne : fields ≠ []) :
    ∃ cs, fieldsText level fields = '"' :: cs := by
  match fields with
  | [] => exact absurd rfl hne
  | (key, value) :: fields =>
      have hfield : ∃ cs, fieldText level key value = '"' :: cs :=
        ⟨_, by rw [fieldText, toList_quotedText, List.cons_append]⟩
      obtain ⟨cs, hcs⟩ := hfield
      by_cases hmore : fields = []
      · exact ⟨cs, by rw [hmore, fieldsText_singleton, hcs]⟩
      · exact ⟨_, by rw [fieldsText_cons level key value hmore, hcs, List.cons_append]⟩

/-! ## Reading a tree back

The induction is on the number of steps that the reader may take. -/

/-- With `fuel` steps, trees that are short enough for them are read back from their text. -/
def ReadsTrees (fuel : Nat) : Prop :=
  ∀ (json : Json) (level : Nat) (blanks rest : List Char), json.Proper → Blanks blanks →
    Numeral.Ends rest → 2 * (prettyAt level json).toList.length ≤ fuel →
      readTree? fuel (blanks ++ ((prettyAt level json).toList ++ rest)) = some (json, rest)

/-- With `fuel` steps, the items of an array are read back from their text. -/
def ReadsItems (fuel : Nat) : Prop :=
  ∀ (items : List Json) (level : Nat) (blanks closing rest : List Char), items ≠ [] →
    (∀ item ∈ items, item.Proper) → Blanks blanks → Blanks closing →
      2 * (itemsText level items).length + 1 ≤ fuel →
        readItems? fuel (blanks ++ (itemsText level items ++ (closing ++ ']' :: rest))) =
          some (items, rest)

/-- With `fuel` steps, the fields of an object are read back from their text. -/
def ReadsFields (fuel : Nat) : Prop :=
  ∀ (fields : List (String × Json)) (level : Nat) (blanks closing rest : List Char),
    fields ≠ [] → (∀ f ∈ fields, f.2.Proper) → Blanks blanks → Blanks closing →
      2 * (fieldsText level fields).length + 1 ≤ fuel →
        readFields? fuel (blanks ++ (fieldsText level fields ++ (closing ++ '\x7d' :: rest))) =
          some (fields.map fun f => (some f.1, f.2), rest)

theorem readsItems_succ (htrees : ReadsTrees fuel) (hitems : ReadsItems fuel) :
    ReadsItems (fuel + 1) := by
  intro items level blanks closing rest hne hproper hblanks hclosing hfuel
  cases items with
  | nil => exact absurd rfl hne
  | cons item items =>
      have hitem := hproper item List.mem_cons_self
      by_cases hmore : items = []
      · subst hmore
        rw [itemsText_singleton] at hfuel ⊢
        rw [readItems?, htrees item level blanks _ hitem hblanks (ends_closing hclosing (.inl rfl))
          (by omega)]
        dsimp only [Option.bind_eq_bind, Option.bind_some]
        rw [skipBlanks_append hclosing rfl]
        rfl
      · rw [itemsText_cons level item hmore] at hfuel ⊢
        rw [List.length_append, List.length_cons, List.length_append] at hfuel
        rw [List.append_assoc, List.cons_append, List.append_assoc]
        rw [readItems?, htrees item level blanks _ hitem hblanks (ends_cons (.inr (.inl rfl)))
          (by omega)]
        have hrest := hitems items level (lineBreak level).toList closing rest hmore
          (fun i hi => hproper i (List.mem_cons_of_mem _ hi)) (blanks_lineBreak level) hclosing
          (by omega)
        dsimp only [Option.bind_eq_bind, Option.bind_some]
        rw [skipBlanks_cons rfl]
        exact Option.bind_eq_some_iff.2 ⟨_, hrest, rfl⟩

/-- The key of a field is read, and its value if `fuel` steps are enough for that. -/
theorem readFields?_field (htrees : ReadsTrees fuel) (key : String) {value : Json}
    (hvalue : value.Proper) (hblanks : Blanks blanks) (hrest : Numeral.Ends rest)
    (hfuel : 2 * (prettyAt level value).toList.length ≤ fuel) :
    readFields? (fuel + 1) (blanks ++ (fieldText level key value ++ rest)) =
      (match skipBlanks rest with
      | ',' :: rest => do
        let (more, rest) ← readFields? fuel rest
        return ((some key, value) :: more, rest)
      | '\x7d' :: rest => return ([(some key, value)], rest)
      | _ => none) := by
  have htree := htrees value level [' '] rest hvalue (by simp [Blanks, isBlank]) hrest hfuel
  rw [fieldText, toList_quotedText, List.cons_append, List.cons_append, List.append_assoc,
    List.append_assoc, List.cons_append, List.cons_append, List.nil_append]
  rw [readFields?, skipBlanks_append hblanks rfl]
  show (readString? _).bind _ = _
  rw [readString?_quotedText, Option.bind_some]
  dsimp only
  rw [skipBlanks_cons rfl]
  show (readTree? fuel ([' '] ++ ((prettyAt level value).toList ++ rest))).bind _ = _
  rw [htree]
  rfl

theorem readsFields_succ (htrees : ReadsTrees fuel) (hfields : ReadsFields fuel) :
    ReadsFields (fuel + 1) := by
  intro fields level blanks closing rest hne hproper hblanks hclosing hfuel
  match fields with
  | [] => exact absurd rfl hne
  | (key, value) :: fields =>
      have hvalue : value.Proper := hproper (key, value) List.mem_cons_self
      by_cases hmore : fields = []
      · subst hmore
        rw [fieldsText_singleton] at hfuel ⊢
        have hlength :
            (prettyAt level value).toList.length ≤ (fieldText level key value).length := by
          simp [fieldText]
          omega
        rw [readFields?_field htrees key hvalue hblanks (ends_closing hclosing (.inr rfl))
          (by omega), skipBlanks_append hclosing rfl]
        rfl
      · rw [fieldsText_cons level key value hmore] at hfuel ⊢
        rw [List.length_append, List.length_cons, List.length_append] at hfuel
        have hlength :
            (prettyAt level value).toList.length ≤ (fieldText level key value).length := by
          simp [fieldText]
          omega
        have hrest := hfields fields level (lineBreak level).toList closing rest hmore
          (fun f hf => hproper f (List.mem_cons_of_mem _ hf)) (blanks_lineBreak level) hclosing
          (by omega)
        rw [List.append_assoc, List.cons_append, List.append_assoc,
          readFields?_field htrees key hvalue hblanks (ends_cons (.inr (.inl rfl))) (by omega),
          skipBlanks_cons rfl]
        exact Option.bind_eq_some_iff.2 ⟨_, hrest, rfl⟩

theorem ofFields_some (fields : List (String × Json)) :
    ofFields (fields.map fun f => (some f.1, f.2)) = object fields := by
  have hfields : (fields.map fun f => (some f.1, f.2)).mapM
      (fun f : Option String × Json => f.1.map (·, f.2)) = some fields := by
    induction fields with
    | nil => rfl
    | cons f fields ih =>
        rw [List.map_cons, List.mapM_cons, ih]
        rfl
  rw [ofFields, hfields]

/-- A numeral starts with a digit or a sign, so it is taken for nothing else. -/
theorem readTree?_number {n : Numeral} (hn : n.Proper) (hblanks : Blanks blanks)
    (hrest : Numeral.Ends rest) :
    readTree? (fuel + 1) (blanks ++ (n.display.toList ++ rest)) = some (number n, rest) := by
  have hread := Numeral.read?_display hn hrest
  obtain ⟨c, cs, hcs, hblank, -⟩ := head_prettyAt (.number hn) 0
  have hfirst : c.isDigit ∨ c = '-' := by
    obtain ⟨d, hd, hdigit⟩ := Numeral.head_display hn
    rw [show n.display.toList = c :: cs by rw [← hcs, prettyAt]] at hd
    exact Option.some.inj hd ▸ hdigit
  rw [show n.display.toList = c :: cs by rw [← hcs, prettyAt]] at hread ⊢
  rw [readTree?, List.cons_append, skipBlanks_append hblanks hblank]
  split
  · next heq => injection heq with hc; rw [hc] at hfirst; exact absurd hfirst (by decide)
  · next heq => injection heq with hc; rw [hc] at hfirst; exact absurd hfirst (by decide)
  · next heq => injection heq with hc; rw [hc] at hfirst; exact absurd hfirst (by decide)
  · next heq => injection heq with hc; rw [hc] at hfirst; exact absurd hfirst (by decide)
  · next heq => injection heq with hc; rw [hc] at hfirst; exact absurd hfirst (by decide)
  · next heq => injection heq with hc; rw [hc] at hfirst; exact absurd hfirst (by decide)
  · rw [← List.cons_append, hread]
    rfl

theorem readTree?_bracket (hblanks : Blanks blanks) :
    readTree? (fuel + 1) (blanks ++ '[' :: cs) =
      (match skipBlanks cs with
      | ']' :: rest => some (array [], rest)
      | _ => (readItems? fuel cs).map fun (items, rest) => (array items, rest)) := by
  rw [readTree?, skipBlanks_append hblanks rfl]
  rfl

theorem readTree?_brace (hblanks : Blanks blanks) :
    readTree? (fuel + 1) (blanks ++ '\x7b' :: cs) =
      (match skipBlanks cs with
      | '\x7d' :: rest => some (object [], rest)
      | _ => (readFields? fuel cs).map fun (fields, rest) => (ofFields fields, rest)) := by
  rw [readTree?, skipBlanks_append hblanks rfl]
  rfl

theorem readTree?_array (hitems : ReadsItems fuel) {items : List Json}
    (hproper : ∀ item ∈ items, item.Proper) (hblanks : Blanks blanks)
    (hfuel : 2 * (prettyAt level (array items)).toList.length ≤ fuel + 1) :
    readTree? (fuel + 1) (blanks ++ ((prettyAt level (array items)).toList ++ rest)) =
      some (array items, rest) := by
  by_cases hne : items = []
  · subst hne
    rw [toList_prettyAt_no_items, List.cons_append, readTree?_bracket hblanks,
      List.singleton_append, skipBlanks_cons rfl]
    rfl
  · rw [toList_prettyAt_array level hne] at hfuel ⊢
    obtain ⟨c, cs, hcs, hblank, hbracket⟩ := head_itemsText (level + 1) hne hproper
    have hread := hitems items (level + 1) (lineBreak (level + 1)).toList
      (lineBreak level).toList rest hne hproper (blanks_lineBreak _) (blanks_lineBreak _) (by
        simp only [List.length_cons, List.length_append] at hfuel
        omega)
    rw [List.cons_append, List.append_assoc, List.append_assoc, List.append_assoc,
      List.singleton_append, readTree?_bracket hblanks]
    generalize htext : (lineBreak (level + 1)).toList ++
      (itemsText (level + 1) items ++ ((lineBreak level).toList ++ ']' :: rest)) = text
      at hread ⊢
    have hskip : ∀ rest, skipBlanks text ≠ ']' :: rest := by
      intro rest h
      rw [← htext, hcs, List.cons_append, skipBlanks_append (blanks_lineBreak _) hblank] at h
      injection h with hc
      exact hbracket hc
    split
    · next h => exact absurd h (hskip _)
    · rw [hread]
      rfl

theorem readTree?_object (hfields : ReadsFields fuel) {fields : List (String × Json)}
    (hproper : ∀ f ∈ fields, f.2.Proper) (hblanks : Blanks blanks)
    (hfuel : 2 * (prettyAt level (object fields)).toList.length ≤ fuel + 1) :
    readTree? (fuel + 1) (blanks ++ ((prettyAt level (object fields)).toList ++ rest)) =
      some (object fields, rest) := by
  by_cases hne : fields = []
  · subst hne
    rw [toList_prettyAt_no_fields, List.cons_append, readTree?_brace hblanks,
      List.singleton_append, skipBlanks_cons rfl]
    rfl
  · rw [toList_prettyAt_object level hne] at hfuel ⊢
    obtain ⟨cs, hcs⟩ := head_fieldsText (level + 1) hne
    have hread := hfields fields (level + 1) (lineBreak (level + 1)).toList
      (lineBreak level).toList rest hne hproper (blanks_lineBreak _) (blanks_lineBreak _) (by
        simp only [List.length_cons, List.length_append] at hfuel
        omega)
    rw [List.cons_append, List.append_assoc, List.append_assoc, List.append_assoc,
      List.singleton_append, readTree?_brace hblanks]
    generalize htext : (lineBreak (level + 1)).toList ++
      (fieldsText (level + 1) fields ++ ((lineBreak level).toList ++ '\x7d' :: rest)) = text
      at hread ⊢
    have hskip : ∀ rest, skipBlanks text ≠ '\x7d' :: rest := by
      intro rest h
      rw [← htext, hcs, List.cons_append, skipBlanks_append (blanks_lineBreak _) rfl] at h
      injection h with hc
      exact absurd hc (by decide)
    split
    · next h => exact absurd h (hskip _)
    · rw [hread]
      show some (ofFields _, rest) = _
      rw [ofFields_some]

theorem readsTrees_succ (hitems : ReadsItems fuel) (hfields : ReadsFields fuel) :
    ReadsTrees (fuel + 1) := by
  intro json level blanks rest hproper hblanks hrest hfuel
  cases hproper with
  | null =>
      rw [show (prettyAt level null).toList = ['n', 'u', 'l', 'l'] by rw [prettyAt]; rfl,
        List.cons_append, readTree?, skipBlanks_append hblanks rfl]
      rfl
  | bool b =>
      cases b
      · rw [show (prettyAt level (bool false)).toList = ['f', 'a', 'l', 's', 'e'] by
            rw [prettyAt]; rfl,
          List.cons_append, readTree?, skipBlanks_append hblanks rfl]
        rfl
      · rw [show (prettyAt level (bool true)).toList = ['t', 'r', 'u', 'e'] by rw [prettyAt]; rfl,
          List.cons_append, readTree?, skipBlanks_append hblanks rfl]
        rfl
  | number hn =>
      rw [prettyAt]
      exact readTree?_number hn hblanks hrest
  | string text =>
      rw [prettyAt, toList_quotedText, List.cons_append, List.append_assoc, List.singleton_append,
        readTree?, skipBlanks_append hblanks rfl]
      show (readString? _).map _ = _
      rw [readString?_quotedText]
      rfl
  | array hproper => exact readTree?_array hitems hproper hblanks hfuel
  | object hproper => exact readTree?_object hfields hproper hblanks hfuel

theorem reads_back : ∀ fuel, ReadsTrees fuel ∧ ReadsItems fuel ∧ ReadsFields fuel
  | 0 => by
    refine ⟨fun json level blanks rest hproper _ _ hfuel => ?_, ?_, ?_⟩
    · obtain ⟨c, cs, hcs, -⟩ := head_prettyAt hproper level
      rw [hcs, List.length_cons] at hfuel
      omega
    · intro items level blanks closing rest _ _ _ _ hfuel
      omega
    · intro fields level blanks closing rest _ _ _ _ hfuel
      omega
  | fuel + 1 =>
    have ⟨htrees, hitems, hfields⟩ := reads_back fuel
    ⟨readsTrees_succ hitems hfields, readsItems_succ htrees hitems,
      readsFields_succ htrees hfields⟩

/-- The text of a tree on many lines is read as that tree. -/
theorem parse?_pretty {json : Json} (hjson : json.Proper) : parse? json.pretty = some json := by
  have hread := (reads_back (2 * json.pretty.toList.length + 2)).1 json 0 [] [] hjson nofun nofun
    (by rw [pretty]; omega)
  rw [List.nil_append, List.append_nil] at hread
  rw [parse?, show readTree? _ json.pretty.toList = _ from hread]
  rfl

end MotionMetadata.Json
