import MotionMetadata.Proofs.Forgetting

/-!
# Packets that survive JSON

A packet has a JSON form exactly if its values nest no deeper than JSON has room for. On the
wire only sets, series and packs around sets take a level, in JSON every value does, and so a
packet that was decoded can nest too deep. Otherwise its form is read back, less the widths
that its sets remember and with the doubles that its numerals stand for. Where these are its
own doubles and the widths are natural, encoding does not tell the two packets apart.
-/

namespace MotionMetadata.Packet

variable {registry : Registry} {p : Packet}

/-- The form of a packet whose value has the form `json`. -/
def form (p : Packet) (json : Json) : Json :=
  Value.pairOf "key" "value" (.string p.key.display) json

theorem ofJson?_form {json : Json} (htold : Value.Told Value.jsonLevels p.value json)
    {r : Binary64 → Binary64} (hr : p.value.RereadsAs r) :
    ofJson? textLevels (p.form json) = some (.ok (p.reread r)) := by
  have hpair : (p.form json).pair? textLevels "key" "value" =
      some (.string p.key.display, json) := rfl
  have hvalue := htold.retold r (textLevels - 1) (textLevels - 1) Value.jsonLevels hr
    (by decide) (by decide) (Nat.le_refl _)
  rw [ofJson?, hpair]
  simp only [Option.bind_eq_bind, Option.bind_some, Json.asString?, hvalue,
    UniversalKey.parse_display]
  rfl

/-- A packet whose value has a form is told, and its text is read back as its retelling. -/
theorem ofJsonText_of_told {json : Json} (htold : Value.Told Value.jsonLevels p.value json) :
    p.toJsonText = .ok (p.form json).pretty ∧
      ∀ r, p.value.RereadsAs r → ofJsonText (p.form json).pretty = .ok (p.reread r) := by
  have hproper : (p.form json).Proper :=
    .object (List.forall_mem_cons.2 ⟨.string _, List.forall_mem_singleton.2 htold.proper⟩)
  constructor
  · show (do
      let packet ← (do
        return Value.pairOf "key" "value" (.string p.key.display)
          (← p.value.toJsonWithin Value.jsonLevels) : Except Error Json)
      return packet.pretty) = _
    rw [htold.told]
    rfl
  · intro r hr
    rw [ofJsonText, Json.parse?_pretty hproper]
    show Value.settled (ofJson? textLevels (p.form json)) = _
    rw [ofJson?_form htold hr]
    rfl

/-- A packet whose values nest too deep has no text. -/
theorem toJsonText_tooDeep (h : p.value.isWithin Value.jsonLevels = false) :
    p.toJsonText = raise .tooDeep := by
  show (do
    let packet ← (do
      return Value.pairOf "key" "value" (.string p.key.display)
        (← p.value.toJsonWithin Value.jsonLevels) : Except Error Json)
    return packet.pretty) = _
  rw [Value.toJsonWithin_tooDeep h]
  rfl

/-- A packet that was decoded survives JSON, as far as it can be told: it has a text exactly if
its values nest no deeper than the text allows, the text is read back as the packet without its
widths and with the doubles that its numerals stand for, and if those are its own doubles and
its widths are natural, what is read back is encoded like the packet. -/
theorem survives_json {b : Bytes} (hdecode : decode registry b = .ok p) :
    (p.value.isWithin Value.jsonLevels = false → p.toJsonText = raise .tooDeep) ∧
      (p.value.isWithin Value.jsonLevels → ∃ text, p.toJsonText = .ok text ∧
        (∀ r, p.value.RereadsAs r → ofJsonText text = .ok (p.reread r)) ∧
        (p.value.RereadsAs id →
          Placed.AllNatural registry ⟨formatOf registry p.key, p.value, none⟩ →
            ∃ q, ofJsonText text = .ok q ∧ encode registry q = encode registry p)) := by
  refine ⟨toJsonText_tooDeep, ?_⟩
  intro hwithin
  obtain ⟨json, htold⟩ := Value.exists_told hwithin
  obtain ⟨htext, hread⟩ := ofJsonText_of_told htold
  exact ⟨_, htext, hread, fun hr hnatural =>
    ⟨_, hread id hr, encode_reread hdecode hnatural⟩⟩

/-! ## Widths and depths that are lost -/

/-- A packet with nothing but the version of its format, in a field of so many bytes. -/
def versioned (width : Nat) : Packet where
  key := PacketKey.movingTarget
  value := .localSet [⟨4, .uint 19, some width⟩]

def versionBytes : Bytes := PacketKey.movingTarget.bytes ++ [0x03, 0x04, 0x01, 0x13]

/-- There is no double in it. -/
theorem versioned_rereadsAs (width : Nat) (r : Binary64 → Binary64) :
    (versioned width).value.RereadsAs r := by
  rintro x hx
  obtain - | - | ⟨hchild, hx⟩ := hx
  rw [List.mem_singleton.1 hchild] at hx
  obtain - | - | ⟨hchild, -⟩ := hx
  exact absurd hchild List.not_mem_nil

/-- In one byte it survives. -/
theorem versioned_survives :
    decode Registry.published versionBytes = .ok (versioned 1) ∧
      (versioned 1).value.isWithin Value.jsonLevels ∧
      ∃ text q, (versioned 1).toJsonText = .ok text ∧ ofJsonText text = .ok q ∧
        encode Registry.published q = encode Registry.published (versioned 1) := by
  have hdecode : decode Registry.published versionBytes = .ok (versioned 1) := rfl
  have hwithin : (versioned 1).value.isWithin Value.jsonLevels := rfl
  have hnatural : Placed.AllNatural Registry.published
      ⟨formatOf Registry.published (versioned 1).key, (versioned 1).value, none⟩ := by
    have hformat : formatOf Registry.published (versioned 1).key =
        .localSet .movingTarget (some (.ofTag 1 .runningSum)) := rfl
    rw [hformat]
    intro part hpart
    cases hpart with
    | here => exact fun _ _ hplain => nomatch hplain
    | localEntry he hentry =>
        rw [List.mem_singleton.1 he] at hentry
        rw [hentry.eq_of_plain]
        intro f width hf hwidth _
        injection hf with hf
        injection hwidth with hwidth
        rw [← hf, ← hwidth]
        rfl
  obtain ⟨text, htext, -, hsurvives⟩ := (survives_json hdecode).2 hwithin
  obtain ⟨q, hq, hencode⟩ := hsurvives (versioned_rereadsAs 1 id) hnatural
  exact ⟨hdecode, hwithin, text, q, htext, hq, hencode⟩

/-- The version in a field of two bytes. -/
def wideVersionBytes : Bytes := PacketKey.movingTarget.bytes ++ [0x04, 0x04, 0x02, 0x00, 0x13]

/-- A set with an identifier, inside so many sets of its kind. -/
def segmentBytes : Nat → Bytes
  | 0 => [0x5E, 0x02, 0x01, 0x00]
  | n + 1 => 0x64 :: UInt8.ofNat (segmentBytes n).length :: segmentBytes n

def deepBytes : Bytes :=
  PacketKey.datalink.bytes ++ UInt8.ofNat (segmentBytes 31).length :: segmentBytes 31

/-- The identifier takes no level on the wire. In JSON it does, and its parts take one more. -/
theorem deep_decoded :
    ∃ p, decode Registry.published deepBytes = .ok p ∧
      p.value.isWithin Value.jsonLevels = false := by
  have hdeep : (match decode Registry.published deepBytes with
      | .ok p => !p.value.isWithin Value.jsonLevels
      | .error _ => false) = true := by decide +kernel
  split at hdeep
  · next p hdecode => exact ⟨p, hdecode, by simpa using hdeep⟩
  · cases hdeep

/-- Not every packet that is decoded survives JSON. A version that took two bytes takes one
after it was read back, and an identifier inside so many sets cannot even be told. -/
theorem not_every_packet_survives :
    (∃ p text q, decode Registry.published wideVersionBytes = .ok p ∧ p.toJsonText = .ok text ∧
      ofJsonText text = .ok q ∧ encode Registry.published q ≠ encode Registry.published p) ∧
      ∃ p, decode Registry.published deepBytes = .ok p ∧ p.toJsonText = raise .tooDeep := by
  constructor
  · have hdecode : decode Registry.published wideVersionBytes = .ok (versioned 2) := rfl
    obtain ⟨json, htold⟩ := Value.exists_told
      (show (versioned 2).value.isWithin Value.jsonLevels from rfl)
    obtain ⟨htext, hread⟩ := ofJsonText_of_told htold
    refine ⟨_, _, _, hdecode, htext, hread id (versioned_rereadsAs 2 id), ?_⟩
    have hbytes : (encode Registry.published ((versioned 2).reread id)).toOption ≠
        (encode Registry.published (versioned 2)).toOption := by
      decide +kernel
    exact fun hsame => hbytes (congrArg Except.toOption hsame)
  · obtain ⟨p, hdecode, hdeep⟩ := deep_decoded
    exact ⟨p, hdecode, toJsonText_tooDeep hdeep⟩

end MotionMetadata.Packet
