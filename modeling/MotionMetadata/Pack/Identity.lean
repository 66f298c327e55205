import MotionMetadata.Codec.Scalar

/-!
# Motion imagery identifiers

The core identifier names the sensor, the platform, the window and a minor part by UUIDs. A
usage byte tells which are there, and for sensor and platform how the identifier was made.
-/

namespace MotionMetadata.Identity

def uuidLength : Nat := 16

def deviceTypes : Names := [(0, "None"), (1, "Managed"), (2, "Virtual"), (3, "Physical")]

/-- The identifiers in wire order. -/
def idFields : List String := ["sensor_id", "platform_id", "window_id", "minor_id"]

/-- Reads the identifiers that are present. -/
def readIds : List (String × Bool) → Reader (List (String × Value))
  | [] => return []
  | (name, present) :: rest => do
    let id ← if present then Value.blob <$> Reader.take uuidLength else pure .empty
    return (name, id) :: (← readIds rest)

def read : Reader Value := do
  let version ← Reader.byte
  let usage := (← Reader.byte).toNat
  let sensor := usage / 2 ^ 5 % 4
  let platform := usage / 2 ^ 3 % 4
  let present := [sensor != 0, platform != 0, usage.testBit 2, usage.testBit 1]
  let ids ← readIds (idFields.zip present)
  return .record ([("version", .uint version.toUInt64),
    ("sensor_id_type", .uint (UInt64.ofNat sensor)),
    ("platform_id_type", .uint (UInt64.ofNat platform))] ++ ids)

/-- The identifier in the field `name`, if there is one. -/
def idOf (value : Value) (name : String) : Except Error (Option Bytes) := do
  match ← value.optionalField name with
  | none => return none
  | some (.blob bytes) =>
    if bytes.length = uuidLength then return some bytes
    else raise (.identifierLength name bytes.length)
  | some other => Value.inside name (raise (other.typeFault "blob"))

def idsOf (value : Value) : Except Error (List (Option Bytes)) := idFields.mapM (idOf value)

/-- Refuses identifiers and types that do not go together. -/
def checkUsage (sensor platform : UInt64) (ids : List (Option Bytes)) : Except Error Unit :=
  let has := fun i => (ids.getD i none).isSome
  if (sensor != 0) != has 0 || (platform != 0) != has 1 then raise .devicePresence
  else .ok ()

def usageByte (sensor platform : UInt64) (ids : List (Option Bytes)) : UInt8 :=
  let has := fun i => (ids.getD i none).isSome.toNat
  UInt8.ofNat (sensor.toNat * 2 ^ 5 + platform.toNat * 2 ^ 3 + has 2 * 2 ^ 2 + has 3 * 2)

def write (value : Value) : Encoder Unit := do
  let sensor ← Encoder.ofExcept (value.uintField "sensor_id_type")
  let platform ← Encoder.ofExcept (value.uintField "platform_id_type")
  if 3 < sensor ∨ 3 < platform then
    raise (.deviceTypes sensor platform)
  let ids ← Encoder.ofExcept (idsOf value)
  Encoder.ofExcept (checkUsage sensor platform ids)
  Integer.writeUnsigned (← Encoder.ofExcept (value.uintField "version")) 1
  Encoder.emit [usageByte sensor platform ids]
  Encoder.each Encoder.emit (ids.filterMap id)

def naturalLength (value : Value) : Except Error Nat := do
  return 2 + ((← idsOf value).filterMap id).length * uuidLength

def print (value : Value) : String :=
  match value.uintField "version", value.uintField "sensor_id_type",
      value.uintField "platform_id_type" with
  | .ok version, .ok sensor, .ok platform =>
    let typeText := fun t => (deviceTypes.nameOf t).getD "Unknown Device ID Type"
    let idText := fun name => match value.field name with
      | .ok v => v.display
      | .error _ => "?"
    "\x7b version: " ++ Nat.repr version.toNat ++
      ", sensor id type: " ++ typeText sensor ++ ", sensor id: " ++ idText "sensor_id" ++
      ", platform id type: " ++ typeText platform ++ ", platform id: " ++ idText "platform_id" ++
      ", window id: " ++ idText "window_id" ++ ", minor id: " ++ idText "minor_id" ++ " \x7d"
  | _, _, _ => value.display

/-- The identifier with nothing but a physical sensor, which most platforms send. -/
def ofSensor (version : UInt8) (id : Bytes) : Value :=
  .record [("version", .uint version.toUInt64), ("sensor_id_type", .uint 3),
    ("platform_id_type", .uint 0), ("sensor_id", .blob id), ("platform_id", .empty),
    ("window_id", .empty), ("minor_id", .empty)]

end MotionMetadata.Identity

namespace MotionMetadata.Codec

/-- The core identifier: two bytes and up to four UUIDs. -/
def identity : Codec where
  description := "MIIS ID of " ++ (LengthConstraint.between 2 66).description
  constraint := .between 2 66
  read _ := Identity.read
  write value _ := Identity.write value
  naturalLength := Identity.naturalLength
  print := Identity.print

end MotionMetadata.Codec
