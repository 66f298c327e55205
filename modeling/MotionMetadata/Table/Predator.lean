import MotionMetadata.Table
import MotionMetadata.Table.Formats

/-!
# The basic universal set

The set drones sent before the datalink set replaced it. Its fields go by universal keys, and
the tags here only number the entries of the table.
-/

namespace MotionMetadata.Table

/-- Microseconds since the start of 1970. Quality metadata names its time by this key too. -/
def timestampKey : UniversalKey := .ofWords 0x060E2B3401010101 0x0702010101050000

/-- A set of security metadata. -/
def securityKey : UniversalKey := .ofWords 0x060E2B3402030101 0x0E01030302000000

/-- The keys of the basic universal set. -/
def predator : Table where
  name := Standard.name .predator
  unknown := .unknown "KLV_0104_UNKNOWN"
  known := [
    { tag := 1, symbol := "KLV_0104_USER_DEFINED_TIMESTAMP"
      name := "User Defined Timestamp"
      key := some timestampKey
      format := .unsigned 8, count := .exactly 1
      description := "Coordinating Universal Time (UTC) represented in the number " ++
        "of microseconds elapsed since midnight, January 1, 1970. Derived from the " ++
        "POSIX IEEE 1003.1 standard." },
    { tag := 2, symbol := "KLV_0104_EPISODE_NUMBER"
      name := "Episode Number"
      key := some (.ofWords 0x060E2B3401010101 0x0105050000000000)
      format := .anyFloat
      description := "Number to distinguish different missions started on a given day." },
    { tag := 3, symbol := "KLV_0104_PLATFORM_HEADING_ANGLE"
      name := "Platform Heading Angle"
      key := some (.ofWords 0x060E2B3401010107 0x0701100106000000)
      format := .real 4
      description := "Angle between longitudinal axis and true north measured in " ++
        "the horizontal plane. Angles increase in a clockwise direction when " ++
        "looking from above the platform. Measured in degrees." },
    { tag := 4, symbol := "KLV_0104_PLATFORM_PITCH_ANGLE"
      name := "Platform Pitch Angle"
      key := some (.ofWords 0x060E2B3401010107 0x0701100105000000)
      format := .real 4
      description := "Angle between longitudinal axis and horizonal plane. Positive " ++
        "angles above horizonal plane. Measured in degrees." },
    { tag := 5, symbol := "KLV_0104_PLATFORM_ROLL_ANGLE"
      name := "Platform Roll Angle"
      key := some (.ofWords 0x060E2B3401010107 0x0701100104000000)
      format := .real 4
      description := "Angle between transverse axis and transverse-longitudinal " ++
        "plane. Measured in degrees." },
    { tag := 6, symbol := "KLV_0104_DEVICE_DESIGNATION"
      name := "Device Designation"
      key := some (.ofWords 0x060E2B3401010101 0x0101200100000000)
      format := .text
      description := "Model name for the platform. Examples: 'Predator', 'Reaper'." },
    { tag := 7, symbol := "KLV_0104_IMAGE_SOURCE_DEVICE"
      name := "Image Source Device"
      key := some (.ofWords 0x060E2B3401010101 0x0420010201010000)
      format := .text
      description := "Name of the currently active sensor. Examples: 'EO Nose', 'IR " ++
        "Mitsubishi PtSi Model 500'." },
    { tag := 8, symbol := "KLV_0104_IMAGE_COORDINATE_SYSTEM"
      name := "Image Coordinate System"
      key := some (.ofWords 0x060E2B3401010101 0x0701010100000000)
      format := .text
      description := "Name of the image coordinate system used." },
    { tag := 9, symbol := "KLV_0104_DEVICE_LATITUDE"
      name := "Device Latitude"
      key := some (.ofWords 0x060E2B3401010103 0x0701020102040200)
      format := .real 8
      description := "Latitude of the currently active sensor, based on WGS84 " ++
        "ellipsoid." },
    { tag := 10, symbol := "KLV_0104_DEVICE_LONGITUDE"
      name := "Device Longitude"
      key := some (.ofWords 0x060E2B3401010103 0x0701020102060200)
      format := .real 8
      description := "Longitude of the currently active sensor, based on WGS84 " ++
        "ellipsoid." },
    { tag := 11, symbol := "KLV_0104_DEVICE_ALTITUDE"
      name := "Device Altitude"
      key := some (.ofWords 0x060E2B3401010101 0x0701020102020000)
      format := .anyFloat
      description := "Altitude of the currently active sensor, relative to Mean Sea " ++
        "Level. Measured in meters." },
    { tag := 12, symbol := "KLV_0104_HORIZONTAL_FOV"
      name := "Horizontal Field of View"
      key := some (.ofWords 0x060E2B3401010102 0x0420020101080000)
      format := .real 4
      description := "Horizonal field of view of the currently active sensor. " ++
        "Measured in degrees." },
    { tag := 13, symbol := "KLV_0104_VERTICAL_FOV"
      name := "Vertical Field of View"
      key := some (.ofWords 0x060E2B3401010107 0x04200201010A0100)
      format := .real 4
      description := "Vertical field of view of the currently active sensor. " ++
        "Measured in degrees." },
    { tag := 14, symbol := "KLV_0104_SLANT_RANGE"
      name := "Slant Range"
      key := some (.ofWords 0x060E2B3401010101 0x0701080101000000)
      format := .anyFloat
      description := "Distance between currently active sensor and the image " ++
        "center. Measured in meters." },
    { tag := 15, symbol := "KLV_0104_TARGET_WIDTH"
      name := "Target Width"
      key := some (.ofWords 0x060E2B3401010101 0x0701090201000000)
      format := .anyFloat
      description := "Target width within sensor field of view. Measured in meters." },
    { tag := 16, symbol := "KLV_0104_FRAME_CENTER_LATITUDE"
      name := "Frame Center Latitude"
      key := some (.ofWords 0x060E2B3401010101 0x0701020103020000)
      format := .real 8
      description := "Latitude of image center, based on WGS84 ellipsoid." },
    { tag := 17, symbol := "KLV_0104_FRAME_CENTER_LONGITUDE"
      name := "Frame Center Longitude"
      key := some (.ofWords 0x060E2B3401010101 0x0701020103040000)
      format := .real 8
      description := "Latitude of image center, based on WGS84 ellipsoid." },
    { tag := 18, symbol := "KLV_0104_FRAME_CENTER_ELEVATION"
      name := "Frame Center Elevation"
      key := some (.ofWords 0x060E2B340101010A 0x0701020103160000)
      format := .anyFloat
      description := "Elevation of image center, relative to Mean Sea Level." },
    { tag := 19, symbol := "KLV_0104_CORNER_LATITUDE_POINT_1"
      name := "Corner Latitude Point 1"
      key := some (.ofWords 0x060E2B3401010103 0x0701020103070100)
      format := .real 8
      description := "Latitude for the upper left corner of the image." },
    { tag := 20, symbol := "KLV_0104_CORNER_LATITUDE_POINT_2"
      name := "Corner Latitude Point 2"
      key := some (.ofWords 0x060E2B3401010103 0x0701020103080100)
      format := .real 8
      description := "Latitude for the upper right corner of the image." },
    { tag := 21, symbol := "KLV_0104_CORNER_LATITUDE_POINT_3"
      name := "Corner Latitude Point 3"
      key := some (.ofWords 0x060E2B3401010103 0x0701020103090100)
      format := .real 8
      description := "Latitude for the lower right corner of the image." },
    { tag := 22, symbol := "KLV_0104_CORNER_LATITUDE_POINT_4"
      name := "Corner Latitude Point 4"
      key := some (.ofWords 0x060E2B3401010103 0x07010201030A0100)
      format := .real 8
      description := "Latitude for the lower left corner of the image." },
    { tag := 23, symbol := "KLV_0104_CORNER_LONGITUDE_POINT_1"
      name := "Corner Longitude Point 1"
      key := some (.ofWords 0x060E2B3401010103 0x07010201030B0100)
      format := .real 8
      description := "Longitude for the upper left corner of the image." },
    { tag := 24, symbol := "KLV_0104_CORNER_LONGITUDE_POINT_2"
      name := "Corner Longitude Point 2"
      key := some (.ofWords 0x060E2B3401010103 0x07010201030C0100)
      format := .real 8
      description := "Longitude for the upper right corner of the image." },
    { tag := 25, symbol := "KLV_0104_CORNER_LONGITUDE_POINT_3"
      name := "Corner Longitude Point 3"
      key := some (.ofWords 0x060E2B3401010103 0x07010201030D0100)
      format := .real 8
      description := "Longitude for the lower right corner of the image." },
    { tag := 26, symbol := "KLV_0104_CORNER_LONGITUDE_POINT_4"
      name := "Corner Longitude Point 4"
      key := some (.ofWords 0x060E2B3401010103 0x07010201030E0100)
      format := .real 8
      description := "Longitude for the lower left corner of the image." },
    { tag := 27, symbol := "KLV_0104_SECURITY_LOCAL_SET"
      name := "Security Local Set"
      key := some securityKey
      format := .bytes
      description := "MISB ST 0102 local set for security metadata." },
    { tag := 28, symbol := "KLV_0104_START_DATETIME"
      name := "Start Datetime"
      key := some (.ofWords 0x060E2B3401010101 0x0702010201010000)
      format := .text
      description := "Start time of Motion Imagery Collection. Format: " ++
        "YYYYMMDDDThhmmss. UTC." },
    { tag := 29, symbol := "KLV_0104_EVENT_START_DATETIME"
      name := "Event Start Datetime"
      key := some (.ofWords 0x060E2B3401010101 0x0702010207010000)
      format := .text
      description := "Start time of scene, project, event, mission, editing event, " ++
        "license, publication, etc. Format: YYYYMMDDDThhmmss. UTC." },
    { tag := 30, symbol := "KLV_0104_SENSOR_ROLL_ANGLE"
      name := "Sensor Roll Angle"
      key := some (.ofWords 0x060E2B3401010101 0x0701100101000000)
      format := .real 4
      description := "Angle between sensor pointing direction and " ++
        "transverse-longitudinal plane. Measured in degrees." },
    { tag := 31, symbol := "KLV_0104_ANGLE_TO_NORTH"
      name := "Angle to North"
      key := some (.ofWords 0x060E2B3401010101 0x0701100102000000)
      format := .real 4
      description := "Angle between sensor pointing direction and true north " ++
        "measured in the horizontal plane. Angles increase in a clockwise direction " ++
        "when looking from above the platform. Measured in degrees." },
    { tag := 32, symbol := "KLV_0104_OBLIQUITY_ANGLE"
      name := "Obliquity Angle"
      key := some (.ofWords 0x060E2B3401010101 0x0701100103000000)
      format := .real 4
      description := "Inverse of sensor elevation angle. Measured in degrees. " ++
        "Examples: 0 degrees is backward, 180 degrees is forward, 270 degrees is " ++
        "down." }]

end MotionMetadata.Table
