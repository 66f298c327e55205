import MotionMetadata.Table
import MotionMetadata.Table.Formats

/-!
# Remote video terminals

What a terminal on the ground gets to know. Points and areas of interest stay bytes.
-/

namespace MotionMetadata.Table

/-- The tags of a remote video terminal. -/
def terminal : Table where
  name := Standard.name .terminal
  unknown := .unknown "KLV_0806_UNKNOWN"
  known := [
    { tag := 1, symbol := "KLV_0806_CHECKSUM"
      name := "Checksum"
      format := .unsigned 4, count := .exactly 0
      description := "Checksum used to detect errors within a ST 0806 packet." },
    { tag := 2, symbol := "KLV_0806_TIMESTAMP"
      name := "Timestamp"
      format := .unsigned 8, count := .exactly 1
      description := "Precision timestamp expressed in microseconds since the UNIX " ++
        "Epoch." },
    { tag := 3, symbol := "KLV_0806_PLATFORM_TRUE_AIRSPEED"
      name := "Platform True Airspeed"
      format := .unsigned 2
      description := "Indicated airspeed adjusted for temperature and altitude. " ++
        "Measured in meters per second." },
    { tag := 4, symbol := "KLV_0806_PLATFORM_INDICATED_AIRSPEED"
      name := "Platform Indicated Airspeed"
      format := .unsigned 2
      description := "Airspeed derived from Pitot tube and static pressure sensors. " ++
        "Measured in meters per second." },
    { tag := 5, symbol := "KLV_0806_TELEMETRY_ACCURACY_INDICATOR"
      name := "Telemetry Accuracy Indicator"
      format := .bytes
      description := "Reserved for future use." },
    { tag := 6, symbol := "KLV_0806_FRAG_CIRCLE_RADIUS"
      name := "Frag Circle Radius"
      format := .unsigned 2
      description := "Size of fragmentation circle selected by the aircrew. " ++
        "Measured in meters." },
    { tag := 7, symbol := "KLV_0806_FRAME_CODE"
      name := "Frame Code"
      format := .unsigned 4
      description := "Counter runs at 60Hz." },
    { tag := 8, symbol := "KLV_0806_VERSION_NUMBER"
      name := "UAS LS Version Number"
      format := .unsigned 1
      description := "Version of MISB ST 0806 used as the source standard when " ++
        "encoding this local set." },
    { tag := 9, symbol := "KLV_0806_VIDEO_DATA_RATE"
      name := "Video Data Rate"
      format := .unsigned 4
      description := "Video data rate if digital, or analog FM. Measured in bits " ++
        "per second or Hertz." },
    { tag := 10, symbol := "KLV_0806_DIGITAL_VIDEO_FILE_FORMAT"
      name := "Digital Video File Format"
      format := .text
      description := "Video compression being used. Examples: MPEG2, MPEG4, H.264, " ++
        "Analog FM." },
    { tag := 11, symbol := "KLV_0806_USER_DEFINED_LOCAL_SET"
      name := "User Defined Local Set"
      format := .nested .terminalUser, count := .any
      description := "Local set of user-defined data items." },
    { tag := 12, symbol := "KLV_0806_POI_LOCAL_SET"
      name := "Point of Interest Local Set"
      format := .bytes, count := .any
      description := "Local set with point-of-interest information." },
    { tag := 13, symbol := "KLV_0806_AOI_LOCAL_SET"
      name := "Area of Interest Local Set"
      format := .bytes, count := .any
      description := "Local set with area-of-interest information." },
    { tag := 14, symbol := "KLV_0806_MGRS_ZONE"
      name := "MGRS Zone"
      format := .unsigned 1
      description := "UTM Zone 01 through 60." },
    { tag := 15, symbol := "KLV_0806_MGRS_LATITUDE_BAND_GRID_SQUARE"
      name := "MGRS Latitude Band and Grid Square"
      format := .text
      description := "Alpha codes for the latitude band and the WGS84 grid square " ++
        "designator." },
    { tag := 16, symbol := "KLV_0806_MGRS_EASTING"
      name := "MGRS Easting"
      format := .unsigned 3
      description := "Five-digit easting value in meters." },
    { tag := 17, symbol := "KLV_0806_MGRS_NORTHING"
      name := "MGRS Northing"
      format := .unsigned 3
      description := "Five-digit northing value in meters." },
    { tag := 18, symbol := "KLV_0806_FRAME_CENTER_MGRS_ZONE"
      name := "Frame Center MGRS Zone"
      format := .unsigned 1
      description := "UTM Zone 01 through 60." },
    { tag := 19, symbol := "KLV_0806_FRAME_CENTER_MGRS_LATITUDE_BAND_GRID_SQUARE"
      name := "Frame Center MGRS Latitude Band and Grid Square"
      format := .text
      description := "Alpha codes for the latitude band and the WGS84 grid square " ++
        "designator." },
    { tag := 20, symbol := "KLV_0806_FRAME_CENTER_MGRS_EASTING"
      name := "Frame Center MGRS Easting"
      format := .unsigned 3
      description := "Five-digit easting value in meters." },
    { tag := 21, symbol := "KLV_0806_FRAME_CENTER_MGRS_NORTHING"
      name := "Frame Center MGRS Northing"
      format := .unsigned 3
      description := "Five-digit northing value in meters." }]

/-- The tags of one user-defined item. -/
def terminalUser : Table where
  name := Standard.name .terminalUser
  unknown := .unknown "KLV_0806_USER_DEFINED_SET_UNKNOWN"
  known := [
    { tag := 1, symbol := "KLV_0806_USER_DEFINED_SET_DATA_TYPE_ID"
      name := "Numeric ID and Data Type"
      format := .plain .userData, count := .exactly 1
      description := "Data type and numeric ID for the user defined data." },
    { tag := 2, symbol := "KLV_0806_USER_DEFINED_SET_DATA"
      name := "User Data"
      format := .bytes, count := .exactly 1
      description := "User-defined data. Data type defined in tag 1." }]

end MotionMetadata.Table
