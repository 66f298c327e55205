import MotionMetadata.Table
import MotionMetadata.Table.Formats

/-!
# The datalink set

What an unmanned aircraft reports of itself, its sensor and what the sensor looks at. Most
numbers of it are integers mapped to a domain, and the later ones are scaled. Segments and
amendments hold datalink sets again.
-/

namespace MotionMetadata.Table

def icingStates : Names :=
  [(0, "Detector Off"), (1, "No Icing Detected"), (2, "Icing Detected")]

def fieldsOfView : Names :=
  [(0, "Ultranarrow"), (1, "Narrow"), (2, "Medium"), (3, "Wide"), (4, "Ultrawide"),
   (5, "Narrow Medium"), (6, "2x Ultranarrow"), (7, "4x Ultranarrow"), (8, "Continuous Zoom")]

def operationalModes : Names :=
  [(0, "Other"), (1, "Operational"), (2, "Training"), (3, "Exercise"), (4, "Maintenance"),
   (5, "Test")]

def platformStatuses : Names :=
  [(0, "Active"), (1, "Preflight"), (2, "Preflight - Taxiing"), (3, "Run-up"), (4, "Take-off"),
   (5, "Ingress"), (6, "Manual Operation"), (7, "Automated Orbit"), (8, "Transitioning"),
   (9, "Egress"), (10, "Landing"), (11, "Landing - Taxiing"), (12, "Landed - Parked")]

def sensorControlModes : Names :=
  [(0, "Off"), (1, "Home Position"), (2, "Uncontrolled"), (3, "Manual Control"),
   (4, "Calibrating"), (5, "Auto - Holding Position"), (6, "Auto - Tracking")]

/-- The tags of the datalink set. -/
def datalink : Table where
  name := Standard.name .datalink
  unknown := .unknown "KLV_0601_UNKNOWN"
  known := [
    { tag := 1, symbol := "KLV_0601_CHECKSUM"
      name := "Checksum"
      format := .unsigned 2, count := .exactly 0
      description := "Checksum used to detect errors within a ST 0601 packet." },
    { tag := 2, symbol := "KLV_0601_PRECISION_TIMESTAMP"
      name := "Precision Timestamp"
      format := .unsigned 8, count := .exactly 1
      description := "Timestamp for all metadata in a ST 0601 local set. Used to " ++
        "coordinate with Motion Imagery." },
    { tag := 3, symbol := "KLV_0601_MISSION_ID"
      name := "Mission ID"
      format := .text
      description := "Descriptive mission identifier to distinguish an event or " ++
        "sortie." },
    { tag := 4, symbol := "KLV_0601_PLATFORM_TAIL_NUMBER"
      name := "Platform Tail Number"
      format := .text
      description := "Identifier of platform as posted." },
    { tag := 5, symbol := "KLV_0601_PLATFORM_HEADING_ANGLE"
      name := "Platform Heading Angle"
      format := .linear 0 360 2
      description := "Angle between longitudinal axis and true north measured in " ++
        "the horizontal plane. Angles increase in a clockwise direction when " ++
        "looking from above the platform. Measured in degrees." },
    { tag := 6, symbol := "KLV_0601_PLATFORM_PITCH_ANGLE"
      name := "Platform Pitch Angle"
      format := .centered 20 2
      description := "Angle between longitudinal axis and horizonal plane. Positive " ++
        "angles above horizonal plane. Measured in degrees." },
    { tag := 7, symbol := "KLV_0601_PLATFORM_ROLL_ANGLE"
      name := "Platform Roll Angle"
      format := .centered 50 2
      description := "Angle between transverse axis and transverse-longitudinal " ++
        "plane. Measured in degrees." },
    { tag := 8, symbol := "KLV_0601_PLATFORM_TRUE_AIRSPEED"
      name := "Platform True Airspeed"
      format := .linear 0 255 1
      description := "True airspeed of the platform: indicated airspeed adjusted " ++
        "for temperature and altitude. Measured in meters per second." },
    { tag := 9, symbol := "KLV_0601_PLATFORM_INDICATED_AIRSPEED"
      name := "Platform Indicated Airspeed"
      format := .linear 0 255 1
      description := "Indicated airspeed of the platform. Derived from Pitot tube " ++
        "and static pressure sensors. Measured in meters per second." },
    { tag := 10, symbol := "KLV_0601_PLATFORM_DESIGNATION"
      name := "Platform Designation"
      format := .text
      description := "Model name for the platform. Examples: 'Predator', 'Reaper'." },
    { tag := 11, symbol := "KLV_0601_IMAGE_SOURCE_SENSOR"
      name := "Image Source Sensor"
      format := .text
      description := "Name of the currently active sensor. Examples: 'EO Nose', " ++
        "'TESAR Imagery'." },
    { tag := 12, symbol := "KLV_0601_IMAGE_COORDINATE_SYSTEM"
      name := "Image Coordinate System"
      format := .text
      description := "Name of the image coordinate system used." },
    { tag := 13, symbol := "KLV_0601_SENSOR_LATITUDE"
      name := "Sensor Latitude"
      format := .centered 90 4
      description := "Latitude of the currently active sensor, based on WGS84 " ++
        "ellipsoid." },
    { tag := 14, symbol := "KLV_0601_SENSOR_LONGITUDE"
      name := "Sensor Longitude"
      format := .centered 180 4
      description := "Longitude of the currently active sensor, based on WGS84 " ++
        "ellipsoid." },
    { tag := 15, symbol := "KLV_0601_SENSOR_TRUE_ALTITUDE"
      name := "Sensor True Altitude"
      format := .linear (-900) 19000 2
      description := "Altitude of the currently active sensor, relative to Mean Sea " ++
        "Level. Measured in meters." },
    { tag := 16, symbol := "KLV_0601_SENSOR_HORIZONTAL_FOV"
      name := "Sensor Horizontal Field of View"
      format := .linear 0 180 2
      description := "Horizonal field of view of the currently active sensor. " ++
        "Measured in degrees." },
    { tag := 17, symbol := "KLV_0601_SENSOR_VERTICAL_FOV"
      name := "Sensor Vertical Field of View"
      format := .linear 0 180 2
      description := "Vertical field of view of the currently active sensor. " ++
        "Measured in degrees." },
    { tag := 18, symbol := "KLV_0601_SENSOR_RELATIVE_AZIMUTH_ANGLE"
      name := "Sensor Relative Azimuth Angle"
      format := .linear 0 360 4
      description := "Relative rotation angle of the currently active sensor to the " ++
        "platform longitudinal axis. Measured in degrees." },
    { tag := 19, symbol := "KLV_0601_SENSOR_RELATIVE_ELEVATION_ANGLE"
      name := "Sensor Relative Elevation Angle"
      format := .centered 180 4
      description := "Relative elevation angle of the currently active sensor to " ++
        "the platform longitudinal-transverse plane. Measured in degrees." },
    { tag := 20, symbol := "KLV_0601_SENSOR_RELATIVE_ROLL_ANGLE"
      name := "Sensor Relative Roll Angle"
      format := .linear 0 360 4
      description := "Relative roll angle of the currently active sensor to the " ++
        "platform. Measured in degrees." },
    { tag := 21, symbol := "KLV_0601_SLANT_RANGE"
      name := "Slant Range"
      format := .linear 0 5000000 4
      description := "Distance between currently active sensor and the image " ++
        "center. Measured in meters." },
    { tag := 22, symbol := "KLV_0601_TARGET_WIDTH"
      name := "Target Width"
      format := .linear 0 10000 2
      description := "Target width within sensor field of view. Measured in meters." },
    { tag := 23, symbol := "KLV_0601_FRAME_CENTER_LATITUDE"
      name := "Frame Center Latitude"
      format := .centered 90 4
      description := "Latitude of image center, based on WGS84 ellipsoid." },
    { tag := 24, symbol := "KLV_0601_FRAME_CENTER_LONGITUDE"
      name := "Frame Center Longitude"
      format := .centered 180 4
      description := "Longitude of image center, based on WGS84 ellipsoid." },
    { tag := 25, symbol := "KLV_0601_FRAME_CENTER_ELEVATION"
      name := "Frame Center Elevation"
      format := .linear (-900) 19000 2
      description := "Altitude of image center, relative to Mean Sea Level." },
    { tag := 26, symbol := "KLV_0601_OFFSET_CORNER_LATITUDE_POINT_1"
      name := "Offset Corner Latitude Point 1"
      format := .centered 0.075 2
      description := "Latitude offset for the upper left corner of the image." },
    { tag := 27, symbol := "KLV_0601_OFFSET_CORNER_LONGITUDE_POINT_1"
      name := "Offset Corner Longitude Point 1"
      format := .centered 0.075 2
      description := "Longitude offset for the upper left corner of the image." },
    { tag := 28, symbol := "KLV_0601_OFFSET_CORNER_LATITUDE_POINT_2"
      name := "Offset Corner Latitude Point 2"
      format := .centered 0.075 2
      description := "Latitude offset for the upper right corner of the image." },
    { tag := 29, symbol := "KLV_0601_OFFSET_CORNER_LONGITUDE_POINT_2"
      name := "Offset Corner Longitude Point 2"
      format := .centered 0.075 2
      description := "Longitude offset for the upper right corner of the image." },
    { tag := 30, symbol := "KLV_0601_OFFSET_CORNER_LATITUDE_POINT_3"
      name := "Offset Corner Latitude Point 3"
      format := .centered 0.075 2
      description := "Latitude offset for the lower right corner of the image." },
    { tag := 31, symbol := "KLV_0601_OFFSET_CORNER_LONGITUDE_POINT_3"
      name := "Offset Corner Longitude Point 3"
      format := .centered 0.075 2
      description := "Longitude offset for the lower right corner of the image." },
    { tag := 32, symbol := "KLV_0601_OFFSET_CORNER_LATITUDE_POINT_4"
      name := "Offset Corner Latitude Point 4"
      format := .centered 0.075 2
      description := "Latitude offset for the lower left corner of the image." },
    { tag := 33, symbol := "KLV_0601_OFFSET_CORNER_LONGITUDE_POINT_4"
      name := "Offset Corner Longitude Point 4"
      format := .centered 0.075 2
      description := "Longitude offset for the lower left corner of the image." },
    { tag := 34, symbol := "KLV_0601_ICING_DETECTED"
      name := "Icing Detected"
      format := .code "icing detected" icingStates
      description := "Flag for whether icing is detected on the aircraft." },
    { tag := 35, symbol := "KLV_0601_WIND_DIRECTION"
      name := "Wind Direction"
      format := .linear 0 360 2
      description := "Wind direction at the aircraft's location relative to true " ++
        "north. Angle increases in a clockwise direction when looking from above " ++
        "the platform. Measured in degrees." },
    { tag := 36, symbol := "KLV_0601_WIND_SPEED"
      name := "Wind Speed"
      format := .linear 0 100 1
      description := "Wind speed at the aircraft's location. Measured in meters per " ++
        "second." },
    { tag := 37, symbol := "KLV_0601_STATIC_PRESSURE"
      name := "Static Pressure"
      format := .linear 0 5000 2
      description := "Static pressure at the aircraft's location. Measured in " ++
        "millibar." },
    { tag := 38, symbol := "KLV_0601_DENSITY_ALTITUDE"
      name := "Density Altitude"
      format := .linear (-900) 19000 2
      description := "Density altitude at the aircraft's location. Measured in meters." },
    { tag := 39, symbol := "KLV_0601_OUTSIDE_AIR_TEMPERATURE"
      name := "Outside Air Temperature"
      format := .centered 127 1
      description := "Temperature outside of the aircraft. Measured in degrees " ++
        "Celsius." },
    { tag := 40, symbol := "KLV_0601_TARGET_LOCATION_LATITUDE"
      name := "Target Location Latitude"
      format := .centered 90 4
      description := "Calculated target latitude, based on WGS84 ellipsoid. Tracks " ++
        "crosshair, not image center." },
    { tag := 41, symbol := "KLV_0601_TARGET_LOCATION_LONGITUDE"
      name := "Target Location Longitude"
      format := .centered 180 4
      description := "Calculated target longitude, based on WGS84 ellipsoid. Tracks " ++
        "crosshair, not image center." },
    { tag := 42, symbol := "KLV_0601_TARGET_LOCATION_ELEVATION"
      name := "Target Location Elevation"
      format := .linear (-900) 19000 2
      description := "Calculated target altitude, relative to Mean Sea Level. " ++
        "Tracks crosshair, not image center. Measured in meters." },
    { tag := 43, symbol := "KLV_0601_TARGET_TRACK_GATE_WIDTH"
      name := "Target Track Gate Width"
      format := .linear 0 510 1
      description := "Width of box around tracked target. Measured in pixels." },
    { tag := 44, symbol := "KLV_0601_TARGET_TRACK_GATE_HEIGHT"
      name := "Target Track Gate Height"
      format := .linear 0 510 1
      description := "Height of box around tracked target. Measured in pixels." },
    { tag := 45, symbol := "KLV_0601_TARGET_ERROR_ESTIMATE_CE90"
      name := "Target Error Estimate - CE90"
      format := .linear 0 4095 2
      description := "Radius of 90% confidence for the target location in the " ++
        "horizonal direction. Measured in meters." },
    { tag := 46, symbol := "KLV_0601_TARGET_ERROR_ESTIMATE_LE90"
      name := "Target Error Estimate - LE90"
      format := .linear 0 4095 2
      description := "Radius of 90% confidence for the target location in the " ++
        "vertical direction. Measured in meters." },
    { tag := 47, symbol := "KLV_0601_GENERIC_FLAG_DATA"
      name := "Generic Flag Data"
      format := .unsigned 1
      description := "Bits representing miscellaneous boolean values." },
    { tag := 48, symbol := "KLV_0601_SECURITY_LOCAL_SET"
      name := "Security Local Set"
      format := .nested .security
      description := "MISB ST 0102 local set for security metadata." },
    { tag := 49, symbol := "KLV_0601_DIFFERENTIAL_PRESSURE"
      name := "Differential Pressure"
      format := .linear 0 5000 2
      description := "Differential pressure at the aircraft's location. Equal to " ++
        "total pressure minus static pressure. Measured in millibar." },
    { tag := 50, symbol := "KLV_0601_PLATFORM_ANGLE_OF_ATTACK"
      name := "Platform Angle of Attack"
      format := .centered 20 2
      description := "Vertical angle between the platform longitudinal axis and the " ++
        "relative wind. Measured in degrees." },
    { tag := 51, symbol := "KLV_0601_PLATFORM_VERTICAL_SPEED"
      name := "Platform Vertical Speed"
      format := .centered 180 2
      description := "Vertical speed of aircraft in the zenith direction. Measured " ++
        "in meters per second." },
    { tag := 52, symbol := "KLV_0601_PLATFORM_SIDESLIP_ANGLE"
      name := "Platform Sideslip Angle"
      format := .centered 20 2
      description := "Horizontal angle between the platform longitudinal axis and " ++
        "the relative wind. Angle increases in a clockwise direction when looking " ++
        "from above the platform. Measured in degrees." },
    { tag := 53, symbol := "KLV_0601_AIRFIELD_BAROMETRIC_PRESSURE"
      name := "Airfield Barometric Pressure"
      format := .linear 0 5000 2
      description := "Local pressure at the airfield. Measured in millibar." },
    { tag := 54, symbol := "KLV_0601_AIRFIELD_ELEVATION"
      name := "Airfield Elevation"
      format := .linear (-900) 19000 2
      description := "Altitude of the airfield, relative to Mean Sea Level. " ++
        "Measured in meters." },
    { tag := 55, symbol := "KLV_0601_RELATIVE_HUMIDITY"
      name := "Relative Humidity"
      format := .linear 0 100 1
      description := "Relative humidity at the aircraft location. Ratio between the " ++
        "current water vapor density and the saturation point of water vapor " ++
        "density. Measured in percent." },
    { tag := 56, symbol := "KLV_0601_PLATFORM_GROUND_SPEED"
      name := "Platform Ground Speed"
      format := .linear 0 255 1
      description := "Speed of the aircraft when projected onto the ground plane." },
    { tag := 57, symbol := "KLV_0601_GROUND_RANGE"
      name := "Ground Range"
      format := .linear 0 5000000 4
      description := "Horizontal distance between the aircraft and the target of " ++
        "interest." },
    { tag := 58, symbol := "KLV_0601_PLATFORM_FUEL_REMAINING"
      name := "Platform Fuel Remaining"
      format := .linear 0 10000 2
      description := "Current weight of fuel present on the aircraft. Measured in " ++
        "kilograms." },
    { tag := 59, symbol := "KLV_0601_PLATFORM_CALL_SIGN"
      name := "Platform Call Sign"
      format := .text
      description := "Call sign of the platform or operating unit." },
    { tag := 60, symbol := "KLV_0601_WEAPON_LOAD"
      name := "Weapon Load"
      format := .unsigned 2
      description := "Current weapons stored on aircraft. Deprecated by Item 140 " ++
        "(Weapon Stores)." },
    { tag := 61, symbol := "KLV_0601_WEAPON_FIRED"
      name := "Weapon Fired"
      format := .unsigned 1
      description := "Signal when a particular weapon is released." },
    { tag := 62, symbol := "KLV_0601_LASER_PRF_CODE"
      name := "Laser PRF Code"
      format := .unsigned 2
      description := "A laser's pulse repetition frequency used to mark a target. " ++
        "Three or four digit number with digits 1-8." },
    { tag := 63, symbol := "KLV_0601_SENSOR_FOV_NAME"
      name := "Sensor Field of View Name"
      format := .code "sensor FOV name" fieldsOfView
      description := "Current lens type." },
    { tag := 64, symbol := "KLV_0601_PLATFORM_MAGNETIC_HEADING"
      name := "Platform Magnetic Heading"
      format := .linear 0 360 2
      description := "Angle between longitudingal axis and Magnetic North measured " ++
        "in the horizontal plane. Measured in degrees." },
    { tag := 65, symbol := "KLV_0601_VERSION_NUMBER"
      name := "UAS Datalink LS Version Number"
      format := .unsigned 1, count := .exactly 1
      description := "Major version of MISB ST 0601 used as the source standard " ++
        "when encoding this local set." },
    { tag := 66, symbol := "KLV_0601_DEPRECATED"
      name := "Deprecated Tag"
      format := .bytes, count := .exactly 0
      description := "This item is deprecated." },
    { tag := 67, symbol := "KLV_0601_ALTERNATE_PLATFORM_LATITUDE"
      name := "Alternate Platform Latitude"
      format := .centered 90 4
      description := "Latitude of the platform connected to the UAS via direct " ++
        "datalink." },
    { tag := 68, symbol := "KLV_0601_ALTERNATE_PLATFORM_LONGITUDE"
      name := "Alternate Platform Longitude"
      format := .centered 180 4
      description := "Longitude of the platform connected to the UAS via direct " ++
        "datalink." },
    { tag := 69, symbol := "KLV_0601_ALTERNATE_PLATFORM_ALTITUDE"
      name := "Alternate Platform Altitude"
      format := .linear (-900) 19000 2
      description := "Altitude of the platform connected to the UAS via direct " ++
        "datalink." },
    { tag := 70, symbol := "KLV_0601_ALTERNATE_PLATFORM_NAME"
      name := "Alternate Platform Name"
      format := .text
      description := "Name of the platform connected to the UAS via direct " ++
        "datalink. Examples: 'Apache', 'Rover'." },
    { tag := 71, symbol := "KLV_0601_ALTERNATE_PLATFORM_HEADING"
      name := "Alternate Platform Heading"
      format := .linear 0 360 2
      description := "Heading angle of the platform connected to the UAS via direct " ++
        "datalink." },
    { tag := 72, symbol := "KLV_0601_EVENT_START_TIME"
      name := "Event Start Time"
      format := .unsigned 8
      description := "Start time of scene, project, event, mission, editing event, " ++
        "license, publication, etc, represented in the number of UTC microseconds " ++
        "elapsed since midnight, January 1, 1970." },
    { tag := 73, symbol := "KLV_0601_RVT_LOCAL_SET"
      name := "RVT Local Set"
      format := .nested .terminal
      description := "MISB ST 0806 local set for remote video terminals." },
    { tag := 74, symbol := "KLV_0601_VMTI_LOCAL_SET"
      name := "VMTI Local Set"
      format := .nested .movingTarget
      description := "MISB ST 0903 local set for the video moving target indicator." },
    { tag := 75, symbol := "KLV_0601_SENSOR_ELLIPSOID_HEIGHT"
      name := "Sensor Ellipsoid Height"
      format := .linear (-900) 19000 2
      description := "Altitude of the currently active sensor, relative to the " ++
        "WGS84 ellipsoid." },
    { tag := 76, symbol := "KLV_0601_ALTERNATE_PLATFORM_ELLIPSOID_HEIGHT"
      name := "Alternate Platform Ellipsoid Height"
      format := .linear (-900) 19000 2
      description := "Altitude of the platform connected to the UAS via direct " ++
        "datalink, relative to the WGS84 ellipsoid." },
    { tag := 77, symbol := "KLV_0601_OPERATIONAL_MODE"
      name := "Operational Mode"
      format := .code "operational mode" operationalModes
      description := "Mode of operation of the event portrayed in the Motion Imagery." },
    { tag := 78, symbol := "KLV_0601_FRAME_CENTER_ELLIPSOID_HEIGHT"
      name := "Frame Center Height Above Ellipsoid"
      format := .linear (-900) 19000 2
      description := "Altitude of frame center, relative to the WGS84 ellipsoid." },
    { tag := 79, symbol := "KLV_0601_SENSOR_NORTH_VELOCITY"
      name := "Sensor North Velocity"
      format := .centered 327 2
      description := "Northing velocity of the sensor or platform." },
    { tag := 80, symbol := "KLV_0601_SENSOR_EAST_VELOCITY"
      name := "Sensor East Velocity"
      format := .centered 327 2
      description := "Easting velocity of the sensor or platform." },
    { tag := 81, symbol := "KLV_0601_IMAGE_HORIZON_PIXEL_PACK"
      name := "Image Horizon Pixel Pack"
      format := .bytes
      description := "Location of earth-sky horizon in the image." },
    { tag := 82, symbol := "KLV_0601_FULL_CORNER_LATITUDE_POINT_1"
      name := "Corner Latitude Point 1 (Full)"
      format := .centered 90 4
      description := "Latitude for the upper left corner of the image." },
    { tag := 83, symbol := "KLV_0601_FULL_CORNER_LONGITUDE_POINT_1"
      name := "Corner Longitude Point 1 (Full)"
      format := .centered 180 4
      description := "Longitude for the upper left corner of the image." },
    { tag := 84, symbol := "KLV_0601_FULL_CORNER_LATITUDE_POINT_2"
      name := "Corner Latitude Point 2 (Full)"
      format := .centered 90 4
      description := "Latitude for the upper right corner of the image." },
    { tag := 85, symbol := "KLV_0601_FULL_CORNER_LONGITUDE_POINT_2"
      name := "Corner Longitude Point 2 (Full)"
      format := .centered 180 4
      description := "Longitude for the upper right corner of the image." },
    { tag := 86, symbol := "KLV_0601_FULL_CORNER_LATITUDE_POINT_3"
      name := "Corner Latitude Point 3 (Full)"
      format := .centered 90 4
      description := "Latitude for the lower right corner of the image." },
    { tag := 87, symbol := "KLV_0601_FULL_CORNER_LONGITUDE_POINT_3"
      name := "Corner Longitude Point 3 (Full)"
      format := .centered 180 4
      description := "Longitude for the lower right corner of the image." },
    { tag := 88, symbol := "KLV_0601_FULL_CORNER_LATITUDE_POINT_4"
      name := "Corner Latitude Point 4 (Full)"
      format := .centered 90 4
      description := "Latitude for the lower left corner of the image." },
    { tag := 89, symbol := "KLV_0601_FULL_CORNER_LONGITUDE_POINT_4"
      name := "Corner Longitude Point 4 (Full)"
      format := .centered 180 4
      description := "Longitude for the lower left corner of the image." },
    { tag := 90, symbol := "KLV_0601_FULL_PLATFORM_PITCH_ANGLE"
      name := "Platform Pitch Angle (Full)"
      format := .centered 90 4
      description := "Angle between longitudinal axis and horizonal plane. Positive " ++
        "angles above horizonal plane. Measured in degrees." },
    { tag := 91, symbol := "KLV_0601_FULL_PLATFORM_ROLL_ANGLE"
      name := "Platform Roll Angle (Full)"
      format := .centered 90 4
      description := "Angle between transverse axis and transverse-longitudinal " ++
        "plane. Measured in degrees." },
    { tag := 92, symbol := "KLV_0601_FULL_PLATFORM_ANGLE_OF_ATTACK"
      name := "Platform Angle of Attack (Full)"
      format := .centered 90 4
      description := "Vertical angle between the platform longitudinal axis and the " ++
        "relative wind. Measured in degrees." },
    { tag := 93, symbol := "KLV_0601_FULL_PLATFORM_SIDESLIP_ANGLE"
      name := "Platform Sideslip Angle (Full)"
      format := .centered 180 4
      description := "Horizontal angle between the platform longitudinal axis and " ++
        "the relative wind. Angle increases in a clockwise direction when looking " ++
        "from above the platform. Measured in degrees." },
    { tag := 94, symbol := "KLV_0601_MIIS_CORE_IDENTIFIER"
      name := "MIIS Core Identifier"
      format := .plain .identity
      description := "Binary value of MISB ST 1201 core identifier." },
    { tag := 95, symbol := "KLV_0601_SAR_MOTION_IMAGERY_LOCAL_SET"
      name := "SAR Motion Imagery Local Set"
      format := .nested .radar
      description := "MISB ST 1206 local set for synthetic aperture radar Motion " ++
        "Imagery." },
    { tag := 96, symbol := "KLV_0601_TARGET_WIDTH_EXTENDED"
      name := "Target Width Extended"
      format := .scaled 0 1500000 3
      description := "Target width within sensor field of view. Measured in meters." },
    { tag := 97, symbol := "KLV_0601_RANGE_IMAGE_LOCAL_SET"
      name := "Range Image Local Set"
      format := .nested .rangeImage
      description := "MISB ST 1002 local set for range images." },
    { tag := 98, symbol := "KLV_0601_GEOREGISTRATION_LOCAL_SET"
      name := "Geo-Registration Local Set"
      format := .nested .registration
      description := "MISB ST 1601 local set for geo-registration." },
    { tag := 99, symbol := "KLV_0601_COMPOSITE_IMAGING_LOCAL_SET"
      name := "Composite Imaging Local Set"
      format := .nested .composite
      description := "MISB ST 1602 local set for composite imaging." },
    { tag := 100, symbol := "KLV_0601_SEGMENT_LOCAL_SET"
      name := "Segment Local Set"
      format := .nested .datalink, count := .any
      description := "MISB ST 1607 Segment local set for metadata sharing across " ++
        "parent and child sets." },
    { tag := 101, symbol := "KLV_0601_AMEND_LOCAL_SET"
      name := "Amend Local Set"
      format := .nested .datalink, count := .any
      description := "MISB ST 1607 Amend local set for metadata corrections." },
    { tag := 102, symbol := "KLV_0601_SDCC_FLP"
      name := "SDCC-FLP"
      format := .plain (.correlation []), count := .any
      description := "MISB ST 1010 floating length pack for standard deviation and " ++
        "cross-correlation metadata." },
    { tag := 103, symbol := "KLV_0601_DENSITY_ALTITUDE_EXTENDED"
      name := "Density Altitude Extended"
      format := .scaled (-900) 40000 3
      description := "Density altitude at the aircraft's location. Measured in meters." },
    { tag := 104, symbol := "KLV_0601_SENSOR_ELLIPSOID_HEIGHT_EXTENDED"
      name := "Sensor Ellipsoid Height Extended"
      format := .scaled (-900) 40000 3
      description := "Altitude of the currently active sensor, relative to the " ++
        "WGS84 ellipsoid." },
    { tag := 105, symbol := "KLV_0601_ALTERNATE_PLATFORM_ELLIPSOID_HEIGHT_EXTENDED"
      name := "Alternate Platform Ellipsoid Height Extended"
      format := .scaled (-900) 40000 3
      description := "Altitude of the platform connected to the UAS via direct " ++
        "datalink, relative to the WGS84 ellipsoid." },
    { tag := 106, symbol := "KLV_0601_STREAM_DESIGNATOR"
      name := "Stream Designator"
      format := .text
      description := "Shorthand descriptor for a particular Motion Imagery data " ++
        "stream, typically delivered over IP." },
    { tag := 107, symbol := "KLV_0601_OPERATIONAL_BASE"
      name := "Operational Base"
      format := .text
      description := "Indicates the location for the launch recovery equipment." },
    { tag := 108, symbol := "KLV_0601_BROADCAST_SOURCE"
      name := "Broadcast Source"
      format := .text
      description := "Location where the Motion Imagery is first broadcast. " ++
        "Examples: 'Creech', 'Cannon'." },
    { tag := 109, symbol := "KLV_0601_RANGE_TO_RECOVERY_LOCATION"
      name := "Range to Recovery Location"
      format := .scaled 0 21000 3
      description := "Distance from current position to airframe recovery position. " ++
        "Measured in kilometers." },
    { tag := 110, symbol := "KLV_0601_TIME_AIRBORNE"
      name := "Time Airborne"
      format := .anyUnsigned
      description := "Number of seconds the aircraft has been airborne." },
    { tag := 111, symbol := "KLV_0601_PROPULSION_UNIT_SPEED"
      name := "Propulsion Unit Speed"
      format := .anyUnsigned
      description := "Speed at which the engine or motor is rotating." },
    { tag := 112, symbol := "KLV_0601_PLATFORM_COURSE_ANGLE"
      name := "Platform Course Angle"
      format := .scaled 0 360 2
      description := "Angle between aircraft velocity vector and true north " ++
        "measured in the horizontal plane. Angles increase in a clockwise direction " ++
        "when looking from above the platform. Measured in degrees." },
    { tag := 113, symbol := "KLV_0601_ALTITUDE_ABOVE_GROUND_LEVEL"
      name := "Altitude Above Ground Level"
      format := .scaled (-900) 40000 3
      description := "Vertical distance between the aircraft and the ground or " ++
        "water. Measured in meters." },
    { tag := 114, symbol := "KLV_0601_RADAR_ALTIMETER"
      name := "Radar Altimeter"
      format := .scaled (-900) 40000 3
      description := "Vertical distance between the aircraft and the ground or " ++
        "water, as measured by a radar altimeter." },
    { tag := 115, symbol := "KLV_0601_CONTROL_COMMAND"
      name := "Control Command"
      format := .bytes, count := .any
      description := "Record of command from ground control station to aircraft." },
    { tag := 116, symbol := "KLV_0601_CONTROL_COMMAND_VERIFICATION_LIST"
      name := "Control Command Verification List"
      format := .bytes
      description := "Acknowledgement from the platform that one or more control " ++
        "commands were received." },
    { tag := 117, symbol := "KLV_0601_SENSOR_AZIMUTH_RATE"
      name := "Sensor Azimuth Rate"
      format := .scaled (-1000) 1000 3
      description := "Rate at which the sensor is rotating clockwise, when looking " ++
        "down from above the aircraft. Measured in degrees per second." },
    { tag := 118, symbol := "KLV_0601_SENSOR_ELEVATION_RATE"
      name := "Sensor Elevation Rate"
      format := .scaled (-1000) 1000 3
      description := "Rate at which the sensor is rotating clockwise, when looking " ++
        "at the aircraft from the side such that the aircraft is pointing left. " ++
        "Measured in degrees per second." },
    { tag := 119, symbol := "KLV_0601_SENSOR_ROLL_RATE"
      name := "Sensor Roll Rate"
      format := .scaled (-1000) 1000 3
      description := "Rate at which the sensor is rotating clockwise, when looking " ++
        "from behind the sensor. Measured in degrees per second." },
    { tag := 120, symbol := "KLV_0601_ONBOARD_MI_STORAGE_PERCENT_FULL"
      name := "On-board MI Storage Percent Full"
      format := .scaled 0 100 2
      description := "Amount of on-board Motion Imagery storage used as a " ++
        "percentage of total storage." },
    { tag := 121, symbol := "KLV_0601_ACTIVE_WAVELENGTH_LIST"
      name := "Active Wavelength List"
      format := .bytes
      description := "List of wavelengths used by the sensor to generate the Motion " ++
        "Imagery." },
    { tag := 122, symbol := "KLV_0601_COUNTRY_CODES"
      name := "Country Codes"
      format := .bytes
      description := "Countries which are associated with the platform and its " ++
        "operation." },
    { tag := 123, symbol := "KLV_0601_NUMBER_OF_NAVSATS_IN_VIEW"
      name := "Number of NAVSATs in View"
      format := .unsigned 1
      description := "Number of satellites used to determine position." },
    { tag := 124, symbol := "KLV_0601_POSITIONING_METHOD_SOURCE"
      name := "Positioning Method Source"
      format := .unsigned 1
      description := "Source of the navigation positioning information." },
    { tag := 125, symbol := "KLV_0601_PLATFORM_STATUS"
      name := "Platform Status"
      format := .code "platform status" platformStatuses
      description := "Operational mode of the platform." },
    { tag := 126, symbol := "KLV_0601_SENSOR_CONTROL_MODE"
      name := "Sensor Control Mode"
      format := .code "sensor control mode" sensorControlModes
      description := "Sensor control operational status." },
    { tag := 127, symbol := "KLV_0601_SENSOR_FRAME_RATE_PACK"
      name := "Sensor Frame Rate Pack"
      format := .bytes
      description := "Frame rate of the Motion Imagery at the sensor." },
    { tag := 128, symbol := "KLV_0601_WAVELENGTHS_LIST"
      name := "Wavelengths List"
      format := .bytes
      description := "List of wavelength bands provided by all available sensors." },
    { tag := 129, symbol := "KLV_0601_TARGET_ID"
      name := "Target ID"
      format := .text
      description := "Alpha-numeric identification of the target." },
    { tag := 130, symbol := "KLV_0601_AIRBASE_LOCATIONS"
      name := "Airbase Locations"
      format := .bytes
      description := "Geographic location of take-off and recovery site." },
    { tag := 131, symbol := "KLV_0601_TAKEOFF_TIME"
      name := "Take-off Time"
      format := .anyUnsigned
      description := "Time when aircraft became airborne." },
    { tag := 132, symbol := "KLV_0601_TRANSMISSION_FREQUENCY"
      name := "Transmission Frequency"
      format := .scaled 1 99999 3
      description := "Radio frequency used to transmit the Motion Imagery. Measured " ++
        "in megahertz." },
    { tag := 133, symbol := "KLV_0601_ONBOARD_MI_STORAGE_CAPACITY"
      name := "On-board MI Storage Capacity"
      format := .anyUnsigned
      description := "Total capacity of on-board Motion Imagery storage. Measured " ++
        "in gigabytes." },
    { tag := 134, symbol := "KLV_0601_ZOOM_PERCENTAGE"
      name := "Zoom Percentage"
      format := .scaled 0 100 2
      description := "For a variable zoom system, the current percentage of zoom." },
    { tag := 135, symbol := "KLV_0601_COMMUNICATIONS_METHOD"
      name := "Communications Method"
      format := .text
      description := "Type of communications used with platform" },
    { tag := 136, symbol := "KLV_0601_LEAP_SECONDS"
      name := "Leap Seconds"
      format := .anySigned
      description := "Number of leap seconds to adjust Precision Timestamp (Item 2) " ++
        "to UTC." },
    { tag := 137, symbol := "KLV_0601_CORRECTION_OFFSET"
      name := "Correction Offset"
      format := .anySigned
      description := "Post-flight time adjustment for Precision Timestamp (Item 2) " ++
        "as needed." },
    { tag := 138, symbol := "KLV_0601_PAYLOAD_LIST"
      name := "Payload List"
      format := .bytes
      description := "List of payloads available on platform." },
    { tag := 139, symbol := "KLV_0601_ACTIVE_PAYLOADS"
      name := "Active Payloads"
      format := .bytes
      description := "List of currently active payloads from the payload list (Item " ++
        "138)." },
    { tag := 140, symbol := "KLV_0601_WEAPONS_STORES"
      name := "Weapons Stores"
      format := .bytes
      description := "List of weapon stores and statuses." },
    { tag := 141, symbol := "KLV_0601_WAYPOINT_LIST"
      name := "Waypoint List"
      format := .bytes
      description := "List of navigational waypoints and their statuses." },
    { tag := 142, symbol := "KLV_0601_VIEW_DOMAIN"
      name := "View Domain"
      format := .bytes
      description := "Specifies range of possible sensor relative azimuth, " ++
        "elevation, and roll values." }]

end MotionMetadata.Table
