import MotionMetadata.Table
import MotionMetadata.Table.Formats

/-!
# Radar imagery

How an image from synthetic aperture radar was collected.
-/

namespace MotionMetadata.Table

def lookDirections : Names :=
  [(0, "Left"), (1, "Right")]

def imagePlanes : Names :=
  [(0, "Slant"), (1, "Ground"), (2, "Other")]

def bearing : Format := .scaled 0 360 2

def grazingAngle : Format := .scaled 0 90 2

def squintAngle : Format := .scaled (-90) 90 2

/-- Meters in the image. -/
def imageSize : Format := .scaled 0 1000000 4

/-- The tags of radar imagery. -/
def radar : Table where
  name := Standard.name .radar
  unknown := .unknown "KLV_1206_UNKNOWN"
  known := [
    { tag := 1, symbol := "KLV_1206_GRAZING_ANGLE"
      name := "Grazing Angle"
      format := grazingAngle, count := .exactly 1
      description := "Angle between the line of sight from the scene reference " ++
        "point to the sensor and the ground plane. Measured in degrees." },
    { tag := 2, symbol := "KLV_1206_GROUND_PLANE_SQUINT_ANGLE"
      name := "Ground Plane Squint Angle"
      format := squintAngle, count := .exactly 1
      description := "Angle between the ground track vector and the radar line of " ++
        "sight, projected onto the ground plane. Measured in degrees." },
    { tag := 3, symbol := "KLV_1206_LOOK_DIRECTION"
      name := "Look Direction"
      format := .code "look direction" lookDirections, count := .exactly 1
      description := "Side of the imaging platform from which the imagery is " ++
        "collected, relative to the velocity vector." },
    { tag := 4, symbol := "KLV_1206_IMAGE_PLANE"
      name := "Image Plane"
      format := .code "image plane" imagePlanes, count := .exactly 1
      description := "Plane in which the SAR images were taken." },
    { tag := 5, symbol := "KLV_1206_RANGE_RESOLUTION"
      name := "Range Resolution"
      format := imageSize, count := .exactly 1
      description := "Minimum distance at which two objects may be resolved in " ++
        "range. Measured in meters." },
    { tag := 6, symbol := "KLV_1206_CROSS_RANGE_RESOLUTION"
      name := "Cross-Range Resolution"
      format := imageSize, count := .exactly 1
      description := "Minimum distance at which two objects may be resolved in " ++
        "cross range. Measured in meters." },
    { tag := 7, symbol := "KLV_1206_RANGE_IMAGE_PLANE_PIXEL_SIZE"
      name := "Range Image Plane Pixel Size"
      format := imageSize, count := .exactly 1
      description := "Pixel size in the range direction. Measured in meters." },
    { tag := 8, symbol := "KLV_1206_CROSS_RANGE_IMAGE_PLANE_PIXEL_SIZE"
      name := "Cross-Range Image Plane Pixel Size"
      format := imageSize, count := .exactly 1
      description := "Pixel size in the cross-range direction. Measured in meters." },
    { tag := 9, symbol := "KLV_1206_IMAGE_ROWS"
      name := "Image Rows"
      format := .unsigned 2, count := .exactly 1
      description := "Height of the image in pixels." },
    { tag := 10, symbol := "KLV_1206_IMAGE_COLUMNS"
      name := "Image Columns"
      format := .unsigned 2, count := .exactly 1
      description := "Width of the image in pixels." },
    { tag := 11, symbol := "KLV_1206_RANGE_DIRECTION_ANGLE"
      name := "Range Direction Angle"
      format := bearing, count := .exactly 1
      description := "Direction of the range vector relative to true north. " ++
        "Measured clockwise in degrees." },
    { tag := 12, symbol := "KLV_1206_TRUE_NORTH"
      name := "True North"
      format := bearing, count := .exactly 1
      description := "Direction of true north relative to the top edge of the " ++
        "image. Measured clockwise in degrees." },
    { tag := 13, symbol := "KLV_1206_RANGE_LAYOVER_ANGLE"
      name := "Range Layover Angle"
      format := bearing
      description := "Direction perpendicular to the sensor ground track at the " ++
        "aperture center, relative to true north." },
    { tag := 14, symbol := "KLV_1206_GROUND_APERTURE_ANGULAR_EXTENT"
      name := "Ground Aperture Angular Extent"
      format := grazingAngle
      description := "Angle swept in cross range as the sensor traverses the " ++
        "synthetic aperture. Measured in degrees." },
    { tag := 15, symbol := "KLV_1206_APERTURE_DURATION"
      name := "Aperture Duration"
      format := .unsigned 4
      description := "Length of the coherent processing period. Measured in " ++
        "microseconds." },
    { tag := 16, symbol := "KLV_1206_GROUND_TRACK_ANGLE"
      name := "Ground Track Angle"
      format := bearing
      description := "Heading of the scene reference point over the ground relative " ++
        "to true north. Measured clockwise in degrees." },
    { tag := 17, symbol := "KLV_1206_MINIMUM_DETECTABLE_VELOCITY"
      name := "Minimum Detectable Velocity"
      format := .scaled 0 100 2
      description := "Radial velocity at which a target on the beam center line " ++
        "leaves the clutter. Measured in meters per second." },
    { tag := 18, symbol := "KLV_1206_TRUE_PULSE_REPETITION_FREQUENCY"
      name := "True Pulse Repetition Frequency"
      format := imageSize
      description := "Time interval between successively transmitted pulses. " ++
        "Measured in microseconds." },
    { tag := 19, symbol := "KLV_1206_PULSE_REPETITION_FREQUENCY_SCALE_FACTOR"
      name := "Pulse Repetition Frequency Scale Factor"
      format := .scaled 0 1 2
      description := "Scale factor giving the effective pulse repetition frequency " ++
        "from the true one." },
    { tag := 20, symbol := "KLV_1206_TRANSMIT_RF_CENTER_FREQUENCY"
      name := "Transmit RF Center Frequency"
      format := .scaled 0 1000000000000 4
      description := "Center frequency of the RF band when linear FM waveforms are " ++
        "employed. Measured in Hertz." },
    { tag := 21, symbol := "KLV_1206_TRANSMIT_RF_BANDWIDTH"
      name := "Transmit RF Bandwidth"
      format := .scaled 0 100000000000 4
      description := "Difference between minimum and maximum transmit frequencies. " ++
        "Measured in Hertz." },
    { tag := 22, symbol := "KLV_1206_RADAR_CROSS_SECTION_SCALE_FACTOR_POLYNOMIAL"
      name := "Radar Cross Section Scale Factor Polynomial"
      format := .plain (.grid (.imap 0 1000000))
      description := "Two-dimensional array of polynomial coefficients giving the " ++
        "radar cross section of a pixel." },
    { tag := 23, symbol := "KLV_1206_REFERENCE_FRAME_PRECISION_TIMESTAMP"
      name := "Reference Frame Precision Timestamp"
      format := .unsigned 8
      description := "For the reference frame: MISP precision timestamp, in " ++
        "microseconds since January 1, 1970." },
    { tag := 24, symbol := "KLV_1206_REFERENCE_FRAME_GRAZING_ANGLE"
      name := "Reference Frame Grazing Angle"
      format := grazingAngle
      description := "For the reference frame: grazing angle, in degrees." },
    { tag := 25, symbol := "KLV_1206_REFERENCE_FRAME_GROUND_PLANE_SQUINT_ANGLE"
      name := "Reference Frame Ground Plane Squint Angle"
      format := squintAngle
      description := "For the reference frame: ground plane squint angle, in degrees." },
    { tag := 26, symbol := "KLV_1206_REFERENCE_FRAME_RANGE_DIRECTION_ANGLE"
      name := "Reference Frame Range Direction Angle"
      format := bearing
      description := "For the reference frame: range direction angle, measured " ++
        "clockwise in degrees." },
    { tag := 27, symbol := "KLV_1206_REFERENCE_FRAME_RANGE_LAYOVER_ANGLE"
      name := "Reference Frame Range Layover Angle"
      format := bearing
      description := "For the reference frame: range layover angle, measured " ++
        "clockwise in degrees." },
    { tag := 28, symbol := "KLV_1206_DOCUMENT_VERSION"
      name := "Document Version"
      format := .unsigned 1, count := .exactly 1
      description := "Version of MISB ST1206 used to encode the SAR metadata." }]

end MotionMetadata.Table
