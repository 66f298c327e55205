import MotionMetadata.Table
import MotionMetadata.Table.Formats

/-!
# Moving targets

Detections in one frame. Each target has a set of its own, and the sets of the algorithms and
of the ontologies it refers to are listed beside the targets.
-/

namespace MotionMetadata.Table

/-- Degrees from the center of the frame. -/
def centerOffset : Format := .scaled (-19.2) 19.2 3

/-- The tags of one frame of detections. -/
def movingTarget : Table where
  name := Standard.name .movingTarget
  unknown := .unknown "KLV_0903_UNKNOWN"
  known := [
    { tag := 1, symbol := "KLV_0903_CHECKSUM"
      name := "Checksum"
      format := .unsigned 2, count := .exactly 0
      description := "Checksum used to detect errors within a ST 0903 packet." },
    { tag := 2, symbol := "KLV_0903_PRECISION_TIMESTAMP"
      name := "Precision Timestamp"
      format := .anyUnsigned
      description := "Microseconds since January 1st, 1970." },
    { tag := 3, symbol := "KLV_0903_VMTI_SYSTEM_NAME"
      name := "VMTI System Name"
      format := .text
      description := "Name or description of the VMTI system producing the targets." },
    { tag := 4, symbol := "KLV_0903_VERSION"
      name := "VMTI LS Version"
      format := .anyUnsigned, count := .exactly 1
      description := "Version of MISB ST 0903 used as the source standard when " ++
        "encoding this set." },
    { tag := 5, symbol := "KLV_0903_NUM_TARGETS_DETECTED"
      name := "Total Number of Targets Detected"
      format := .anyUnsigned
      description := "Total number of targets detected in a frame." },
    { tag := 6, symbol := "KLV_0903_NUM_TARGETS_REPORTED"
      name := "Number of Targets Reported"
      format := .anyUnsigned
      description := "Number of targets reported following a culling process." },
    { tag := 7, symbol := "KLV_0903_FRAME_NUMBER"
      name := "Frame Number"
      format := .anyUnsigned
      description := "Frame number identifying detected targets." },
    { tag := 8, symbol := "KLV_0903_FRAME_WIDTH"
      name := "Frame Width"
      format := .anyUnsigned
      description := "Width of the Motion Imagery frame in pixels." },
    { tag := 9, symbol := "KLV_0903_FRAME_HEIGHT"
      name := "Frame Height"
      format := .anyUnsigned
      description := "Height of the Motion Imagery frame in pixels." },
    { tag := 10, symbol := "KLV_0903_SOURCE_SENSOR"
      name := "VMTI Source Sensor"
      format := .text
      description := "Name of VMTI source sensor. Examples: 'EO Nose', 'EO Zoom " ++
        "(DLTV)'." },
    { tag := 11, symbol := "KLV_0903_HORIZONTAL_FOV"
      name := "VMTI Horizontal FOV"
      format := .scaled 0 180 2
      description := "Horizonal field of view of sensor input to the VMTI process." },
    { tag := 12, symbol := "KLV_0903_VERTICAL_FOV"
      name := "VMTI Vertical FOV"
      format := .scaled 0 180 2
      description := "Vertical field of view of sensor input to the VMTI process." },
    { tag := 13, symbol := "KLV_0903_MIIS_ID"
      name := "MIIS ID"
      format := .plain .identity
      description := "A Motion Imagery Identification System Core Identifier " ++
        "conformant with MISB ST 1204." },
    { tag := 101, symbol := "KLV_0903_VTARGET_SERIES"
      name := "VTarget Series"
      format := .series (.idPack .target)
      description := "A series of VTarget packs." },
    { tag := 102, symbol := "KLV_0903_ALGORITHM_SERIES"
      name := "Algorithm Series"
      format := .series (.nested .algorithm)
      description := "A series of algorithm local sets." },
    { tag := 103, symbol := "KLV_0903_ONTOLOGY_SERIES"
      name := "Ontology Series"
      format := .series (.nested .ontology)
      description := "A series of ontology local sets." }]

/-- The tags of one target. -/
def target : Table where
  name := Standard.name .target
  unknown := .unknown "KLV_0903_VTARGET_UNKNOWN"
  known := [
    { tag := 1, symbol := "KLV_0903_VTARGET_CENTROID"
      name := "Target Centroid"
      format := .anyUnsigned
      description := "Index of the centroid pixel, computed as (row - 1) * width + " ++
        "column with 1-indexed row and column." },
    { tag := 2, symbol := "KLV_0903_VTARGET_BOUNDARY_TOP_LEFT"
      name := "Boundary Top Left"
      format := .anyUnsigned
      description := "Index of the top-left corner pixel of the target bounding box." },
    { tag := 3, symbol := "KLV_0903_VTARGET_BOUNDARY_BOTTOM_RIGHT"
      name := "Boundary Bottom Right"
      format := .anyUnsigned
      description := "Index of the bottom-right corner pixel of the target bounding " ++
        "box." },
    { tag := 4, symbol := "KLV_0903_VTARGET_PRIORITY"
      name := "Target Priority"
      format := .unsigned 1
      description := "Provides downstream systems a means to cull targets. Lower " ++
        "numbers are higher priority." },
    { tag := 5, symbol := "KLV_0903_VTARGET_CONFIDENCE_LEVEL"
      name := "Target Confidence Level"
      format := .unsigned 1
      description := "Confidence level, as a percentage, of the target detection." },
    { tag := 6, symbol := "KLV_0903_VTARGET_HISTORY"
      name := "Target History"
      format := .anyUnsigned
      description := "Number of times a target has previously been detected." },
    { tag := 7, symbol := "KLV_0903_VTARGET_PERCENTAGE_OF_TARGET_PIXELS"
      name := "Percentage of Target Pixels"
      format := .unsigned 1
      description := "Integer percentage of the pixels in the image classified as " ++
        "target pixels." },
    { tag := 8, symbol := "KLV_0903_VTARGET_COLOR"
      name := "Target Color"
      format := .unsigned 3
      description := "Dominant color of the target, expressed as three RGB bytes." },
    { tag := 9, symbol := "KLV_0903_VTARGET_INTENSITY"
      name := "Target Intensity"
      format := .anyUnsigned
      description := "Dominant intensity of the target, expressed as a single " ++
        "integer using up to 24 bits." },
    { tag := 10, symbol := "KLV_0903_VTARGET_LOCATION_OFFSET_LATITUDE"
      name := "Target Location Offset Latitude"
      format := centerOffset
      description := "Latitude offset for target from Frame Center Latitude, based " ++
        "on WGS84 ellipsoid." },
    { tag := 11, symbol := "KLV_0903_VTARGET_LOCATION_OFFSET_LONGITUDE"
      name := "Target Location Offset Longitude"
      format := centerOffset
      description := "Longitude offset for target from Frame Center Longitude, " ++
        "based on WGS84 ellipsoid." },
    { tag := 12, symbol := "KLV_0903_VTARGET_HEIGHT_ABOVE_ELLIPSOID"
      name := "Target Height Above Ellipsoid"
      format := .scaled (-900) 19000 2
      description := "Height of the target in meters above the WGS84 ellipsoid." },
    { tag := 13, symbol := "KLV_0903_VTARGET_BOUNDARY_TOP_LEFT_LATITUDE_OFFSET"
      name := "Boundary Top Left Latitude Offset"
      format := centerOffset
      description := "Latitude offset for the top left corner of the bounding box " ++
        "from Frame Center Latitude." },
    { tag := 14, symbol := "KLV_0903_VTARGET_BOUNDARY_TOP_LEFT_LONGITUDE_OFFSET"
      name := "Boundary Top Left Longitude Offset"
      format := centerOffset
      description := "Longitude offset for the top left corner of the bounding box " ++
        "from Frame Center Longitude." },
    { tag := 15, symbol := "KLV_0903_VTARGET_BOUNDARY_BOTTOM_RIGHT_LATITUDE_OFFSET"
      name := "Boundary Bottom Right Latitude Offset"
      format := centerOffset
      description := "Latitude offset for the bottom right corner of the bounding " ++
        "box from Frame Center Latitude." },
    { tag := 16, symbol := "KLV_0903_VTARGET_BOUNDARY_BOTTOM_RIGHT_LONGITUDE_OFFSET"
      name := "Boundary Bottom Right Longitude Offset"
      format := centerOffset
      description := "Longitude offset for the bottom right corner of the bounding " ++
        "box from Frame Center Longitude." },
    { tag := 17, symbol := "KLV_0903_VTARGET_LOCATION"
      name := "Target Location"
      format := .plain (.position .location)
      description := "Geographical position of target, based on WGS84 ellipsoid." },
    { tag := 18, symbol := "KLV_0903_VTARGET_BOUNDARY_SERIES"
      name := "Target Boundary Series"
      format := .locations
      description := "An arbitrary number of geospatial vertices defining the " ++
        "boundary around an area or volume of interest." },
    { tag := 19, symbol := "KLV_0903_VTARGET_CENTROID_ROW"
      name := "Centroid Pixel Row"
      format := .anyUnsigned
      description := "Row of the target centroid pixel, with 1 being the topmost row." },
    { tag := 20, symbol := "KLV_0903_VTARGET_CENTROID_COLUMN"
      name := "Centroid Pixel Column"
      format := .anyUnsigned
      description := "Column of the target centroid pixel, with 1 being the " ++
        "leftmost column." },
    { tag := 21, symbol := "KLV_0903_VTARGET_FPA_INDEX"
      name := "FPA Index Pack"
      format := .plain .detectorIndex
      description := "Index of Focal Plane Array in which detection of the target " ++
        "occurs." },
    { tag := 22, symbol := "KLV_0903_VTARGET_ALGORITHM_ID"
      name := "Algorithm ID"
      format := .anyUnsigned
      description := "Id number of algorithm used to detect the target." },
    { tag := 101, symbol := "KLV_0903_VTARGET_VMASK"
      name := "Target Mask"
      format := .bytes
      description := "Outline of the detected target, in the form of a bitmask or a " ++
        "polygon." },
    { tag := 102, symbol := "KLV_0903_VTARGET_VOBJECT"
      name := "Target Object"
      format := .bytes
      description := "Class or type of the target to an arbitrary level of detail." },
    { tag := 103, symbol := "KLV_0903_VTARGET_VFEATURE"
      name := "Target Features"
      format := .bytes
      description := "Data which describes the target or features of the target, in " ++
        "varying forms." },
    { tag := 104, symbol := "KLV_0903_VTARGET_VTRACKER"
      name := "Target Tracker"
      format := .nested .tracker
      description := "Contains ancillary spatial and temporal information to assist " ++
        "in tracking the target." },
    { tag := 105, symbol := "KLV_0903_VTARGET_VCHIP"
      name := "Target Chip"
      format := .bytes
      description := "Embedded image chip of the target, or URI linking to it." },
    { tag := 106, symbol := "KLV_0903_VTARGET_VCHIP_SERIES"
      name := "Chip Series"
      format := .bytes
      description := "A series of target chips." },
    { tag := 107, symbol := "KLV_0903_VTARGET_VOBJECT_SERIES"
      name := "Object Series"
      format := .bytes
      description := "A series of target objects." }]

/-- The tags of an algorithm. -/
def algorithm : Table where
  name := Standard.name .algorithm
  unknown := .unknown "KLV_0903_ALGORITHM_UNKNOWN"
  known := [
    { tag := 1, symbol := "KLV_0903_ALGORITHM_ID"
      name := "ID"
      format := .anyUnsigned, count := .exactly 1
      description := "Identifier for the algorithm, unique within this packet." },
    { tag := 2, symbol := "KLV_0903_ALGORITHM_NAME"
      name := "Name"
      format := .text
      description := "Name of the algorithm." },
    { tag := 3, symbol := "KLV_0903_ALGORITHM_VERSION"
      name := "Version"
      format := .text
      description := "Version of the algorithm." },
    { tag := 4, symbol := "KLV_0903_ALGORITHM_CLASS"
      name := "Class"
      format := .text
      description := "Type of the algorithm, e.g. 'detector' or 'classifier'." },
    { tag := 5, symbol := "KLV_0903_ALGORITHM_NUM_FRAMES"
      name := "Number of Frames"
      format := .anyUnsigned
      description := "Number of frames the algorithm operates over." }]

/-- The tags of an ontology. -/
def ontology : Table where
  name := Standard.name .ontology
  unknown := .unknown "KLV_0903_ONTOLOGY_UNKNOWN"
  known := [
    { tag := 1, symbol := "KLV_0903_ONTOLOGY_ID"
      name := "ID"
      format := .anyUnsigned, count := .exactly 1
      description := "Identifier for the ontology entry, unique within this packet." },
    { tag := 2, symbol := "KLV_0903_ONTOLOGY_PARENT_ID"
      name := "Parent ID"
      format := .anyUnsigned
      description := "Identifier of the entry this one refines." },
    { tag := 3, symbol := "KLV_0903_ONTOLOGY_ONTOLOGY"
      name := "Ontology"
      format := .text, count := .exactly 1
      description := "URI of the ontology in use." },
    { tag := 4, symbol := "KLV_0903_ONTOLOGY_CLASS"
      name := "Class"
      format := .text
      description := "Target class within the ontology." }]

end MotionMetadata.Table
