import MotionMetadata.Table
import MotionMetadata.Table.Formats

/-!
# Tracks

The history of a target: where it has been, and what was seen of it each time.
-/

namespace MotionMetadata.Table

def detectionStates : Names :=
  [(0, "Inactive"), (1, "Active - Moving"), (2, "Dropped"), (3, "Active - Stopped"),
   (4, "Active - Coasting")]

def detectionStatus : Format := .code "detection status" detectionStates

/-- The tags of a track inside a target. -/
def tracker : Table where
  name := Standard.name .tracker
  unknown := .unknown "KLV_0903_VTRACKER_UNKNOWN"
  known := [
    { tag := 1, symbol := "KLV_0903_VTRACKER_TRACK_ID"
      name := "Track ID"
      format := .bytesOf 16
      description := "A Version 4 UUID assigned to the track." },
    { tag := 2, symbol := "KLV_0903_VTRACKER_DETECTION_STATUS"
      name := "Detection Status"
      format := detectionStatus
      description := "Current status of the target track." },
    { tag := 3, symbol := "KLV_0903_VTRACKER_START_TIME"
      name := "First Observation Time"
      format := .unsigned 8
      description := "Time of the first observation of the entity, in microseconds " ++
        "since the epoch." },
    { tag := 4, symbol := "KLV_0903_VTRACKER_END_TIME"
      name := "Latest Observation Time"
      format := .unsigned 8
      description := "Time of the latest observation of the entity, in microseconds " ++
        "since the epoch." },
    { tag := 5, symbol := "KLV_0903_VTRACKER_BOUNDARY_SERIES"
      name := "Track Boundary Series"
      format := .locations
      description := "Vertices of a polygon bounding the track." },
    { tag := 6, symbol := "KLV_0903_VTRACKER_ALGORITHM"
      name := "Algorithm"
      format := .text
      description := "Name of the algorithm used to form the track." },
    { tag := 7, symbol := "KLV_0903_VTRACKER_CONFIDENCE"
      name := "Confidence Level"
      format := .unsigned 1
      description := "Confidence in the track, as a percentage." },
    { tag := 8, symbol := "KLV_0903_VTRACKER_NUM_TRACK_POINTS"
      name := "Number of Track Points"
      format := .plain (.uint (.between 1 2))
      description := "Number of points in the track history." },
    { tag := 9, symbol := "KLV_0903_VTRACKER_TRACK_HISTORY"
      name := "Track History Series"
      format := .locations
      description := "Previous locations of the entity." },
    { tag := 10, symbol := "KLV_0903_VTRACKER_VELOCITY"
      name := "Velocity"
      format := .plain (.position .velocity)
      description := "Velocity of the entity in meters per second." },
    { tag := 11, symbol := "KLV_0903_VTRACKER_ACCELERATION"
      name := "Acceleration"
      format := .plain (.position .velocity)
      description := "Acceleration of the entity in meters per second squared." },
    { tag := 12, symbol := "KLV_0903_VTRACKER_ALGORITHM_ID"
      name := "Algorithm ID"
      format := .plain (.uint (.between 1 3))
      description := "Identifier of an algorithm set describing the tracker." }]

/-- The tags of a track on its own. -/
def track : Table where
  name := Standard.name .track
  unknown := .unknown "KLV_0903_VTRACK_UNKNOWN"
  known := [
    { tag := 1, symbol := "KLV_0903_VTRACK_CHECKSUM"
      name := "Checksum"
      format := .unsigned 2, count := .exactly 0
      description := "Checksum used to detect errors within a VTrack packet." },
    { tag := 2, symbol := "KLV_0903_VTRACK_PRECISION_TIMESTAMP"
      name := "Precision Timestamp"
      format := .unsigned 8
      description := "Microseconds since January 1st, 1970." },
    { tag := 3, symbol := "KLV_0903_VTRACK_TRACK_ID"
      name := "Track ID"
      format := .bytesOf 16
      description := "A Version 4 UUID assigned to the track." },
    { tag := 4, symbol := "KLV_0903_VTRACK_DETECTION_STATUS"
      name := "Detection Status"
      format := detectionStatus
      description := "Current status of the target track." },
    { tag := 5, symbol := "KLV_0903_VTRACK_START_TIME"
      name := "Start Time"
      format := .unsigned 8
      description := "Time of the first observation of the entity." },
    { tag := 6, symbol := "KLV_0903_VTRACK_END_TIME"
      name := "End Time"
      format := .unsigned 8
      description := "Time of the latest observation of the entity." },
    { tag := 7, symbol := "KLV_0903_VTRACK_BOUNDARY_SERIES"
      name := "Boundary Series"
      format := .locations
      description := "Vertices of a polygon bounding the track." },
    { tag := 8, symbol := "KLV_0903_VTRACK_ALGORITHM"
      name := "Algorithm"
      format := .text
      description := "Name of the algorithm used to form the track." },
    { tag := 9, symbol := "KLV_0903_VTRACK_CONFIDENCE"
      name := "Confidence Level"
      format := .unsigned 1
      description := "Confidence in the track, as a percentage." },
    { tag := 10, symbol := "KLV_0903_VTRACK_SYSTEM_NAME"
      name := "VMTI System Name"
      format := .text
      description := "Name or description of the system producing the track." },
    { tag := 11, symbol := "KLV_0903_VTRACK_VERSION"
      name := "VMTI LS Version"
      format := .anyUnsigned, count := .exactly 1
      description := "Version of MISB ST 0903 used to encode this set." },
    { tag := 12, symbol := "KLV_0903_VTRACK_SOURCE_SENSOR"
      name := "VMTI Source Sensor"
      format := .text
      description := "Name of the sensor feeding the tracker." },
    { tag := 13, symbol := "KLV_0903_VTRACK_NUM_TRACK_POINTS"
      name := "Number of Track Points"
      format := .anyUnsigned
      description := "Number of points in the track item series." },
    { tag := 101, symbol := "KLV_0903_VTRACK_VTRACKITEM_SERIES"
      name := "VTrackItem Series"
      format := .series (.idPack .trackItem)
      description := "A series of VTrackItem packs." },
    { tag := 102, symbol := "KLV_0903_VTRACK_ONTOLOGY_SERIES"
      name := "Ontology Series"
      format := .series (.nested .ontology)
      description := "A series of ontology local sets." }]

/-- The tags of one item of a track. -/
def trackItem : Table where
  name := Standard.name .trackItem
  unknown := .unknown "KLV_0903_VTRACKITEM_UNKNOWN"
  known := [
    { tag := 1, symbol := "KLV_0903_VTRACKITEM_TIMESTAMP"
      name := "Precision Timestamp"
      format := .unsigned 8
      description := "Time of this track point, in microseconds since the epoch." },
    { tag := 2, symbol := "KLV_0903_VTRACKITEM_CENTROID"
      name := "Target Centroid"
      format := .anyUnsigned
      description := "Index of the centroid pixel." },
    { tag := 3, symbol := "KLV_0903_VTRACKITEM_CENTROID_ROW"
      name := "Centroid Pixel Row"
      format := .anyUnsigned
      description := "Row of the centroid pixel." },
    { tag := 4, symbol := "KLV_0903_VTRACKITEM_CENTROID_COLUMN"
      name := "Centroid Pixel Column"
      format := .anyUnsigned
      description := "Column of the centroid pixel." },
    { tag := 5, symbol := "KLV_0903_VTRACKITEM_BOUNDARY_TOP_LEFT"
      name := "Boundary Top Left"
      format := .anyUnsigned
      description := "Index of the top-left corner pixel of the bounding box." },
    { tag := 6, symbol := "KLV_0903_VTRACKITEM_BOUNDARY_BOTTOM_RIGHT"
      name := "Boundary Bottom Right"
      format := .anyUnsigned
      description := "Index of the bottom-right corner pixel of the bounding box." },
    { tag := 7, symbol := "KLV_0903_VTRACKITEM_PRIORITY"
      name := "Target Priority"
      format := .unsigned 1
      description := "Lower numbers are higher priority." },
    { tag := 8, symbol := "KLV_0903_VTRACKITEM_CONFIDENCE_LEVEL"
      name := "Target Confidence Level"
      format := .unsigned 1
      description := "Confidence level, as a percentage, of the detection." },
    { tag := 9, symbol := "KLV_0903_VTRACKITEM_HISTORY"
      name := "Target History"
      format := .anyUnsigned
      description := "Number of times the target has previously been detected." },
    { tag := 10, symbol := "KLV_0903_VTRACKITEM_PERCENTAGE_OF_TARGET_PIXELS"
      name := "Percentage of Target Pixels"
      format := .unsigned 1
      description := "Percentage of the pixels in the image classified as target " ++
        "pixels." },
    { tag := 11, symbol := "KLV_0903_VTRACKITEM_COLOR"
      name := "Target Color"
      format := .unsigned 3
      description := "Dominant color as three RGB bytes." },
    { tag := 12, symbol := "KLV_0903_VTRACKITEM_INTENSITY"
      name := "Target Intensity"
      format := .anyUnsigned
      description := "Dominant intensity of the target." },
    { tag := 13, symbol := "KLV_0903_VTRACKITEM_LOCATION"
      name := "Target Location"
      format := .plain (.position .location)
      description := "Geographical position of the target, based on WGS84 ellipsoid." },
    { tag := 14, symbol := "KLV_0903_VTRACKITEM_BOUNDARY_SERIES"
      name := "Target Boundary Series"
      format := .locations
      description := "Geospatial vertices bounding the target." },
    { tag := 15, symbol := "KLV_0903_VTRACKITEM_VELOCITY"
      name := "Velocity"
      format := .plain (.position .velocity)
      description := "Velocity of the target in meters per second." },
    { tag := 16, symbol := "KLV_0903_VTRACKITEM_ACCELERATION"
      name := "Acceleration"
      format := .plain (.position .velocity)
      description := "Acceleration of the target in meters per second squared." },
    { tag := 17, symbol := "KLV_0903_VTRACKITEM_FPA_INDEX"
      name := "FPA Index Pack"
      format := .plain .detectorIndex
      description := "Focal plane array in which the target was detected." },
    { tag := 18, symbol := "KLV_0903_VTRACKITEM_FRAME_NUMBER"
      name := "Frame Number"
      format := .anyUnsigned
      description := "Frame this track point was detected in." },
    { tag := 19, symbol := "KLV_0903_VTRACKITEM_MIIS_ID"
      name := "MIIS ID"
      format := .plain .identity
      description := "Motion Imagery Identification System core identifier of the " ++
        "source." },
    { tag := 20, symbol := "KLV_0903_VTRACKITEM_FRAME_WIDTH"
      name := "Frame Width"
      format := .anyUnsigned
      description := "Width of the frame in pixels." },
    { tag := 21, symbol := "KLV_0903_VTRACKITEM_FRAME_HEIGHT"
      name := "Frame Height"
      format := .anyUnsigned
      description := "Height of the frame in pixels." },
    { tag := 22, symbol := "KLV_0903_VTRACKITEM_HORIZONTAL_FOV"
      name := "Horizontal FOV"
      format := .scaled 0 180 2
      description := "Horizontal field of view of the source sensor." },
    { tag := 23, symbol := "KLV_0903_VTRACKITEM_VERTICAL_FOV"
      name := "Vertical FOV"
      format := .scaled 0 180 2
      description := "Vertical field of view of the source sensor." },
    { tag := 24, symbol := "KLV_0903_VTRACKITEM_MI_URL"
      name := "MI URL"
      format := .text
      description := "URL of the Motion Imagery source." },
    { tag := 101, symbol := "KLV_0903_VTRACKITEM_VMASK"
      name := "Target Mask"
      format := .bytes
      description := "Outline of the target." },
    { tag := 102, symbol := "KLV_0903_VTRACKITEM_VOBJECT"
      name := "Target Object"
      format := .bytes
      description := "Class or type of the target." },
    { tag := 103, symbol := "KLV_0903_VTRACKITEM_VFEATURE"
      name := "Target Features"
      format := .bytes
      description := "Features of the target." },
    { tag := 104, symbol := "KLV_0903_VTRACKITEM_VCHIP"
      name := "Target Chip"
      format := .bytes
      description := "Image chip of the target." },
    { tag := 105, symbol := "KLV_0903_VTRACKITEM_VCHIP_SERIES"
      name := "Chip Series"
      format := .bytes
      description := "A series of target chips." },
    { tag := 106, symbol := "KLV_0903_VTRACKITEM_VOBJECT_SERIES"
      name := "Object Series"
      format := .bytes
      description := "A series of target objects." }]

end MotionMetadata.Table
