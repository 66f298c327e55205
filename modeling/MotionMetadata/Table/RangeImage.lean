import MotionMetadata.Table
import MotionMetadata.Table.Formats

/-!
# Range images

Distances to what is in the picture, in sections of one frame.
-/

namespace MotionMetadata.Table

/-- The tags of a range image. -/
def rangeImage : Table where
  name := Standard.name .rangeImage
  unknown := .unknown "KLV_1002_UNKNOWN"
  known := [
    { tag := 1, symbol := "KLV_1002_PRECISION_TIMESTAMP"
      name := "Precision Timestamp"
      format := .unsigned 8, count := .exactly 1
      description := "MISP Precision Timestamp, in microseconds since January 1, " ++
        "1970, for this metadata." },
    { tag := 11, symbol := "KLV_1002_DOCUMENT_VERSION"
      name := "Document Version"
      format := .plain .berOid, count := .exactly 1
      description := "Version number of the MISB ST1002 document used to encode " ++
        "this metadata." },
    { tag := 12, symbol := "KLV_1002_RANGE_IMAGE_ENUMERATIONS"
      name := "Range Image Enumerations"
      format := .plain .rangeEnumerations, count := .exactly 1
      description := "Essential characteristics of the range imagery expressed as " ++
        "enumerations." },
    { tag := 13, symbol := "KLV_1002_SPRM"
      name := "Range Measurement"
      format := .anyFloat
      description := "Distance from the principal point to a point in the scene. " ++
        "Measured in meters." },
    { tag := 14, symbol := "KLV_1002_SPRM_UNCERTAINTY"
      name := "Range Measurement Uncertainty"
      format := .anyFloat
      description := "Uncertainty of the range measurement. Measured in meters." },
    { tag := 15, symbol := "KLV_1002_SPRM_ROW"
      name := "Range Measurement Row Coordinate"
      format := .anyFloat
      description := "Row coordinate in the image where the measurement was taken." },
    { tag := 16, symbol := "KLV_1002_SPRM_COLUMN"
      name := "Range Measurement Column Coordinate"
      format := .anyFloat
      description := "Column coordinate in the image where the measurement was taken." },
    { tag := 17, symbol := "KLV_1002_NUMBER_SECTIONS_X"
      name := "Number of Sections in X"
      format := .plain .berOid
      description := "Number of sections of the image differentiable along the x axis." },
    { tag := 18, symbol := "KLV_1002_NUMBER_SECTIONS_Y"
      name := "Number of Sections in Y"
      format := .plain .berOid
      description := "Number of sections of the image differentiable along the y axis." },
    { tag := 19, symbol := "KLV_1002_GENERALIZED_TRANSFORMATION_LOCAL_SET"
      name := "Generalized Transformation Local Set"
      format := .nested .transformation
      description := "Transformation mapping the child range image to the parent " ++
        "collaborative sensor image." },
    { tag := 20, symbol := "KLV_1002_SECTION_DATA_PACK"
      name := "Section Data Pack"
      format := .plain .rangeSection
      description := "Information describing a section of the image." },
    { tag := 21, symbol := "KLV_1002_CHECKSUM"
      name := "Checksum"
      format := .unsigned 2, count := .exactly 0
      description := "Checksum used to detect errors within a ST1002 packet." }]

end MotionMetadata.Table
