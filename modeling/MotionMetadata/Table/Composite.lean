import MotionMetadata.Table
import MotionMetadata.Table.Formats

/-!
# Composite images

How several images make up one frame.
-/

namespace MotionMetadata.Table

/-- The tags of a composite image. -/
def composite : Table where
  name := Standard.name .composite
  unknown := .unknown "KLV_1602_UNKNOWN"
  known := [
    { tag := 1, symbol := "KLV_1602_TIMESTAMP"
      name := "Precision Timestamp"
      format := .unsigned 8
      description := "MISP precision timestamp in microseconds since January 1, 1970." },
    { tag := 2, symbol := "KLV_1602_VERSION"
      name := "Document Version"
      format := .plain .berOid, count := .exactly 1
      description := "Version number of the ST1602 document used to encode this " ++
        "metadata." },
    { tag := 3, symbol := "KLV_1602_SOURCE_IMAGE_ROWS"
      name := "Source Image Rows"
      format := .anyUnsigned
      description := "Height of the source image in pixels." },
    { tag := 4, symbol := "KLV_1602_SOURCE_IMAGE_COLUMNS"
      name := "Source Image Columns"
      format := .anyUnsigned
      description := "Width of the source image in pixels." },
    { tag := 5, symbol := "KLV_1602_SOURCE_IMAGE_AOI_ROWS"
      name := "Source Image AOI Rows"
      format := .anyUnsigned
      description := "Height of the area of interest in pixels." },
    { tag := 6, symbol := "KLV_1602_SOURCE_IMAGE_AOI_COLUMNS"
      name := "Source Image AOI Columns"
      format := .anyUnsigned
      description := "Width of the area of interest in pixels." },
    { tag := 7, symbol := "KLV_1602_SOURCE_IMAGE_AOI_POSITION_X"
      name := "Source Image AOI Position X"
      format := .anySigned
      description := "X position of the area of interest in pixels. The origin is " ++
        "the top left corner." },
    { tag := 8, symbol := "KLV_1602_SOURCE_IMAGE_AOI_POSITION_Y"
      name := "Source Image AOI Position Y"
      format := .anySigned
      description := "Y position of the area of interest in pixels. The origin is " ++
        "the top left corner." },
    { tag := 9, symbol := "KLV_1602_SUB_IMAGE_ROWS"
      name := "Sub-Image Rows"
      format := .anyUnsigned, count := .exactly 1
      description := "Height of the sub-image in pixels." },
    { tag := 10, symbol := "KLV_1602_SUB_IMAGE_COLUMNS"
      name := "Sub-Image Columns"
      format := .anyUnsigned, count := .exactly 1
      description := "Width of the sub-image in pixels." },
    { tag := 11, symbol := "KLV_1602_SUB_IMAGE_POSITION_X"
      name := "Sub-Image Position X"
      format := .anySigned, count := .exactly 1
      description := "X position of the sub-image in pixels. The origin is the top " ++
        "left corner." },
    { tag := 12, symbol := "KLV_1602_SUB_IMAGE_POSITION_Y"
      name := "Sub-Image Position Y"
      format := .anySigned, count := .exactly 1
      description := "Y position of the sub-image in pixels. The origin is the top " ++
        "left corner." },
    { tag := 13, symbol := "KLV_1602_ACTIVE_SUB_IMAGE_ROWS"
      name := "Active Sub-Image Rows"
      format := .anyUnsigned
      description := "Height of the active sub-image in pixels." },
    { tag := 14, symbol := "KLV_1602_ACTIVE_SUB_IMAGE_COLUMNS"
      name := "Active Sub-Image Columns"
      format := .anyUnsigned
      description := "Width of the active sub-image in pixels." },
    { tag := 15, symbol := "KLV_1602_ACTIVE_SUB_IMAGE_OFFSET_X"
      name := "Active Sub-Image Offset X"
      format := .anySigned
      description := "X offset of the active sub-image in pixels from the top left " ++
        "corner of the sub-image." },
    { tag := 16, symbol := "KLV_1602_ACTIVE_SUB_IMAGE_OFFSET_Y"
      name := "Active Sub-Image Offset Y"
      format := .anySigned
      description := "Y offset of the active sub-image in pixels from the top left " ++
        "corner of the sub-image." },
    { tag := 17, symbol := "KLV_1602_TRANSPARENCY"
      name := "Transparency"
      format := .unsigned 1
      description := "Integer value denoting level of image transparency. A value " ++
        "of 0 denotes full opacity, while a value of 255 denotes full transparency." },
    { tag := 18, symbol := "KLV_1602_Z_ORDER"
      name := "Z-Order"
      format := .unsigned 1, count := .exactly 1
      description := "Unique integer defining the image's position along the " ++
        "Z-axis. A value of 0 denotes the bottom-most image." }]

end MotionMetadata.Table
