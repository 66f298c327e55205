import MotionMetadata.Table
import MotionMetadata.Table.Formats

/-!
# Geo-registration

Points of the image tied to points of another image or of the ground.
-/

namespace MotionMetadata.Table

/-- The tags of a registration. -/
def registration : Table where
  name := Standard.name .registration
  unknown := .unknown "KLV_1601_UNKNOWN"
  known := [
    { tag := 1, symbol := "KLV_1601_VERSION"
      name := "Document Version"
      format := .anyUnsigned, count := .exactly 1
      description := "Version number of the ST1601 document used to encode this " ++
        "metadata." },
    { tag := 2, symbol := "KLV_1601_ALGORITHM_NAME"
      name := "Algorithm Name"
      format := .text, count := .exactly 1
      description := "Unique identifier for the algorithm used to geo-register the " ++
        "imagery." },
    { tag := 3, symbol := "KLV_1601_ALGORITHM_VERSION"
      name := "Algorithm Version"
      format := .text, count := .exactly 1
      description := "Unique identifier for the specific version of the algorithm " ++
        "used." },
    { tag := 4, symbol := "KLV_1601_PIXEL_POINTS"
      name := "Correspondence Points - Row / Column"
      format := .plain (.grid .uint)
      description := "List of tie points represented in pixel space." },
    { tag := 5, symbol := "KLV_1601_GEOGRAPHIC_POINTS"
      name := "Correspondence Points - Latitude / Longitude"
      format := .plain (.grid .float)
      description := "List of tie points represented in geographic space." },
    { tag := 6, symbol := "KLV_1601_SECOND_IMAGE_NAME"
      name := "Second Image Name"
      format := .text
      description := "Unique identifier for the second image used in the " ++
        "geo-registration process." },
    { tag := 7, symbol := "KLV_1601_ALGORITHM_CONFIG_ID"
      name := "Algorithm Configuration Identifier"
      format := .bytesOf 16
      description := "Vendor-defined unique identifier for the parameters used with " ++
        "the geo-registration algorithm." },
    { tag := 8, symbol := "KLV_1601_ELEVATION"
      name := "Correspondence Points - Elevation"
      format := .plain (.grid .float)
      description := "List of elevation values for the geographic tie points." },
    { tag := 9, symbol := "KLV_1601_PIXEL_SDCC"
      name := "Correspondence Points SDCC - Row / Column"
      format := .plain (.rowArray .pixel)
      description := "Standard deviation and correlation coefficient values for the " ++
        "pixel-space tie points." },
    { tag := 10, symbol := "KLV_1601_GEOGRAPHIC_SDCC"
      name := "Correspondence Points SDCC - Latitude / Longitude / Elevation"
      format := .plain (.rowArray .geographic)
      description := "Standard deviation and correlation coefficient values for the " ++
        "geographic-space tie points." }]

end MotionMetadata.Table
