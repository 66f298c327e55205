import MotionMetadata.Table
import MotionMetadata.Table.Formats
import MotionMetadata.Table.Predator

/-!
# Interpretability and quality

How good the imagery is at some point on its way, in metrics that have a set each.
-/

namespace MotionMetadata.Table

def assessmentPoints : Names :=
  [(0, "Unknown Assessment Point"), (1, "Sensor"), (2, "Sensor Encoder"), (3, "GCS (Received)"),
   (4, "GCS (Transmitted)"), (5, "Library / Archive")]

def compressionTypes : Names :=
  [(0, "Uncompressed"), (1, "H.262"), (2, "H.264"), (3, "H.265"), (4, "JPEG2000")]

def compressionProfiles : Names :=
  [(0, "Uncompressed"), (1, "Main (H.264)"), (2, "Main 10 (H.265)"),
   (3, "Constrained Baseline (H.264)"), (4, "High (H.264)"), (5, "Main 4:2:2 12 (H.265)"),
   (6, "Main 4:4:4 12 (H.265)"), (7, "High 4:2:2 (H.264)"), (8, "High 4:4:4 Predictive (H.264)")]

/-- The tags of a quality report. -/
def quality : Table where
  name := Standard.name .quality
  unknown := .unknown "KLV_1108_UNKNOWN"
  known := [
    { tag := 1, symbol := "KLV_1108_ASSESSMENT_POINT"
      name := "Assessment Point"
      key := some (.ofWords 0x060E2B3401010101 0x0E01050100000000)
      format := .code "assessment point" assessmentPoints, count := .exactly 1
      description := "Location in workflow where the metric was evaluated." },
    { tag := 2, symbol := "KLV_1108_METRIC_PERIOD_PACK"
      name := "Metric Period Pack"
      key := some (.ofWords 0x060E2B3402050101 0x0E01050200000000)
      format := .plain .metricPeriod, count := .exactly 1
      description := "Period for which the metric was evaluated." },
    { tag := 3, symbol := "KLV_1108_WINDOW_CORNERS_PACK"
      name := "Window Corners Pack"
      key := some (.ofWords 0x060E2B3402050101 0x0E01030201010000)
      format := .plain .windowCorners
      description := "Image sub-region for which the metric was evaluated." },
    { tag := 4, symbol := "KLV_1108_METRIC_LOCAL_SET"
      name := "Metric Local Set"
      format := .nested .metric, count := .between 1 none
      description := "Specification of metrics and their values." },
    { tag := 5, symbol := "KLV_1108_COMPRESSION_TYPE"
      name := "Compression Type"
      key := some (.ofWords 0x060E2B3401010101 0x0E01050200000000)
      format := .code "compression type" compressionTypes, count := .exactly 1
      description := "Type of video compression." },
    { tag := 6, symbol := "KLV_1108_COMPRESSION_PROFILE"
      name := "Compression Profile"
      key := some (.ofWords 0x060E2B3401010101 0x0E01050300000000)
      format := .code "compression profile" compressionProfiles, count := .exactly 1
      description := "Video compression profile." },
    { tag := 7, symbol := "KLV_1108_COMPRESSION_LEVEL"
      name := "Compression Level"
      key := some (.ofWords 0x060E2B3401010101 0x0E01050400000000)
      format := .text, count := .exactly 1
      description := "Level of video compression." },
    { tag := 8, symbol := "KLV_1108_COMPRESSION_RATIO"
      name := "Compression Ratio"
      key := some (.ofWords 0x060E2B3401010101 0x0E01050500000000)
      format := .anyFloat, count := .exactly 1
      description := "Source-to-compressed size ratio." },
    { tag := 9, symbol := "KLV_1108_STREAM_BITRATE"
      name := "Stream Bitrate"
      key := some (.ofWords 0x060E2B3401010101 0x0E01050600000000)
      format := .unsigned 2, count := .exactly 1
      description := "Expressed in kilobits / second." },
    { tag := 10, symbol := "KLV_1108_DOCUMENT_VERSION"
      name := "Document Version"
      key := some (.ofWords 0x060E2B3401010101 0x0E01020505000000)
      format := .unsigned 1, count := .exactly 1
      description := "Version number of MISB ST1108." },
    { tag := 11, symbol := "KLV_1108_CHECKSUM"
      name := "Checksum"
      key := some (.ofWords 0x060E2B3401010101 0x0E0102035E000000)
      format := .unsigned 2, count := .exactly 0
      description := "CRC-16-CCITT checksum." }]

/-- The tags of one metric. -/
def metric : Table where
  name := Standard.name .metric
  unknown := .unknown "KLV_1108_METRIC_SET_UNKNOWN"
  known := [
    { tag := 1, symbol := "KLV_1108_METRIC_SET_NAME"
      name := "Metric Name"
      key := some (.ofWords 0x060E2B3401010101 0x0E01050700000000)
      format := .text, count := .exactly 1
      description := "Examples: 'VNIIRS', 'RER', 'GSD'." },
    { tag := 2, symbol := "KLV_1108_METRIC_SET_VERSION"
      name := "Metric Version"
      key := some (.ofWords 0x060E2B3401010101 0x0E01050800000000)
      format := .text, count := .exactly 1
      description := "Alphanumeric denoting calculated values. 'Human' for observed." },
    { tag := 3, symbol := "KLV_1108_METRIC_SET_IMPLEMENTER"
      name := "Metric Implementer"
      key := some (.ofWords 0x060E2B3401010101 0x0E01050900000000)
      format := .plain .metricImplementer, count := .exactly 1
      description := "Identifies organization responsible for how metric is " ++
        "calculated." },
    { tag := 4, symbol := "KLV_1108_METRIC_SET_PARAMETERS"
      name := "Metric Parameters"
      key := some (.ofWords 0x060E2B3401010101 0x0E01050A00000000)
      format := .text
      description := "Additional information needed to replicate the calculation." },
    { tag := 5, symbol := "KLV_1108_METRIC_SET_TIME"
      name := "Metric Time"
      key := some timestampKey
      format := .unsigned 8, count := .exactly 1
      description := "Time of metric assessment. MISP Precision Timestamp." },
    { tag := 6, symbol := "KLV_1108_METRIC_SET_VALUE"
      name := "Metric Value"
      key := some (.ofWords 0x060E2B3401010101 0x0E01050B00000000)
      format := .anyFloat, count := .exactly 1
      description := "Numeric value of calculation." }]

end MotionMetadata.Table
