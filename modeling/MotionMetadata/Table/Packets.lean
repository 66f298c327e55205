import MotionMetadata.Table
import MotionMetadata.Table.Formats

/-!
# Packets

A packet is a set that stands on its own under a universal key. The table of packets tells
from the key which set it is, and whether a checksum closes it.
-/

namespace MotionMetadata

namespace PacketKey

def security : UniversalKey := .ofWords 0x060E2B3402030101 0x0E01030302000000

def predator : UniversalKey := .ofWords 0x060E2B3402010101 0x0E01010201010000

def datalink : UniversalKey := .ofWords 0x060E2B34020B0101 0x0E01030101000000

def terminal : UniversalKey := .ofWords 0x060E2B34020B0101 0x0E01030102000000

def movingTarget : UniversalKey := .ofWords 0x060E2B34020B0101 0x0E01030306000000

def track : UniversalKey := .ofWords 0x060E2B34020B0101 0x0E0103031E000000

def rangeImage : UniversalKey := .ofWords 0x060E2B34020B0101 0x0E0103030C000000

def quality : UniversalKey := .ofWords 0x060E2B3402030101 0x0E0103031C000000

def transformation : UniversalKey := .ofWords 0x060E2B34020B0101 0x0E01030505000000

def radar : UniversalKey := .ofWords 0x060E2B34020B0101 0x0E0103030D000000

def registration : UniversalKey := .ofWords 0x060E2B34020B0101 0x0E01030301000000

def composite : UniversalKey := .ofWords 0x060E2B34020B0101 0x0E01030302000000

end PacketKey

namespace Table

/-- The packets. -/
def packets : Table where
  name := "Packet"
  unknown :=
    { tag := 0, symbol := "KLV_PACKET_UNKNOWN"
      name := "Unknown Packet"
      format := .bytes, count := .any
      description := "Packet of unknown type." }
  known := [
    { tag := 1, symbol := "KLV_PACKET_MISB_0102_LOCAL_SET"
      name := "MISB ST 0102 Local Set"
      key := some PacketKey.security
      format := .nested .security, count := .any
      description := "Security Local Set. Marks Motion Imagery with security " ++
        "classification information." },
    { tag := 2, symbol := "KLV_PACKET_MISB_0104_UNIVERSAL_SET"
      name := "MISB ST 0104 Universal Set"
      key := some PacketKey.predator
      format := .universalSet .predator, count := .any
      description := "Predator UAV Basic Universal Set. Predecessor to MISB ST 0601." },
    { tag := 3, symbol := "KLV_PACKET_MISB_0601_LOCAL_SET"
      name := "MISB ST 0601 Local Set"
      key := some PacketKey.datalink
      format := .localSet .datalink (some (.ofTag 1 .runningSum)), count := .any
      description := "UAS Datalink Local Set. Metadata describing an unmanned " ++
        "aerial system producing FMV footage." },
    { tag := 4, symbol := "KLV_PACKET_MISB_0903_LOCAL_SET"
      name := "MISB ST 0903 Local Set"
      key := some PacketKey.movingTarget
      format := .localSet .movingTarget (some (.ofTag 1 .runningSum)), count := .any
      description := "Video Moving Target Indicator Local Set. Detected and tracked " ++
        "targets in Motion Imagery." },
    { tag := 5, symbol := "KLV_PACKET_MISB_1108_LOCAL_SET"
      name := "MISB ST 1108 Local Set"
      key := some PacketKey.quality
      format := .localSet .quality (some (.ofTag 11 .crc16)), count := .any
      description := "Interpretability and Quality Local Set. Image quality metrics " ++
        "and compression characteristics." },
    { tag := 6, symbol := "KLV_PACKET_MISB_1602_LOCAL_SET"
      name := "MISB ST 1602 Local Set"
      key := some PacketKey.composite
      format := .nested .composite, count := .any
      description := "Composite Imaging Local Set. Describes how several images are " ++
        "composed into one frame." },
    { tag := 7, symbol := "KLV_PACKET_MISB_0806_LOCAL_SET"
      name := "MISB ST 0806 Local Set"
      key := some PacketKey.terminal
      format := .localSet .terminal (some (.ofTag 1 .crc32)), count := .any
      description := "Remote Video Terminal Local Set. Metadata for remote video " ++
        "terminals receiving FMV." },
    { tag := 8, symbol := "KLV_PACKET_MISB_0903_VTRACK_LOCAL_SET"
      name := "MISB ST 0903 VTrack Local Set"
      key := some PacketKey.track
      format := .localSet .track (some (.ofTag 1 .runningSum)), count := .any
      description := "Video Track Local Set. The history of one tracked target." },
    { tag := 9, symbol := "KLV_PACKET_MISB_1002_LOCAL_SET"
      name := "MISB ST 1002 Local Set"
      key := some PacketKey.rangeImage
      format := .localSet .rangeImage (some (.ofTag 21 .crc16)), count := .any
      description := "Range Motion Imagery Local Set. Range images aligned with " ++
        "collaborative sensor imagery." },
    { tag := 10, symbol := "KLV_PACKET_MISB_1202_LOCAL_SET"
      name := "MISB ST 1202 Local Set"
      key := some PacketKey.transformation
      format := .nested .transformation, count := .any
      description := "Generalized Transformation Local Set. Projective mapping " ++
        "between two image spaces." },
    { tag := 11, symbol := "KLV_PACKET_MISB_1206_LOCAL_SET"
      name := "MISB ST 1206 Local Set"
      key := some PacketKey.radar
      format := .nested .radar, count := .any
      description := "SAR Motion Imagery Local Set. Synthetic aperture radar " ++
        "collection parameters." },
    { tag := 12, symbol := "KLV_PACKET_MISB_1601_LOCAL_SET"
      name := "MISB ST 1601 Local Set"
      key := some PacketKey.registration
      format := .nested .registration, count := .any
      description := "Geo-Registration Local Set. Tie points between the image and " ++
        "the ground." }]

end Table

end MotionMetadata
