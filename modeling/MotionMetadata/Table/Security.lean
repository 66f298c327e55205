import MotionMetadata.Table
import MotionMetadata.Table.Formats

/-!
# Security metadata

How the imagery is classified and who may see it. A receiver that shows anything has to show
this, so the entries that decide it occur exactly once.
-/

namespace MotionMetadata.Table

def classifications : Names :=
  [(0, "Unknown Security Classification"), (1, "Unclassified"), (2, "Restricted"),
   (3, "Confidential"), (4, "Secret"), (5, "Top Secret")]

def countryCodingMethods : Names :=
  [(0, "Unknown Country Coding Method"), (1, "ISO-3166 Two Letter"),
   (2, "ISO-3166 Three Letter"), (3, "FIPS 10-4 Two Letter"), (4, "FIPS 10-4 Four Letter"),
   (5, "ISO-3166 Numeric"), (6, "1059 Two Letter"), (7, "1059 Three Letter"),
   (10, "FIPS 10-4 Mixed"), (11, "ISO-3166 Mixed"), (12, "STANAG-1059 Mixed"),
   (13, "GENC Two Letter"), (14, "GENC Three Letter"), (15, "GENC Numeric"), (16, "GENC Mixed"),
   (64, "GENC AdminSub")]

def countryCodingMethod : Format := .code "country coding method" countryCodingMethods

/-- The tags of security metadata. -/
def security : Table where
  name := Standard.name .security
  unknown := .unknown "KLV_0102_UNKNOWN"
  known := [
    { tag := 1, symbol := "KLV_0102_SECURITY_CLASSIFICATION"
      name := "Security Classification"
      format := .code "security classification" classifications, count := .exactly 1
      description := "Overall security classification of the Motion Imagery in " ++
        "accordance with U.S. and NATO classification guidance." },
    { tag := 2, symbol := "KLV_0102_COUNTRY_CODING_METHOD"
      name :=
        "Country Coding Method for 'Classifying Country' and 'Releasing Instructions'"
      format := countryCodingMethod, count := .exactly 1
      description := "Method by which the classifying country and releasing " ++
        "instructions identify countries in text form." },
    { tag := 3, symbol := "KLV_0102_CLASSIFYING_COUNTRY"
      name := "Classifying Country"
      format := .text, count := .exactly 1
      description := "Country providing the security classification, preceded by '//'." },
    { tag := 4, symbol := "KLV_0102_SCI_SHI_INFORMATION"
      name := "SCI / SHI Information"
      format := .text
      description := "Sensitive compartmented information or special handling " ++
        "instructions. Always ends in '//'." },
    { tag := 5, symbol := "KLV_0102_CAVEATS"
      name := "Caveats"
      format := .text
      description := "Pertinent caveats or code words from each category of the " ++
        "appropriate security entity register." },
    { tag := 6, symbol := "KLV_0102_RELEASING_INSTRUCTIONS"
      name := "Releasing Instructions"
      format := .text
      description := "Country codes, separated by blank spaces, to which the Motion " ++
        "Imagery is releasable." },
    { tag := 7, symbol := "KLV_0102_CLASSIFIED_BY"
      name := "Classified By"
      format := .text
      description := "Name and type of authority used to classify the Motion Imagery." },
    { tag := 8, symbol := "KLV_0102_DERIVED_FROM"
      name := "Derived From"
      format := .text
      description := "Original source of data from which classification was derived." },
    { tag := 9, symbol := "KLV_0102_CLASSIFICATION_REASON"
      name := "Classification Reason"
      format := .text
      description := "Reason for classification of the Motion Imagery, or citation " ++
        "from a document." },
    { tag := 10, symbol := "KLV_0102_DECLASSIFICATION_DATE"
      name := "Declassification Date"
      format := .textOfWidth 8
      description := "Date when the classified material may be automatically " ++
        "declassified. Format: YYYYMMDD." },
    { tag := 11, symbol := "KLV_0102_CLASSIFICATION_AND_MARKING_SYSTEM"
      name := "Classification and Marking System"
      format := .text
      description := "Classification or marking system used in this set." },
    { tag := 12, symbol := "KLV_0102_OBJECT_COUNTRY_CODING_METHOD"
      name := "Country Coding Method for 'Object Country Codes'"
      format := countryCodingMethod, count := .exactly 1
      description := "Method by which the country which is the object of the Motion " ++
        "Imagery is identified." },
    { tag := 13, symbol := "KLV_0102_OBJECT_COUNTRY_CODES"
      name := "Object Country Codes"
      format := .textOf .utf16, count := .exactly 1
      description := "Countries which are the object of the Motion Imagery, " ++
        "separated by ';'." },
    { tag := 14, symbol := "KLV_0102_CLASSIFICATION_COMMENTS"
      name := "Classification Comments"
      format := .text
      description := "Security related comments and future format changes." },
    { tag := 15, symbol := "KLV_0102_UMID_VIDEO"
      name := "UMID Video"
      format := .bytesOf 32, count := .exactly 0
      description := "Deprecated. SMPTE RP210 32-byte identifier for the video stream." },
    { tag := 16, symbol := "KLV_0102_UMID_AUDIO"
      name := "UMID Audio"
      format := .bytesOf 32, count := .exactly 0
      description := "Deprecated. SMPTE RP210 32-byte identifier for the audio stream." },
    { tag := 17, symbol := "KLV_0102_UMID_DATA"
      name := "UMID Data"
      format := .bytesOf 32, count := .exactly 0
      description := "Deprecated. SMPTE RP210 32-byte identifier for the data stream." },
    { tag := 18, symbol := "KLV_0102_UMID_SYSTEM"
      name := "UMID System"
      format := .bytesOf 32, count := .exactly 0
      description := "Deprecated. SMPTE RP210 32-byte identifier for the MI system." },
    { tag := 19, symbol := "KLV_0102_STREAM_ID"
      name := "Stream ID"
      format := .unsigned 1, count := .exactly 0
      description := "Deprecated. Elementary stream identifier." },
    { tag := 20, symbol := "KLV_0102_TRANSPORT_STREAM_ID"
      name := "Transport Stream ID"
      format := .unsigned 2, count := .exactly 0
      description := "Deprecated. Originator-defined transport stream identifier." },
    { tag := 21, symbol := "KLV_0102_ITEM_DESIGNATOR_ID"
      name := "Item Designator ID"
      format := .bytesOf 16, count := .exactly 0
      description := "Deprecated. Universal label of the element, set, or pack this " ++
        "set is linked to." },
    { tag := 22, symbol := "KLV_0102_VERSION"
      name := "Version"
      format := .unsigned 2, count := .exactly 1
      description := "Version number of MISB ST 0102 used to encode this set." },
    { tag := 23, symbol := "KLV_0102_COUNTRY_CODING_METHOD_VERSION_DATE"
      name :=
        "Country Coding Method for 'Classifying Country' and 'Releasing Instructions' Version Date"
      format := .textOfWidth 10
      description := "Effective date of the standard defining the classifying " ++
        "country coding method." },
    { tag := 24, symbol := "KLV_0102_OBJECT_COUNTRY_CODING_METHOD_VERSION_DATE"
      name := "Country Coding Method for 'Object Country Codes' Version Date"
      format := .textOfWidth 10
      description := "Effective date of the standard defining the object country " ++
        "coding method." }]

end MotionMetadata.Table
