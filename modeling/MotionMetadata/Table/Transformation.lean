import MotionMetadata.Table
import MotionMetadata.Table.Formats

/-!
# Transformations

Eight coefficients of a projective map of the plane. Packs of their uncertainty may follow
them.
-/

namespace MotionMetadata.Table

def transformationTypes : Names :=
  [(0, "Not Defined"), (1, "Chipping"), (2, "Child-Parent"), (3, "Pixel to Image Space"),
   (4, "Optical")]

/-- The tags of a transformation. -/
def transformation : Table where
  name := Standard.name .transformation
  unknown := .unknown "KLV_1202_UNKNOWN"
  known := [
    { tag := 1, symbol := "KLV_1202_X_NUMERATOR_X_FACTOR"
      name := "X Equation Numeration - X Factor"
      format := .real 4
      description := "Value A in Equation 1 of ST1202." },
    { tag := 2, symbol := "KLV_1202_X_NUMERATOR_Y_FACTOR"
      name := "X Equation Numeration - Y Factor"
      format := .real 4
      description := "Value B in Equation 1 of ST1202." },
    { tag := 3, symbol := "KLV_1202_X_NUMERATOR_CONSTANT"
      name := "X Equation Numeration - Constant"
      format := .real 4
      description := "Value C in Equation 1 of ST1202." },
    { tag := 4, symbol := "KLV_1202_Y_NUMERATOR_X_FACTOR"
      name := "Y Equation Numeration - X Factor"
      format := .real 4
      description := "Value D in Equation 2 of ST1202." },
    { tag := 5, symbol := "KLV_1202_Y_NUMERATOR_Y_FACTOR"
      name := "Y Equation Numeration - Y Factor"
      format := .real 4
      description := "Value E in Equation 2 of ST1202." },
    { tag := 6, symbol := "KLV_1202_Y_NUMERATOR_CONSTANT"
      name := "Y Equation Numeration - Constant"
      format := .real 4
      description := "Value F in Equation 2 of ST1202." },
    { tag := 7, symbol := "KLV_1202_DENOMINATOR_X_FACTOR"
      name := "Denominator - X Factor"
      format := .real 4
      description := "Value G in Equations 1 and 2 of ST1202." },
    { tag := 8, symbol := "KLV_1202_DENOMINATOR_Y_FACTOR"
      name := "Denominator - Y Factor"
      format := .real 4
      description := "Value H in Equations 1 and 2 of ST1202." },
    { tag := 9, symbol := "KLV_1202_SDCC_FLP"
      name := "SDCC-FLP"
      format := .plain (.correlation []), count := .any
      description := "Standard Deviation and Correlation Coefficient Pack." },
    { tag := 10, symbol := "KLV_1202_VERSION"
      name := "Document Version"
      format := .unsigned 1, count := .exactly 1
      description := "Version number of MISB ST1202 document used to encode this " ++
        "metadata." },
    { tag := 11, symbol := "KLV_1202_TRANSFORMATION_TYPE"
      name := "Transformation Type"
      format := .code "transformation type" transformationTypes
      description := "Type of transformation encoded." }]

end MotionMetadata.Table
