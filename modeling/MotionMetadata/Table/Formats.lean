import MotionMetadata.Format

/-!
# What tables are written with

The formats that occur in table after table. A number in them that makes no sense would be a
mistake in the table, so nothing is checked here.
-/

namespace MotionMetadata.Format

def bytesOf (width : Nat) : Format := plain (.blob (.exactly width))

def unsigned (width : Nat) : Format := plain (.uint (.exactly width))

/-- Unsigned integers of any width. -/
def anyUnsigned : Format := plain (.uint .free)

/-- Signed integers of any width. -/
def anySigned : Format := plain (.sint .free)

/-- Doubles, or singles when `width` is 4. -/
def real (width : Nat) : Format := plain (.float (.exactly width))

/-- UTF-8 text. -/
def text : Format := textOf .utf8

/-- UTF-8 text of `width` bytes. -/
def textOfWidth (width : Nat) : Format := plain (.text .utf8 .free (.exactly width))

/-- One byte that stands for one of some names. -/
def code (name : String) (names : Names) : Format :=
  plain (.enumeration name (.exactly 1) names)

/-- The unsigned mapping of the domain from `low` to `high` to integers. -/
def linear (low high : Binary64) (width : Nat) : Format :=
  plain (.linear false low high (.exactly width))

/-- The signed mapping of the domain from `-bound` to `bound` to integers. -/
def centered (bound : Binary64) (width : Nat) : Format :=
  plain (.linear true (-bound) bound (.exactly width))

/-- Scaled numbers of any width, preferably of `suggested` bytes. -/
def scaled (low high : Binary64) (suggested : Nat) : Format :=
  plain (.imap low high { shape := .range 1 8, preferred := some suggested })

/-- A set without a checksum, inside another set. -/
def nested (standard : Standard) : Format := localSet standard none

end MotionMetadata.Format
