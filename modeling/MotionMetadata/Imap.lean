import MotionMetadata.Bytes
import MotionMetadata.Decimal.Layout

/-!
# Scaled real numbers and their special values

A scaled field holds a real number of a closed domain, mapped onto an integer of one to
eight bytes. Bit patterns past the image of the domain are set aside for infinities, NaNs
with a payload, the two out-of-range markers and values the user defines.
-/

namespace MotionMetadata

/-- A scaled field: a number, or one of the reserved patterns with all that it carries. -/
inductive Imap where
  /-- A number of the domain, or an infinity. -/
  | normal (value : Binary64)
  | nan (signaling negative : Bool) (payload : UInt64)
  | belowMinimum
  | aboveMaximum
  | userDefined (payload : UInt64)
deriving DecidableEq, Inhabited

namespace Imap

/-- A double as a scaled value. A NaN becomes a quiet one of its sign, its payload left
behind. -/
def ofBinary64 (x : Binary64) : Imap :=
  if x.isNaN then .nan false x.isNegative 0 else .normal x

/-- The nearest double: out-of-range markers become infinite, all else without a number a
NaN of its sign. -/
def toBinary64 : Imap → Binary64
  | .normal x => x
  | .nan _ true _ => .negNan
  | .nan _ false _ => .nan
  | .userDefined _ => .nan
  | .belowMinimum => .negInfinity
  | .aboveMaximum => .infinity

/-- What the pattern carries below its five header bits. -/
def payload : Imap → UInt64
  | .nan _ _ p => p
  | .userDefined p => p
  | _ => 0

/-- The fewest bytes that hold the header and the payload. -/
def minLength (v : Imap) : Nat := ceilDiv (bitLength v.payload.toNat + 5) 8

def equals : Imap → Imap → Bool
  | .normal x, .normal y => x.equals y
  | .nan s n p, .nan s' n' p' => s == s' && n == n' && p == p'
  | .belowMinimum, .belowMinimum => true
  | .aboveMaximum, .aboveMaximum => true
  | .userDefined p, .userDefined p' => p == p'
  | _, _ => false

def display : Imap → String
  | .normal x => x.display
  | .nan signaling negative p =>
    "<" ++ (if negative then "-" else "") ++ (if signaling then "snan" else "qnan") ++
      s!"({p.toNat})>"
  | .belowMinimum => "<below-minimum>"
  | .aboveMaximum => "<above-maximum>"
  | .userDefined p => s!"<user-defined({p.toNat})>"

end Imap

end MotionMetadata
