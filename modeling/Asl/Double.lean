/-!
# Double-precision literals

A literal keeps the bit pattern of the number it stands for, so a tree loses nothing
of its source. Two patterns denote equal numbers when they coincide or are the two
zeros; a pattern that is not a number denotes none and equals nothing, itself included.
-/

namespace Asl

structure Double where
  bits : UInt64
deriving DecidableEq

namespace Double

/-- All but the sign. -/
def magnitude (x : Double) : UInt64 := x.bits &&& 0x7fffffffffffffff

def isNaN (x : Double) : Bool := 0x7ff0000000000000 < x.magnitude

def isZero (x : Double) : Bool := x.magnitude == 0

def same (x y : Double) : Bool :=
  !x.isNaN && !y.isNaN && (x.bits == y.bits || x.isZero && y.isZero)

end Double

end Asl
