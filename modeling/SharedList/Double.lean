/-!
# Doubles

A double is a floating-point number of 64 bits: a sign, eleven bits of exponent, and 52 bits of
fraction.  Some patterns of bits stand for no number; they have a sign all the same, so a double is
its bits.

* `Double.partialCmp` — the order of numbers.  Both zeros are equal, and what is no number is
  comparable with nothing, not even with itself.
* `Double.totalCmp` — the order of all doubles by sign and magnitude, in which two doubles are
  equal only if they are the same.
-/

set_option autoImplicit false

namespace SharedList

/-- A floating-point number of 64 bits. -/
structure Double where
  bits : UInt64
  deriving DecidableEq, Repr, Inhabited

namespace Double

/-- Whether the sign is negative. -/
def isNegative (x : Double) : Bool := x.bits >>> 63 == 1

/-- The bits without the sign.  They grow with the magnitude. -/
def magnitude (x : Double) : Nat := (x.bits &&& 0x7fffffffffffffff).toNat

/-- The magnitude of the infinite doubles; beyond it are no numbers. -/
def infiniteMagnitude : Nat := 0x7ff0000000000000

/-- Whether a double is no number. -/
def isNaN (x : Double) : Bool := infiniteMagnitude < x.magnitude

/-- Whether a double is infinite. -/
def isInf (x : Double) : Bool := x.magnitude == infiniteMagnitude

/-- A double of no number, with positive sign. -/
def nan : Double := ⟨0x7ff8000000000000⟩

/-- The infinite double of positive sign. -/
def inf : Double := ⟨0x7ff0000000000000⟩

/-- The double that holds a number. -/
def ofFloat (x : Float) : Double := ⟨x.toBits⟩

/-- The double of the opposite sign. -/
protected def neg (x : Double) : Double := ⟨x.bits ^^^ 0x8000000000000000⟩

instance : Neg Double := ⟨Double.neg⟩

/-- A whole number that grows with the number; both zeros have the same. -/
def key (x : Double) : Int := if x.isNegative then -x.magnitude else x.magnitude

/-- The order of numbers. -/
def partialCmp (a b : Double) : Option Ordering :=
  if a.isNaN || b.isNaN then none else some (compare a.key b.key)

/-- Equality of numbers; what is no number equals nothing. -/
def eq (a b : Double) : Bool := !a.isNaN && !b.isNaN && a.key == b.key

/-- The place among all doubles: the negative ones in front, the greatest magnitude first. -/
def rank (x : Double) : Int := if x.isNegative then -x.magnitude - 1 else x.magnitude

/-- The order of all doubles. -/
def totalCmp (a b : Double) : Ordering := compare a.rank b.rank

end Double

end SharedList
