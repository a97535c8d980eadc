/-! Binary64 numbers by their bits. Two doubles are the same value when their bits agree, so a
zero keeps its sign and a NaN its payload; `sameNumber` is the comparison of numbers. A finite
double has the magnitude `mantissa * 2 ^ scale`. -/

namespace SchemaReport

structure Double where
  bits : UInt64
  deriving DecidableEq

namespace Double

-- Powers are those of the core library, also where an algebraic hierarchy brings its own.
attribute [local instance (high)] instPowNat

def zero : Double := ⟨0⟩

/-- The one NaN that texts stand for. -/
def nan : Double := ⟨0x7ff8000000000000⟩

/-- The sign and the 63 bits below it. -/
def ofMagnitude (negative : Bool) (m : Nat) : Double :=
  ⟨UInt64.ofNat (if negative then 2 ^ (63 : Nat) + m else m)⟩

def infinityMagnitude : Nat := 2047 * 2 ^ (52 : Nat)

def infinity (negative : Bool) : Double := ofMagnitude negative infinityMagnitude

def isNegative (d : Double) : Bool := 2 ^ (63 : Nat) ≤ d.bits.toNat

def magnitude (d : Double) : Nat := d.bits.toNat % 2 ^ (63 : Nat)

def isNaN (d : Double) : Bool := infinityMagnitude < d.magnitude

def isInfinite (d : Double) : Bool := d.magnitude = infinityMagnitude

def biasedExponent (d : Double) : Nat := d.magnitude / 2 ^ (52 : Nat)

/-- A leading one is implied above the fraction, except at the lowest exponent. -/
def mantissa (d : Double) : Nat :=
  if d.biasedExponent = 0 then d.magnitude else 2 ^ (52 : Nat) + d.magnitude % 2 ^ (52 : Nat)

def scale (d : Double) : Int := max 1 d.biasedExponent - 1075

/-- Numeric equality: a NaN equals nothing, and the two zeros are equal. -/
def sameNumber (a b : Double) : Bool :=
  !a.isNaN && !b.isNaN && (a == b || a.magnitude == 0 && b.magnitude == 0)

end Double

end SchemaReport
