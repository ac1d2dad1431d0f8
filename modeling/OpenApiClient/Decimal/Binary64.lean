/-!
# Binary floating point

A 64-bit floating-point number is kept as its bits.  This module takes the bits apart and
gives the exact value as a whole number times a power of two.
-/

namespace OpenApiClient.Decimal

/-- The bits of a 64-bit floating-point number. -/
structure Binary64 where
  bits : UInt64
  deriving DecidableEq, Repr, Inhabited

namespace Binary64

/-- The sign bit. -/
def isNegative (x : Binary64) : Bool := x.bits.toNat / Nat.pow 2 63 == 1

/-- The exponent field. -/
def exponentField (x : Binary64) : Nat := x.bits.toNat / Nat.pow 2 52 % 2048

/-- The fraction field. -/
def fractionField (x : Binary64) : Nat := x.bits.toNat % Nat.pow 2 52

/-- Not a number. -/
def isNaN (x : Binary64) : Bool := x.exponentField == 2047 && x.fractionField != 0

/-- One of the two infinities. -/
def isInfinite (x : Binary64) : Bool := x.exponentField == 2047 && x.fractionField == 0

/-- Neither infinite nor undefined. -/
def isFinite (x : Binary64) : Bool := x.exponentField != 2047

/-- Zero of either sign. -/
def isZero (x : Binary64) : Bool := x.exponentField == 0 && x.fractionField == 0

/-- The whole number of which the magnitude is a multiple by a power of two. -/
def mantissa (x : Binary64) : Nat :=
  if x.exponentField = 0 then x.fractionField else Nat.pow 2 52 + x.fractionField

/-- The power of two that goes with the mantissa. -/
def exponent (x : Binary64) : Int :=
  (max x.exponentField 1 : Nat) - 1075

/-- The bits of a machine number. -/
def ofFloat (x : Float) : Binary64 := ⟨x.toBits⟩

/-- The machine number with these bits. -/
def toFloat (x : Binary64) : Float := Float.ofBits x.bits

/-- Positive infinity. -/
def infinity : Binary64 := ⟨0x7ff0000000000000⟩

/-- The undefined number. -/
def nan : Binary64 := ⟨0x7ff8000000000000⟩

/-- Zero. -/
def zero : Binary64 := ⟨0⟩

/-- The number with the other sign. -/
def negate (x : Binary64) : Binary64 := ⟨x.bits ^^^ 0x8000000000000000⟩

/-- The exact value of a finite number as a fraction in lowest terms whose denominator is the
given power of two. -/
def fraction? (x : Binary64) : Option (Int × Nat) :=
  if x.isFinite then
    let m : Int := if x.isNegative then -(x.mantissa : Int) else x.mantissa
    some (reduce 1100 (m * Nat.pow 2 x.exponent.toNat) (-x.exponent).toNat)
  else none
where
  /-- Halves numerator and denominator while both are even. -/
  reduce : Nat → Int → Nat → Int × Nat
    | steps + 1, m, k + 1 => if m % 2 = 0 then reduce steps (m / 2) k else (m, k + 1)
    | _, m, k => (m, k)

/-- The number nearest to `digits · 10 ^ exponent`.  Values far outside the range are settled
by their magnitude alone. -/
def ofDecimal (digits : Nat) (exponent : Int) : Binary64 :=
  let top : Int := (toString digits).length + exponent
  if digits = 0 || top < -330 then zero
  else if top > 310 then infinity
  else ofFloat (Float.ofScientific digits (exponent < 0) exponent.natAbs)

end Binary64

end OpenApiClient.Decimal
