/-!
# Binary floating-point data

A datum is its bit pattern. Its magnitude is counted in the smallest positive step of the format, so every
finite magnitude is a natural number and comparisons are exact.
-/

namespace JavaSource.Ieee

/-- The widths of the exponent field and of the fraction field. -/
structure Format where
  exponentWidth : Nat
  fractionWidth : Nat
  deriving DecidableEq

def single : Format := ⟨8, 23⟩

def double : Format := ⟨11, 52⟩

namespace Format

/-- The smallest positive step of the format is two to the power of minus this. -/
def unitPower (f : Format) : Nat := Nat.pow 2 (f.exponentWidth - 1) - 2 + f.fractionWidth

def infinityBits (f : Format) : Nat := (Nat.pow 2 f.exponentWidth - 1) * Nat.pow 2 f.fractionWidth

def signBit (f : Format) : Nat := Nat.pow 2 (f.exponentWidth + f.fractionWidth)

end Format

structure Datum (f : Format) where
  bits : BitVec (1 + f.exponentWidth + f.fractionWidth)
  deriving DecidableEq

namespace Datum

variable {f : Format}

def ofBits (n : Nat) : Datum f := ⟨BitVec.ofNat _ n⟩

def toBits (x : Datum f) : Nat := x.bits.toNat

def isNegative (x : Datum f) : Bool := x.toBits / f.signBit % 2 = 1

/-- The bits below the sign. -/
def magnitudeBits (x : Datum f) : Nat := x.toBits % f.signBit

def exponentField (x : Datum f) : Nat := x.magnitudeBits / Nat.pow 2 f.fractionWidth

def fractionField (x : Datum f) : Nat := x.magnitudeBits % Nat.pow 2 f.fractionWidth

def isNaN (x : Datum f) : Bool := decide (f.infinityBits < x.magnitudeBits)

def isInfinite (x : Datum f) : Bool := x.magnitudeBits = f.infinityBits

def isZero (x : Datum f) : Bool := x.magnitudeBits = 0

/-- The significand of a finite datum, hidden bit included. -/
def significand (x : Datum f) : Nat :=
  if x.exponentField = 0 then x.fractionField else Nat.pow 2 f.fractionWidth + x.fractionField

/-- The power of two that the significand is multiplied with, in steps of the format. -/
def shift (x : Datum f) : Nat := x.exponentField - 1

/-- The magnitude of a finite datum in steps of the format. -/
def magnitude (x : Datum f) : Nat := x.significand * Nat.pow 2 x.shift

/-- Equality of numbers: zeros of either sign are equal and nothing equals a NaN. -/
def sameNumber (x y : Datum f) : Bool :=
  !x.isNaN && !y.isNaN && (x.bits = y.bits || (x.isZero && y.isZero))

theorem sameNumber_comm (x y : Datum f) : x.sameNumber y = y.sameNumber x := by
  have h : decide (x.bits = y.bits) = decide (y.bits = x.bits) := by simp [eq_comm]
  simp only [sameNumber, Bool.and_comm (!x.isNaN), Bool.and_comm x.isZero, h]

theorem sameNumber_self {x : Datum f} (h : x.isNaN = false) : x.sameNumber x = true := by
  simp [sameNumber, h]

end Datum
end JavaSource.Ieee
