import JavaSource.Ieee.Basic

/-!
# Rounding to a floating-point format

A quotient of natural numbers is rounded to the nearest datum, a half going to the even significand.
Integers, decimal fractions and data of another format are all quotients.
-/

namespace JavaSource.Ieee

/-- The nearest natural number to a quotient, a half going to the even neighbour. -/
def roundQuotient (num den : Nat) : Nat :=
  let q := num / den
  let r := num % den
  if 2 * r < den then q
  else if den < 2 * r then q + 1
  else q + q % 2

@[simp] theorem roundQuotient_one (n : Nat) : roundQuotient n 1 = n := by
  simp [roundQuotient, Nat.mod_one]

theorem roundQuotient_le (num den : Nat) : roundQuotient num den ≤ num / den + 1 := by
  unfold roundQuotient
  dsimp only
  split
  · omega
  · split <;> omega

theorem le_roundQuotient (num den : Nat) : num / den ≤ roundQuotient num den := by
  unfold roundQuotient
  dsimp only
  split
  · omega
  · split <;> omega

theorem Format.infinityBits_lt_signBit (f : Format) : f.infinityBits < f.signBit := by
  have hfraction : 0 < Nat.pow 2 f.fractionWidth := Nat.pow_pos Nat.two_pos
  have hexponent : 0 < Nat.pow 2 f.exponentWidth := Nat.pow_pos Nat.two_pos
  calc f.infinityBits < Nat.pow 2 f.exponentWidth * Nat.pow 2 f.fractionWidth :=
        Nat.mul_lt_mul_of_pos_right (Nat.sub_lt hexponent Nat.one_pos) hfraction
    _ = f.signBit := (Nat.pow_add 2 f.exponentWidth f.fractionWidth).symm

namespace Datum

variable {f g : Format}

/-- Exponent and significand share one sum: a significand that reaches the next power of two carries into
the exponent field, and past the largest exponent into infinity. -/
def ofMagnitudeBits (negative : Bool) (n : Nat) : Datum f :=
  ofBits (min n f.infinityBits + if negative then f.signBit else 0)

theorem magnitudeBits_ofMagnitudeBits (negative : Bool) (n : Nat) :
    (ofMagnitudeBits negative n : Datum f).magnitudeBits = min n f.infinityBits := by
  have hlt : min n f.infinityBits < f.signBit :=
    Nat.lt_of_le_of_lt (Nat.min_le_right _ _) f.infinityBits_lt_signBit
  have hwidth : 2 ^ (1 + f.exponentWidth + f.fractionWidth) = 2 * f.signBit := by
    rw [Nat.add_assoc, Nat.pow_add]
    rfl
  have hbits : (ofMagnitudeBits negative n : Datum f).toBits =
      (min n f.infinityBits + if negative then f.signBit else 0) % (2 * f.signBit) := by
    rw [← hwidth]
    exact BitVec.toNat_ofNat ..
  rw [magnitudeBits, hbits, Nat.mod_mul_left_mod]
  cases negative with
  | false => exact Nat.mod_eq_of_lt hlt
  | true => simp [Nat.mod_eq_of_lt hlt]

theorem isNaN_ofMagnitudeBits (negative : Bool) (n : Nat) :
    (ofMagnitudeBits negative n : Datum f).isNaN = false := by
  rw [isNaN, magnitudeBits_ofMagnitudeBits]
  exact decide_eq_false (Nat.not_lt.mpr (Nat.min_le_right _ _))

def nan : Datum f := ofBits (f.infinityBits + Nat.pow 2 (f.fractionWidth - 1))

def infinity (negative : Bool) : Datum f := ofMagnitudeBits negative f.infinityBits

/-- The magnitude bits of a quotient counted in steps of the format. -/
def magnitudeBitsOf (f : Format) (num den : Nat) : Nat :=
  let shift := Nat.log2 (num / den) - f.fractionWidth
  shift * Nat.pow 2 f.fractionWidth + roundQuotient num (den * Nat.pow 2 shift)

def ofQuotient (negative : Bool) (num den : Nat) : Datum f :=
  ofMagnitudeBits negative (magnitudeBitsOf f (num * Nat.pow 2 f.unitPower) den)

def ofInt (z : Int) : Datum f := ofQuotient (z < 0) z.natAbs 1

theorem isNaN_ofInt (z : Int) : (ofInt z : Datum f).isNaN = false := isNaN_ofMagnitudeBits _ _

/-- A decimal fraction, digits times a power of ten. Far outside the range of the format the answer is known
without the power. -/
def ofDecimal (negative : Bool) (digits : Nat) (power : Int) : Datum f :=
  if digits = 0 then ofMagnitudeBits negative 0
  else if 2 * f.unitPower < power then infinity negative
  else if power + (Nat.log2 digits + 1) < -(2 * f.unitPower) then ofMagnitudeBits negative 0
  else if 0 ≤ power then ofQuotient negative (digits * Nat.pow 10 power.toNat) 1
  else ofQuotient negative digits (Nat.pow 10 (-power).toNat)

/-- The nearest datum of another format. -/
def convert (x : Datum f) (g : Format) : Datum g :=
  if x.isNaN then nan
  else if x.isInfinite then infinity x.isNegative
  else ofQuotient x.isNegative x.magnitude (Nat.pow 2 f.unitPower)

/-- Only a NaN becomes a NaN. -/
theorem isNaN_convert {x : Datum f} (h : x.isNaN = false) : (x.convert g).isNaN = false := by
  unfold convert
  rw [if_neg (by simp [h])]
  split
  · exact isNaN_ofMagnitudeBits _ _
  · exact isNaN_ofMagnitudeBits _ _

end Datum
end JavaSource.Ieee
