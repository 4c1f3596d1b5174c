import JavaSource.Ieee.Basic

/-!
# Shortest decimals

The shortest decimal that reads back as a given floating-point number. The reals that round to the number
form an interval. For one digit, two digits and so on, the two neighbours of the number on the grid of
decimals with that many digits are tried: the first grid with a neighbour in the interval gives the digits.
-/

namespace JavaSource.Decimal

/-- A positive decimal: the first digit counts `10 ^ power`. -/
structure Digits where
  digits : List Char
  power : Int
  deriving DecidableEq

def digitCount (n : Nat) : Nat := (Nat.toDigits 10 n).length

/-- The power of ten of the leading digit of a positive quotient. -/
def leadingPower (num den : Nat) : Int :=
  if den ≤ num then (digitCount (num / den) : Int) - 1
  else
    let k := digitCount (den / num)
    if den ≤ num * Nat.pow 10 (k - 1) then 1 - (k : Int) else -(k : Int)

/-- The numbers that round to one number, as quotients over one denominator. -/
structure Interval where
  low : Nat
  value : Nat
  high : Nat
  den : Nat
  closed : Bool

namespace Interval

/-- Whether `n * 10 ^ power` lies in the interval. -/
def holds (i : Interval) (n : Nat) (power : Int) : Bool :=
  let x := if 0 ≤ power then n * Nat.pow 10 power.toNat * i.den else n * i.den
  let scale := if 0 ≤ power then 1 else Nat.pow 10 (-power).toNat
  let low := i.low * scale
  let high := i.high * scale
  if i.closed then decide (low ≤ x) && decide (x ≤ high) else decide (low < x) && decide (x < high)

/-- The neighbour of the value on a grid that lies in the interval; of two the nearer, of two equally near
the greater. -/
def neighbour? (i : Interval) (power : Int) : Option Nat :=
  let num := if 0 ≤ power then i.value else i.value * Nat.pow 10 (-power).toNat
  let den := if 0 ≤ power then i.den * Nat.pow 10 power.toNat else i.den
  let below := num / den
  match i.holds below power && below != 0, i.holds (below + 1) power with
  | true, false => some below
  | false, true => some (below + 1)
  | true, true => some (if 2 * (num % den) < den then below else below + 1)
  | false, false => none

/-- Tries grids with more and more digits. -/
def search (i : Interval) (leading : Int) : Nat → Nat → Nat × Int
  | 0, n => (i.value, leading - n)
  | fuel + 1, n =>
    match i.neighbour? (leading - n) with
    | some d => (d, leading - n)
    | none => i.search leading fuel (n + 1)

end Interval

open Ieee

/-- The interval around a positive finite datum: half a step on each side, and a quarter below the least
significand of a binade that is not the lowest. -/
def interval {f : Format} (x : Datum f) : Interval where
  low :=
    if x.fractionField = 0 ∧ 1 < x.exponentField then (4 * x.significand - 1) * Nat.pow 2 x.shift
    else (4 * x.significand - 2) * Nat.pow 2 x.shift
  value := 4 * x.significand * Nat.pow 2 x.shift
  high := (4 * x.significand + 2) * Nat.pow 2 x.shift
  den := 4 * Nat.pow 2 f.unitPower
  closed := x.significand % 2 = 0

def dropTrailingZeros (ds : List Char) : List Char :=
  (ds.reverse.dropWhile (· = '0')).reverse

/-- The shortest digits of a positive finite datum. -/
def shortest {f : Format} (x : Datum f) : Digits :=
  let i := interval x
  let found := i.search (leadingPower i.value i.den) (f.fractionWidth / 3 + 2) 0
  let ds := Nat.toDigits 10 found.1
  ⟨dropTrailingZeros ds, found.2 + ds.length - 1⟩

end JavaSource.Decimal
