import JavaSource.Ieee.Rounding
import JavaSource.Text.Split
import JavaSource.Toml.Basic

/-!
# Unquoted scalars

Booleans, numbers, dates and times. Digits may be grouped by single underscores. An integer that fits neither
a signed nor an unsigned word of 64 bits is out of range, and so is a number too large for a float.
-/

namespace JavaSource.Toml

/-- The digits of a group without the underscores between them. -/
def ungroup? (base : Nat) (cs : List Char) : Option (List Char) :=
  let groups := Text.splitAll '_' cs
  if groups.all fun g ↦ (number? base g).isSome then some groups.flatten else none

/-- Digits of a decimal number that does not start with an idle zero. -/
def wholePart? (cs : List Char) : Option (List Char) :=
  match ungroup? 10 cs with
  | some ['0'] => some ['0']
  | some ('0' :: _) => none
  | digits => digits

def splitSign : List Char → Bool × Bool × List Char
  | '+' :: cs => (true, false, cs)
  | '-' :: cs => (true, true, cs)
  | cs => (false, false, cs)

def signed (negative : Bool) (n : Nat) : Int := if negative then -(n : Int) else n

def fitsWord (n : Int) : Bool := Int64.minValue.toInt ≤ n && n < UInt64.size

def Scalar.ofInteger (n : Int) : Scalar := if fitsWord n then .integer n else .outOfRange

def Scalar.ofFloat (x : Ieee.Datum Ieee.double) : Scalar := if x.isInfinite then .outOfRange else .float x

def integer? (cs : List Char) : Option Int :=
  let (hasSign, negative, digits) := splitSign cs
  let n? := match hasSign, digits with
    | false, '0' :: 'x' :: ds => (ungroup? 16 ds).bind (number? 16)
    | false, '0' :: 'o' :: ds => (ungroup? 8 ds).bind (number? 8)
    | false, '0' :: 'b' :: ds => (ungroup? 2 ds).bind (number? 2)
    | _, ds => (wholePart? ds).bind (number? 10)
  n?.map (signed negative)

/-- The digits behind the point, if there is one. -/
def fraction? : List Char → Option (List Char)
  | [] => some []
  | '.' :: cs => ungroup? 10 cs
  | _ => none

/-- The power of ten, if there is one. -/
def power? : List Char → Option Int
  | [] => some 0
  | 'e' :: cs | 'E' :: cs =>
    let (_, negative, digits) := splitSign cs
    ((ungroup? 10 digits).bind (number? 10)).map (signed negative)
  | _ => none

/-- A number with a point or with a power of ten, infinite if it is too large. -/
def float? (cs : List Char) : Option (Ieee.Datum Ieee.double) :=
  let (_, negative, digits) := splitSign cs
  let isE (c : Char) : Bool := c = 'e' || c = 'E'
  let mantissa := digits.takeWhile (!isE ·)
  if mantissa = digits ∧ '.' ∉ mantissa then none else
  match wholePart? (mantissa.takeWhile (· ≠ '.')), fraction? (mantissa.dropWhile (· ≠ '.')),
      power? (digits.dropWhile (!isE ·)) with
  | some whole, some fraction, some power =>
    some (.ofDecimal negative ((number? 10 (whole ++ fraction)).getD 0) (power - fraction.length))
  | _, _, _ => none

def namedFloat? (cs : List Char) : Option (Ieee.Datum Ieee.double) :=
  let (_, negative, name) := splitSign cs
  if name = ['i', 'n', 'f'] then some (.infinity negative)
  else if name = ['n', 'a', 'n'] then some .nan
  else none

/-- The scalar that a word stands for. -/
def scalar? (cs : List Char) : Option Scalar :=
  if cs = ['t', 'r', 'u', 'e'] then some (.boolean true)
  else if cs = ['f', 'a', 'l', 's', 'e'] then some (.boolean false)
  else
    match DateTime.read? cs, integer? cs, namedFloat? cs with
    | some t, _, _ => some (.dateTime t)
    | none, some n, _ => some (.ofInteger n)
    | none, none, some x => some (.float x)
    | none, none, none => (float? cs).map .ofFloat

end JavaSource.Toml
