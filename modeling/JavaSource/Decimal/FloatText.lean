import JavaSource.Decimal.Shortest

/-!
# Text of floating-point numbers

Numbers from `0.0001` up to, and without, `10 ^ 16` are written positionally with a point and at least one
digit on each side. All others have one digit before the point and a power of ten behind an `e`.
-/

namespace JavaSource.Decimal

open Ieee

def zeros (n : Nat) : List Char := List.replicate n '0'

def positional (d : Digits) : List Char :=
  if d.power < 0 then ['0', '.'] ++ zeros ((-d.power).toNat - 1) ++ d.digits
  else
    let whole := d.power.toNat + 1
    let fraction := d.digits.drop whole
    d.digits.take whole ++ zeros (whole - d.digits.length) ++
      '.' :: (if fraction = [] then ['0'] else fraction)

def scientific (d : Digits) : List Char :=
  match d.digits with
  | [] => []
  | c :: cs => c :: (if cs = [] then [] else '.' :: cs) ++ 'e' :: (toString d.power).toList

def Digits.text (d : Digits) : List Char :=
  if -4 ≤ d.power ∧ d.power < 16 then positional d else scientific d

/-- The text of a finite number. -/
def floatText {f : Format} (x : Datum f) : String :=
  let sign := if x.isNegative then ['-'] else []
  let body := if x.isZero then ['0', '.', '0'] else (shortest x).text
  String.ofList (sign ++ body)

end JavaSource.Decimal
