import JavaSource.Toml.Digits

/-!
# Dates and times

A date, a time of day, or both with or without the distance from universal time. There is one text for each:
a `T` between date and time, the seconds always and no idle zeros behind them, a `Z` for universal time.
-/

namespace JavaSource.Toml

structure Date where
  year : Nat
  month : Nat
  day : Nat
  deriving DecidableEq

structure TimeOfDay where
  hour : Nat
  minute : Nat
  second : Nat
  /-- Billionths of a second. -/
  nano : Nat
  deriving DecidableEq

/-- How far a clock is ahead of universal time. -/
inductive Offset where
  | universal
  | minutes (n : Int)
  deriving DecidableEq

inductive DateTime where
  | date (d : Date)
  | time (t : TimeOfDay)
  | dateTime (d : Date) (t : TimeOfDay) (offset : Option Offset)
  deriving DecidableEq

def daysInMonth (year month : Nat) : Nat :=
  if month = 2 then
    if (year % 4 = 0 ∧ year % 100 ≠ 0) ∨ year % 400 = 0 then 29 else 28
  else if month ∈ [4, 6, 9, 11] then 30
  else 31

namespace Date

/-- A date, and what follows it. -/
def read? (cs : List Char) : Option (Date × List Char) := do
  let (year, r) ← digits? 4 0 9999 cs
  let r ← char? '-' r
  let (month, r) ← digits? 2 1 12 r
  let r ← char? '-' r
  let (day, r) ← digits? 2 1 (daysInMonth year month) r
  return (⟨year, month, day⟩, r)

def text (d : Date) : List Char := padded 4 d.year ++ '-' :: padded 2 d.month ++ '-' :: padded 2 d.day

end Date

namespace TimeOfDay

/-- The billionths that digits behind the point of the seconds stand for. Digits past the ninth do not
count. -/
def nanoOf (fraction : List Char) : Nat :=
  (number? 10 (fraction.take 9)).getD 0 * Nat.pow 10 (9 - fraction.length)

/-- The part of a second behind the point, if there is one, and what follows it. -/
def fraction? : List Char → Option (Nat × List Char)
  | '.' :: r =>
    let fraction := r.takeWhile Char.isDigit
    if fraction.isEmpty then none else some (nanoOf fraction, r.drop fraction.length)
  | r => some (0, r)

/-- The seconds and the part of a second behind them, zero where they are left out, and what follows them. A
minute may have a leap second. -/
def seconds? : List Char → Option (Nat × Nat × List Char)
  | ':' :: r => do
    let (second, r) ← digits? 2 0 60 r
    let (nano, r) ← fraction? r
    return (second, nano, r)
  | r => some (0, 0, r)

/-- A time of day, and what follows it. -/
def read? (cs : List Char) : Option (TimeOfDay × List Char) := do
  let (hour, r) ← digits? 2 0 23 cs
  let r ← char? ':' r
  let (minute, r) ← digits? 2 0 59 r
  let (second, nano, r) ← seconds? r
  return (⟨hour, minute, second, nano⟩, r)

def fractionText (nano : Nat) : List Char :=
  if nano = 0 then []
  else '.' :: ((padded 9 nano).reverse.dropWhile (· = '0')).reverse

def text (t : TimeOfDay) : List Char :=
  padded 2 t.hour ++ ':' :: padded 2 t.minute ++ ':' :: padded 2 t.second ++ fractionText t.nano

end TimeOfDay

namespace Offset

def clock? (cs : List Char) : Option Nat := do
  let (hours, r) ← digits? 2 0 23 cs
  let r ← char? ':' r
  let (rest, r) ← digits? 2 0 59 r
  if r = [] then some (60 * hours + rest) else none

def read? : List Char → Option Offset
  | ['Z'] | ['z'] => some .universal
  | '+' :: r => (clock? r).map fun n ↦ .minutes n
  | '-' :: r => (clock? r).map fun n ↦ .minutes (-(n : Int))
  | _ => none

def text : Offset → List Char
  | universal => ['Z']
  | minutes n =>
    (if n < 0 then '-' else '+') :: padded 2 (n.natAbs / 60) ++ ':' :: padded 2 (n.natAbs % 60)

end Offset

namespace DateTime

/-- A time behind a date, with or without an offset. -/
def readTime? (d : Date) (cs : List Char) : Option DateTime := do
  let (t, r) ← TimeOfDay.read? cs
  match r with
  | [] => return .dateTime d t none
  | r => (Offset.read? r).map fun o ↦ .dateTime d t (some o)

/-- The date or time that a word stands for. -/
def read? (cs : List Char) : Option DateTime :=
  match Date.read? cs with
  | some (d, []) => some (.date d)
  | some (d, c :: r) => if c = 'T' ∨ c = 't' ∨ c = ' ' then readTime? d r else none
  | none =>
    match TimeOfDay.read? cs with
    | some (t, []) => some (.time t)
    | _ => none

def text : DateTime → String
  | date d => String.ofList d.text
  | time t => String.ofList t.text
  | dateTime d t offset =>
    String.ofList (d.text ++ 'T' :: t.text ++ (offset.map Offset.text).getD [])

end DateTime
end JavaSource.Toml
