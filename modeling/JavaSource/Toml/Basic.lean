import JavaSource.Ieee.Basic
import JavaSource.Toml.DateTime

/-!
# TOML values

A document is a table. Values are scalars, arrays and tables. A number may be too large for all that reads
numbers. It is a value nevertheless, as nobody need read it.
-/

namespace JavaSource.Toml

inductive Scalar where
  | string (s : String)
  | integer (n : Int)
  | float (x : Ieee.Datum Ieee.double)
  | boolean (b : Bool)
  | dateTime (t : DateTime)
  /-- A number past the words of 64 bits and past the floats. -/
  | outOfRange
  deriving DecidableEq

inductive Value where
  | scalar (s : Scalar)
  | array (items : List Value)
  | table (entries : List (String × Value))
  deriving Inhabited

namespace Value

mutual

/-- How deep arrays and tables are nested. -/
def depth : Value → Nat
  | .scalar _ => 1
  | .array items => depthItems items + 1
  | .table entries => depthEntries entries + 1

def depthItems : List Value → Nat
  | [] => 0
  | v :: vs => max (depth v) (depthItems vs)

def depthEntries : List (String × Value) → Nat
  | [] => 0
  | (_, v) :: rest => max (depth v) (depthEntries rest)

end

mutual

/-- Whether all numbers in a value are in range. -/
def isInRange : Value → Bool
  | .scalar s => s ≠ .outOfRange
  | .array items => areInRange items
  | .table entries => entriesAreInRange entries

def areInRange : List Value → Bool
  | [] => true
  | v :: vs => isInRange v && areInRange vs

def entriesAreInRange : List (String × Value) → Bool
  | [] => true
  | (_, v) :: rest => isInRange v && entriesAreInRange rest

end

end Value
end JavaSource.Toml
