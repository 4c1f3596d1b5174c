import JavaSource.Ieee.Basic
import JavaSource.JavaType.Basic

/-!
# Expressions

An expression owns its parts. Bodies of anonymous classes are not part of an expression: an instance creation
names the class by its type, and the class entry holds the body.
-/

namespace JavaSource

inductive UnaryOp where
  | neg
  | not
  | complement
  | preIncrement
  | preDecrement
  | postIncrement
  | postDecrement
  deriving DecidableEq

namespace UnaryOp

def symbol : UnaryOp → String
  | neg => "-"
  | not => "!"
  | complement => "~"
  | preIncrement | postIncrement => "++"
  | preDecrement | postDecrement => "--"

/-- Steps bind tightly and are written without parentheses. -/
def isStep : UnaryOp → Bool
  | neg | not | complement => false
  | preIncrement | preDecrement | postIncrement | postDecrement => true

def followsOperand : UnaryOp → Bool
  | postIncrement | postDecrement => true
  | _ => false

end UnaryOp

inductive BinaryOp where
  | add
  | sub
  | mul
  | div
  | rem
  | shiftLeft
  | shiftRight
  | shiftRightZero
  | lt
  | gt
  | le
  | ge
  | eq
  | ne
  | bitAnd
  | bitOr
  | bitXor
  | and
  | or
  deriving DecidableEq

namespace BinaryOp

def all : List BinaryOp :=
  [add, sub, mul, div, rem, shiftLeft, shiftRight, shiftRightZero, lt, gt, le, ge, eq, ne, bitAnd,
    bitOr, bitXor, and, or]

def symbol : BinaryOp → String
  | add => "+"
  | sub => "-"
  | mul => "*"
  | div => "/"
  | rem => "%"
  | shiftLeft => "<<"
  | shiftRight => ">>"
  | shiftRightZero => ">>>"
  | lt => "<"
  | gt => ">"
  | le => "<="
  | ge => ">="
  | eq => "=="
  | ne => "!="
  | bitAnd => "&"
  | bitOr => "|"
  | bitXor => "^"
  | and => "&&"
  | or => "||"

def ofSymbol? (s : String) : Option BinaryOp := all.find? fun op ↦ op.symbol = s

@[simp] theorem ofSymbol?_symbol (op : BinaryOp) : ofSymbol? op.symbol = some op := by
  cases op <;> rfl

end BinaryOp

inductive Expr where
  | null
  | this
  | super
  | bool (value : Bool)
  | int (value : Int32)
  | long (value : Int64)
  | float (value : Ieee.Datum Ieee.single)
  | double (value : Ieee.Datum Ieee.double)
  | char (value : Char)
  | string (value : String)
  /-- Source text as it stands. -/
  | atom (source : String)
  /-- Source text in parentheses. -/
  | direct (source : String)
  /-- A local variable, a parameter or a field. -/
  | name (name : String)
  /-- A type in front of the point of a static access. -/
  | type (type : JavaType)
  | field (receiver : Expr) (name : String)
  /-- A call without a receiver. -/
  | invoke (name : String) (typeArgs : List JavaType) (args : List Expr)
  | call (receiver : Expr) (name : String) (typeArgs : List JavaType) (args : List Expr)
  /-- An anonymous type also writes the body of its class. -/
  | new (type : JavaType) (args : List Expr)
  | newArray (element : JavaType) (dims : List Expr)
  | arrayInit (element : JavaType) (dims items : List Expr)
  | index (array position : Expr)
  | unary (op : UnaryOp) (operand : Expr)
  | binary (op : BinaryOp) (left right : Expr)
  /-- An assignment, compound when it has an operator. -/
  | assign (op : Option BinaryOp) (target value : Expr)
  | conditional (test yes no : Expr)
  | cast (type : JavaType) (operand : Expr)
  | instanceOf (operand : Expr) (type : JavaType)
  | classLiteral (type : JavaType)
  deriving Inhabited

namespace Expr

/-- A literal that no Java number spells is the constant of its wrapper class. -/
def nonFinite? {f : Ieee.Format} (wrapper : String) (x : Ieee.Datum f) : Option Expr :=
  if x.isNaN then some (.atom s!"java.lang.{wrapper}.NaN")
  else if x.isInfinite then
    let sign := if x.isNegative then "NEGATIVE" else "POSITIVE"
    some (.atom s!"java.lang.{wrapper}.{sign}_INFINITY")
  else none

def ofFloat (x : Ieee.Datum Ieee.single) : Expr := (nonFinite? "Float" x).getD (.float x)

def ofDouble (x : Ieee.Datum Ieee.double) : Expr := (nonFinite? "Double" x).getD (.double x)

/-- Appends an argument to a call, an instance creation or an array initializer, and leaves all else as it
is. -/
def arg (e a : Expr) : Expr :=
  match e with
  | .invoke n ts as => .invoke n ts (as ++ [a])
  | .call r n ts as => .call r n ts (as ++ [a])
  | .new t as => .new t (as ++ [a])
  | .arrayInit t ds items => .arrayInit t ds (items ++ [a])
  | e => e

/-- Appends an explicit type argument to a call. -/
def typeArg (e : Expr) (t : JavaType) : Expr :=
  match e with
  | .invoke n ts as => .invoke n (ts ++ [t]) as
  | .call r n ts as => .call r n (ts ++ [t]) as
  | e => e

/-- Whether the expression is written with its own outer parentheses. -/
def isParenthesized : Expr → Bool
  | .unary op _ => !op.isStep
  | .binary _ _ _ | .conditional _ _ _ | .cast _ _ | .instanceOf _ _ | .direct _ => true
  | _ => false

/-- The anonymous class that an instance creation carries. -/
def anonymousClass? : Expr → Option ClassId
  | .new (.anonymous c) _ => some c
  | _ => none

end Expr
end JavaSource
