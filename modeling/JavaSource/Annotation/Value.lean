import JavaSource.Ieee.Basic
import JavaSource.JavaType.Basic
import JavaSource.Table

/-!
# Annotation values and uses

A use of an annotation gives values to members by name, in the order in which the members were first given.
Values are compared as numbers where they are numbers, and members are compared regardless of order.
-/

namespace JavaSource

inductive AnnotationValue where
  | bool (value : Bool)
  | int (value : Int32)
  | long (value : Int64)
  | float (value : Ieee.Datum Ieee.single)
  | double (value : Ieee.Datum Ieee.double)
  | char (value : Char)
  | string (value : String)
  | classLiteral (type : JavaType)
  | enumConstant (type : ClassId) (constant : String)
  | nested (type : ClassId) (members : List (String × AnnotationValue))
  | array (items : List AnnotationValue)
  deriving Inhabited

structure AnnotationUse where
  type : ClassId
  members : Table AnnotationValue := {}

namespace AnnotationValue

def use (u : AnnotationUse) : AnnotationValue := .nested u.type u.members.entries

def describe : AnnotationValue → String
  | bool _ => "boolean"
  | int _ => "int"
  | long _ => "long"
  | float _ => "float"
  | double _ => "double"
  | char _ => "char"
  | string _ => "String"
  | classLiteral _ => "class literal"
  | enumConstant _ _ => "enum constant"
  | nested _ _ => "annotation"
  | array _ => "array"

def isArray : AnnotationValue → Bool
  | array _ => true
  | _ => false

mutual

def same : AnnotationValue → AnnotationValue → Bool
  | bool a, v => match v with | bool b => a = b | _ => false
  | int a, v => match v with | int b => a = b | _ => false
  | long a, v => match v with | long b => a = b | _ => false
  | float a, v => match v with | float b => a.sameNumber b | _ => false
  | double a, v => match v with | double b => a.sameNumber b | _ => false
  | char a, v => match v with | char b => a = b | _ => false
  | string a, v => match v with | string b => a = b | _ => false
  | classLiteral a, v => match v with | classLiteral b => a = b | _ => false
  | enumConstant a s, v => match v with | enumConstant b t => a = b && s = t | _ => false
  | nested a xs, v =>
    match v with
    | nested b ys => a = b && xs.length = ys.length && sameMembers xs ys
    | _ => false
  | array xs, v => match v with | array ys => sameItems xs ys | _ => false

/-- Whether each member on the left has an equal one under its name on the right. -/
def sameMembers : List (String × AnnotationValue) → List (String × AnnotationValue) → Bool
  | [], _ => true
  | (name, x) :: xs, ys =>
    (match Table.find name ys with
      | some y => same x y
      | none => false) && sameMembers xs ys

def sameItems : List AnnotationValue → List AnnotationValue → Bool
  | [], ys => ys.isEmpty
  | x :: xs, ys =>
    match ys with
    | [] => false
    | y :: ys => same x y && sameItems xs ys

end

end AnnotationValue

namespace AnnotationUse

def get? (u : AnnotationUse) (name : String) : Option AnnotationValue := u.members.get? name

/-- Gives a member a value in place of any it had. -/
def set (u : AnnotationUse) (name : String) (value : AnnotationValue) : AnnotationUse :=
  { u with members := u.members.insert name value }

/-- The items of a member that is an array, none for any other. -/
def items (u : AnnotationUse) (name : String) : List AnnotationValue :=
  match u.get? name with
  | some (.array items) => items
  | _ => []

/-- Appends items to a member that is an array, and makes an array of any other. -/
def push (u : AnnotationUse) (name : String) (items : List AnnotationValue) : AnnotationUse :=
  u.set name (.array (u.items name ++ items))

/-- The use that a member holds when it is one of the given annotation, a fresh one otherwise. -/
def nested (u : AnnotationUse) (name : String) (type : ClassId) : AnnotationUse :=
  match u.get? name with
  | some (.nested t members) => if t = type then ⟨t, ⟨members⟩⟩ else ⟨type, {}⟩
  | _ => ⟨type, {}⟩

/-- Whether the use is written with its value alone. -/
def isSingleValue (u : AnnotationUse) : Bool :=
  match u.members.entries with
  | [(name, _)] => name = "value"
  | _ => false

@[simp] theorem get?_set (u : AnnotationUse) (name other : String) (v : AnnotationValue) :
    (u.set name v).get? other = if name = other then some v else u.get? other := by
  simp [get?, set]

end AnnotationUse
end JavaSource
