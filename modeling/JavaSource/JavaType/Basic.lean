/-!
# Types

Types are plain values that name classes by handle. A class type is a class alone or with type arguments;
these are the only types a class extends or implements.
-/

namespace JavaSource

/-- A handle of a class entry: its place in the order of creation. -/
structure ClassId where
  index : Nat
  deriving DecidableEq, Inhabited

/-- A handle of a package: its place in the order of creation. -/
structure PackageId where
  index : Nat
  deriving DecidableEq

theorem ClassId.eq_of_index_eq {c d : ClassId} (h : c.index = d.index) : c = d := by
  cases c
  cases d
  exact congrArg ClassId.mk h

theorem PackageId.eq_of_index_eq {p q : PackageId} (h : p.index = q.index) : p = q := by
  cases p
  cases q
  exact congrArg PackageId.mk h

inductive Primitive where
  | boolean
  | byte
  | char
  | short
  | int
  | long
  | float
  | double
  | void
  deriving DecidableEq

namespace Primitive

def all : List Primitive := [boolean, byte, char, short, int, long, float, double, void]

def keyword : Primitive → String
  | boolean => "boolean"
  | byte => "byte"
  | char => "char"
  | short => "short"
  | int => "int"
  | long => "long"
  | float => "float"
  | double => "double"
  | void => "void"

/-- The simple name of the wrapper class in the built-in package. -/
def boxedName : Primitive → String
  | boolean => "Boolean"
  | byte => "Byte"
  | char => "Character"
  | short => "Short"
  | int => "Integer"
  | long => "Long"
  | float => "Float"
  | double => "Double"
  | void => "Void"

def ofKeyword? (s : String) : Option Primitive := all.find? fun p ↦ p.keyword = s

@[simp] theorem ofKeyword?_keyword (p : Primitive) : ofKeyword? p.keyword = some p := by
  cases p <;> rfl

end Primitive

inductive JavaType where
  | primitive (p : Primitive)
  | reference (id : ClassId)
  | array (component : JavaType)
  | narrowed (basis : ClassId) (args : List JavaType)
  | var (name : String) (bound : Option JavaType)
  | wildcard
  | wildcardExtends (bound : JavaType)
  | wildcardSuper (bound : JavaType)
  | anonymous (id : ClassId)
  deriving Inhabited

namespace JavaType

mutual

def decEq : (a b : JavaType) → Decidable (a = b)
  | .primitive p, b =>
    match b with
    | .primitive q => decidable_of_iff (p = q) (by simp)
    | .reference _ | .array _ | .narrowed _ _ | .var _ _ | .wildcard | .wildcardExtends _
    | .wildcardSuper _ | .anonymous _ => isFalse nofun
  | .reference c, b =>
    match b with
    | .reference d => decidable_of_iff (c = d) (by simp)
    | .primitive _ | .array _ | .narrowed _ _ | .var _ _ | .wildcard | .wildcardExtends _
    | .wildcardSuper _ | .anonymous _ => isFalse nofun
  | .array s, b =>
    match b with
    | .array t => have := decEq s t; decidable_of_iff (s = t) (by simp)
    | .primitive _ | .reference _ | .narrowed _ _ | .var _ _ | .wildcard | .wildcardExtends _
    | .wildcardSuper _ | .anonymous _ => isFalse nofun
  | .narrowed c xs, b =>
    match b with
    | .narrowed d ys => have := decEqList xs ys; decidable_of_iff (c = d ∧ xs = ys) (by simp)
    | .primitive _ | .reference _ | .array _ | .var _ _ | .wildcard | .wildcardExtends _
    | .wildcardSuper _ | .anonymous _ => isFalse nofun
  | .var n s, b =>
    match b with
    | .var m t => have := decEqOption s t; decidable_of_iff (n = m ∧ s = t) (by simp)
    | .primitive _ | .reference _ | .array _ | .narrowed _ _ | .wildcard | .wildcardExtends _
    | .wildcardSuper _ | .anonymous _ => isFalse nofun
  | .wildcard, b =>
    match b with
    | .wildcard => isTrue rfl
    | .primitive _ | .reference _ | .array _ | .narrowed _ _ | .var _ _ | .wildcardExtends _
    | .wildcardSuper _ | .anonymous _ => isFalse nofun
  | .wildcardExtends s, b =>
    match b with
    | .wildcardExtends t => have := decEq s t; decidable_of_iff (s = t) (by simp)
    | .primitive _ | .reference _ | .array _ | .narrowed _ _ | .var _ _ | .wildcard
    | .wildcardSuper _ | .anonymous _ => isFalse nofun
  | .wildcardSuper s, b =>
    match b with
    | .wildcardSuper t => have := decEq s t; decidable_of_iff (s = t) (by simp)
    | .primitive _ | .reference _ | .array _ | .narrowed _ _ | .var _ _ | .wildcard
    | .wildcardExtends _ | .anonymous _ => isFalse nofun
  | .anonymous c, b =>
    match b with
    | .anonymous d => decidable_of_iff (c = d) (by simp)
    | .primitive _ | .reference _ | .array _ | .narrowed _ _ | .var _ _ | .wildcard
    | .wildcardExtends _ | .wildcardSuper _ => isFalse nofun

def decEqList : (xs ys : List JavaType) → Decidable (xs = ys)
  | [], [] => isTrue rfl
  | [], _ :: _ => isFalse nofun
  | _ :: _, [] => isFalse nofun
  | x :: xs, y :: ys =>
    have := decEq x y
    have := decEqList xs ys
    decidable_of_iff (x = y ∧ xs = ys) (by simp)

def decEqOption : (s t : Option JavaType) → Decidable (s = t)
  | none, none => isTrue rfl
  | none, some _ => isFalse nofun
  | some _, none => isFalse nofun
  | some s, some t =>
    have := decEq s t
    decidable_of_iff (s = t) (by simp)

end

instance : DecidableEq JavaType := decEq

/-- Drops the type arguments of a narrowed type. -/
def raw : JavaType → JavaType
  | narrowed c _ => reference c
  | t => t

@[simp] theorem raw_raw (t : JavaType) : t.raw.raw = t.raw := by
  cases t <;> rfl

def isPrimitive : JavaType → Bool
  | primitive _ => true
  | _ => false

def isArray : JavaType → Bool
  | array _ => true
  | _ => false

/-- Whether values of the type are objects of a class. -/
def isClassLike : JavaType → Bool
  | reference _ | narrowed _ _ | anonymous _ => true
  | _ => false

/-- The class behind a reference or a narrowed type. -/
def classId? : JavaType → Option ClassId
  | reference c | narrowed c _ => some c
  | _ => none

def component? : JavaType → Option JavaType
  | array t => some t
  | _ => none

/-- The type below all array dimensions, and their number. -/
def innermost : JavaType → JavaType × Nat
  | array t => (t.innermost.1, t.innermost.2 + 1)
  | t => (t, 0)

end JavaType

/-- A type parameter of a class or of a method. -/
structure TypeVar where
  name : String
  bound : Option JavaType
  deriving DecidableEq

def TypeVar.toType (v : TypeVar) : JavaType := .var v.name v.bound

/-- A class, with type arguments or raw. -/
structure ClassType where
  basis : ClassId
  args : Option (List JavaType)
  deriving DecidableEq

namespace ClassType

def toType (t : ClassType) : JavaType :=
  match t.args with
  | none => .reference t.basis
  | some args => .narrowed t.basis args

def ofType? : JavaType → Option ClassType
  | .reference c => some ⟨c, none⟩
  | .narrowed c args => some ⟨c, some args⟩
  | _ => none

@[simp] theorem ofType?_toType (t : ClassType) : ofType? t.toType = some t := by
  obtain ⟨c, _ | args⟩ := t <;> rfl

theorem toType_of_ofType? {t : JavaType} {s : ClassType} (h : ofType? t = some s) :
    s.toType = t := by
  cases t <;> simp [ofType?] at h <;> subst h <;> rfl

theorem isSome_ofType? (t : JavaType) : (ofType? t).isSome = t.classId?.isSome := by
  cases t <;> rfl

end ClassType
end JavaSource
