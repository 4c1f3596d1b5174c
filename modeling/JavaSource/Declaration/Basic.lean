import JavaSource.ClassKind
import JavaSource.Ieee.Basic
import JavaSource.Layout
import JavaSource.Modifier

/-!
# Declarations

What a declaration file says: packages, types with their members, and the types and annotations they use, all
as written. No name is looked up here.
-/

namespace JavaSource

/-- What becomes of a type that could not be resolved. -/
inductive UnresolvedPolicy where
  | fail
  /-- It is kept under the name it was given. -/
  | keep
  deriving DecidableEq

structure RenderSettings where
  layout : Layout := {}
  unresolved : UnresolvedPolicy := .fail
  deriving DecidableEq

inductive DeclaredKind where
  | supported (kind : ClassKind)
  | record
  deriving DecidableEq

def DeclaredKind.name : DeclaredKind → String
  | .supported .plain => "class"
  | .supported .interface => "interface"
  | .supported .enum => "enum"
  | .supported .annotationType => "annotation_type"
  | .record => "record"

def DeclaredKind.all : List DeclaredKind :=
  [.supported .plain, .supported .interface, .supported .enum, .supported .annotationType, .record]

def DeclaredKind.ofName? (s : String) : Option DeclaredKind := all.find? fun k ↦ k.name = s

@[simp] theorem DeclaredKind.ofName?_name (k : DeclaredKind) : ofName? k.name = some k := by
  rcases k with (_ | _ | _ | _) | _ <;> rfl

inductive DeclaredModifier where
  | keyword (m : Modifier)
  | sealed
  | nonSealed
  deriving DecidableEq

namespace DeclaredModifier

def ofName? (s : String) : Option DeclaredModifier :=
  if s = "sealed" then some .sealed
  else if s = "non_sealed" then some .nonSealed
  else (Modifier.ofKeyword? s).map .keyword

/-- The modifier that a declaration gives a class or a member, if models carry it. -/
def carried? : DeclaredModifier → Option Modifier
  | .keyword .dflt | .keyword .strictfp | .sealed | .nonSealed => none
  | .keyword m => some m

/-- The modifiers of a member. -/
def carried (ms : List DeclaredModifier) : Modifiers := .ofList (ms.filterMap carried?)

/-- The modifiers of a type. An interface is abstract, and static inside another type, without a word. -/
def carriedBy (kind : ClassKind) (ms : List DeclaredModifier) : Modifiers :=
  if kind = .interface then ((carried ms).erase .abstr).erase .static else carried ms

end DeclaredModifier

inductive WrittenType where
  | primitive (name : String)
  | declared (name : String) (args : List WrittenType)
  | array (component : WrittenType)
  | typeVar (name : String)
  | wildcard (upper lower : Option WrittenType)
  /-- A type that could not be resolved. -/
  | unresolved (name : String)
  deriving Inhabited

inductive WrittenValue where
  | bool (value : Bool)
  | int (value : Int64)
  | float (value : Ieee.Datum Ieee.double)
  | string (value : String)
  | array (items : List WrittenValue)
  | char (value : Char)
  | long (value : Int64)
  | classLiteral (type : WrittenType)
  | enumConstant (type constant : String)
  | nested (type : String) (values : List (String × WrittenValue))
  deriving Inhabited

def WrittenValue.isArray : WrittenValue → Bool
  | array _ => true
  | _ => false

/-- An annotation with its values in the order of their names. -/
structure WrittenAnnotation where
  type : String
  values : List (String × WrittenValue) := []

structure TypeParamDeclaration where
  name : String
  bound : Option WrittenType := none

structure FieldDeclaration where
  name : String
  type : WrittenType
  modifiers : List DeclaredModifier := []
  annotations : List WrittenAnnotation := []
  javadoc : List String := []

structure ParamDeclaration where
  name : String
  type : WrittenType
  modifiers : List DeclaredModifier := []
  annotations : List WrittenAnnotation := []

structure MethodDeclaration where
  /-- A constructor goes by the name of its class instead. -/
  name : String := ""
  isConstructor : Bool := false
  modifiers : List DeclaredModifier := []
  typeParams : List TypeParamDeclaration := []
  returnType : Option WrittenType := none
  params : List ParamDeclaration := []
  /-- Whether the last parameter takes any number of values. -/
  hasVarargs : Bool := false
  throws : List WrittenType := []
  annotations : List WrittenAnnotation := []
  defaultValue : Option WrittenValue := none
  javadoc : List String := []

structure TypeDeclaration where
  name : String
  kind : DeclaredKind
  modifiers : List DeclaredModifier := []
  typeParams : List TypeParamDeclaration := []
  superclass : Option WrittenType := none
  interfaces : List WrittenType := []
  annotations : List WrittenAnnotation := []
  javadoc : List String := []
  constants : List String := []
  fields : List FieldDeclaration := []
  methods : List MethodDeclaration := []
  nested : List TypeDeclaration := []

structure PackageDeclaration where
  /-- The dotted name, empty for the unnamed package. -/
  name : String := ""
  types : List TypeDeclaration := []

/-- The content of a declaration file. -/
structure Declarations where
  settings : RenderSettings := {}
  packages : List PackageDeclaration := []

namespace TypeDeclaration

mutual

/-- The number of types that a type declares, itself included. -/
def count (t : TypeDeclaration) : Nat :=
  match t with
  | { nested, .. } => countAll nested + 1

def countAll : List TypeDeclaration → Nat
  | [] => 0
  | t :: ts => count t + countAll ts

end

@[simp] theorem count_eq (t : TypeDeclaration) : t.count = countAll t.nested + 1 := by
  cases t
  rfl

@[simp] theorem countAll_append (ts us : List TypeDeclaration) :
    countAll (ts ++ us) = countAll ts + countAll us := by
  induction ts with
  | nil => simp [countAll]
  | cons t ts ih => simp [countAll, ih, Nat.add_assoc]

end TypeDeclaration

/-- The number of declared types, nested ones included. -/
def Declarations.typeCount (d : Declarations) : Nat :=
  TypeDeclaration.countAll (d.packages.flatMap (·.types))

end JavaSource
