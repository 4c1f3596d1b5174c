import JavaSource.Annotation.Value
import JavaSource.Model.Names

/-!
# Shapes of annotations

The members that an annotation type declares, each with the kind of value it takes and perhaps a default. A
shape is put together by hand or derived from the methods of an annotation type of the model. An annotation
that contains itself has no shape.
-/

namespace JavaSource

/-- The kind of value that a member takes. -/
inductive MemberKind where
  | bool
  | int
  | long
  | float
  | double
  | char
  | string
  | classLiteral
  | enum (type : ClassId)
  | nested (type : ClassId) (name : String)
      (members : List (String × MemberKind × Option AnnotationValue))
  | array (element : MemberKind)
  deriving Inhabited

structure MemberShape where
  kind : MemberKind
  default : Option AnnotationValue := none

structure AnnotationShape where
  type : ClassId
  /-- The full name of the annotation type. -/
  name : String
  members : Table (MemberKind × Option AnnotationValue) := {}

namespace MemberKind

def shape (s : AnnotationShape) : MemberKind := .nested s.type s.name s.members.entries

def describe : MemberKind → String
  | bool => "boolean"
  | int => "int"
  | long => "long"
  | float => "float"
  | double => "double"
  | char => "char"
  | string => "String"
  | classLiteral => "class literal"
  | enum _ => "enum constant"
  | nested _ name _ => "@" ++ name
  | array k => k.describe ++ "[]"

/-- Whether a kind that is no array takes a value. Numbers of a narrower kind are taken as well. -/
def acceptsSingle : MemberKind → AnnotationValue → Bool
  | bool, .bool _ => true
  | int, .int _ => true
  | long, .long _ | long, .int _ => true
  | float, .float _ | float, .int _ | float, .long _ => true
  | double, .double _ | double, .float _ | double, .int _ | double, .long _ => true
  | char, .char _ => true
  | string, .string _ => true
  | classLiteral, .classLiteral _ => true
  | enum c, .enumConstant d _ => c = d
  | nested c _ _, .nested d _ => c = d
  | _, _ => false

/-- Whether a member of the kind takes a value. An array takes values for its items, or one item alone. -/
def accepts : MemberKind → AnnotationValue → Bool
  | array k, .array items => items.all (accepts k)
  | array k, v => accepts k v
  | k, v => acceptsSingle k v

end MemberKind

namespace AnnotationShape

def empty (m : Model) (c : ClassId) : AnnotationShape := ⟨c, m.fullName c, {}⟩

def declare (s : AnnotationShape) (name : String) (kind : MemberKind)
    (default : Option AnnotationValue) : AnnotationShape :=
  { s with members := s.members.insert name (kind, default) }

def member? (s : AnnotationShape) (name : String) :
    Except ModelError (MemberKind × Option AnnotationValue) :=
  match s.members.get? name with
  | some member => .ok member
  | none => .error (.unknownMember s.name name)

theorem member?_eq_ok {s : AnnotationShape} {name : String} {member : MemberKind × Option AnnotationValue} :
    s.member? name = .ok member ↔ s.members.get? name = some member := by
  unfold member?
  cases s.members.get? name <;> simp

end AnnotationShape

/-- Why the type of a member gives it no kind. -/
inductive KindFault where
  | notMemberType
  | nested (fault : ModelError)

namespace Model

/-- The kind of a member by its type, given the shapes of annotation types. -/
def memberKindWith (m : Model) (shape : ClassId → Except ModelError AnnotationShape) :
    JavaType → Except KindFault MemberKind
  | .primitive p =>
    match p with
    | .boolean => .ok .bool
    | .byte | .short | .int => .ok .int
    | .long => .ok .long
    | .float => .ok .float
    | .double => .ok .double
    | .char => .ok .char
    | .void => .error .notMemberType
  | .array t => (m.memberKindWith shape t).map .array
  | .reference c | .narrowed c _ =>
    if m.fullName c = "java.lang.String" then .ok .string
    else if m.fullName c = "java.lang.Class" then .ok .classLiteral
    else
      match (m.entry c).kind with
      | .enum => .ok (.enum c)
      | .annotationType =>
        match shape c with
        | .ok s => .ok (.shape s)
        | .error fault => .error (.nested fault)
      | .plain | .interface => .error .notMemberType
  | _ => .error .notMemberType

/-- A fault inside the type of a member is a fault of the member, except for an annotation that contains
itself. -/
def memberFault (member owner : String) : KindFault → ModelError
  | .nested (.state fault) => .state fault
  | _ => .construction (.notMemberType member owner)

/-- The shape of an annotation type inside others, at most so deep. -/
def shapeWithin (m : Model) : Nat → List ClassId → ClassId → Except ModelError AnnotationShape
  | 0, _, c => .error (.state (.containsItself (m.fullName c)))
  | n + 1, inside, c =>
    let e := m.entry c
    if e.kind ≠ .annotationType then .error (.construction (.notAnnotationType (m.fullName c)))
    else if c ∈ inside then .error (.state (.containsItself (m.fullName c)))
    else
      e.methods.foldlM (fun s method ↦
        match method.returnType with
        | none => .ok s
        | some t =>
          match m.memberKindWith (m.shapeWithin n (c :: inside)) t with
          | .ok kind => .ok (s.declare method.name kind method.defaultValue)
          | .error fault => .error (memberFault method.name s.name fault))
        (AnnotationShape.empty m c)

/-- The shape of an annotation type by its methods. No annotation is inside itself, so the number of classes
bounds the depth. -/
def shapeOf (m : Model) (c : ClassId) : Except ModelError AnnotationShape :=
  m.shapeWithin (m.classes.length + 1) [] c

end Model
end JavaSource
