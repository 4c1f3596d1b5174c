import JavaSource.Annotation.Edit
import JavaSource.Declaration.Assembly
import JavaSource.Ieee.Rounding

/-!
# Values of declared annotations

A plain number or string says less than a value of an annotation does. The kind of the member it is meant for
settles the rest. Uses of annotations that the model declares are checked against their shapes, uses of other
annotations are taken as they are written.
-/

namespace JavaSource

/-- The kind of a member as far as its type tells how plain values are read. -/
def Model.memberHint (m : Model) : JavaType → Option MemberKind
  | .primitive .long => some .long
  | .primitive .float => some .float
  | .primitive .double => some .double
  | .primitive .char => some .char
  | .array t => (m.memberHint t).map .array
  | .reference c => if (m.entry c).kind = .enum then some (.enum c) else none
  | _ => none

/-- The kind of the items of an array member. A single kind is the kind of each item. -/
def MemberKind.itemKind : MemberKind → MemberKind
  | array k => k
  | k => k

namespace AnnotationValue

def fitsInt (n : Int64) : Bool := Int32.minValue.toInt ≤ n.toInt && n.toInt ≤ Int32.maxValue.toInt

/-- A plain integer. Without a kind it is an int if it can be. -/
def ofInteger (hint : Option MemberKind) (n : Int64) : AnnotationValue :=
  match hint with
  | some .long => .long n
  | some .float => .float (.ofInt n.toInt)
  | some .double => .double (.ofInt n.toInt)
  | _ => if fitsInt n then .int (Int32.ofInt n.toInt) else .long n

/-- A plain number with a fraction. -/
def ofFloat (hint : Option MemberKind) (x : Ieee.Datum Ieee.double) : AnnotationValue :=
  match hint with
  | some .float => .float (x.convert Ieee.single)
  | _ => .double x

/-- A plain string: a character, a constant or a string. -/
def ofString (hint : Option MemberKind) (s : String) : Except ValueFault AnnotationValue :=
  match hint with
  | some .char =>
    match s.toList with
    | [c] => .ok (.char c)
    | _ => .error (.notOneCharacter s)
  | some (.enum c) => .ok (.enumConstant c s)
  | _ => .ok (.string s)

end AnnotationValue

/-- A use with the given values, checked if there is a shape. -/
def AnnotationUse.ofValues (c : ClassId) (shape : Option AnnotationShape)
    (values : List (String × AnnotationValue)) : Except ModelError AnnotationUse :=
  match shape with
  | some s => values.foldlM (fun u v ↦ s.set u v.1 v.2) ⟨c, {}⟩
  | none => .ok (values.foldl (fun u v ↦ u.set v.1 v.2) ⟨c, {}⟩)

/-- The shape of an annotation that the model declares, as it was when it was first looked at. -/
def Assemble.shape? (c : ClassId) : Assemble (Option AnnotationShape) := do
  let s ← get
  match s.shapes.lookup c with
  | some shape => return shape
  | none =>
    let e := s.model.entry c
    let shape :=
      if e.isDefined ∧ e.kind = .annotationType then (s.model.shapeOf c).toOption else none
    set { s with shapes := (c, shape) :: s.shapes }
    return shape

/-- The kind of a member by a shape, if there is one. -/
def AnnotationShape.hint (shape : Option AnnotationShape) (name : String) : Option MemberKind :=
  (shape.bind fun s ↦ s.members.get? name).map (·.1)

namespace Context

mutual

/-- The value that a written value stands for in a member. -/
def valueOf (x : Context) (member : String) (hint : Option MemberKind) :
    WrittenValue → Assemble AnnotationValue
  | .bool b => return .bool b
  | .int n => return .ofInteger hint n
  | .float v => return .ofFloat hint v
  | .string s =>
    match AnnotationValue.ofString hint s with
    | .ok v => return v
    | .error fault => throw (.badValue member fault)
  | .array items => .array <$> itemsOf x member (hint.map (·.itemKind)) items
  | .char c => return .char c
  | .long n => return .long n
  | .classLiteral t => .classLiteral <$> x.typeOf ⟨s!"annotation member '{member}'", []⟩ t
  | .enumConstant type constant => return .enumConstant (← x.classOf type) constant
  | .nested type values => do
    let c ← x.classOf type
    let shape ← Assemble.shape? c
    let values ← valuesOf x shape values
    .use <$> Assemble.ofExcept (AnnotationUse.ofValues c shape values)

def itemsOf (x : Context) (member : String) (hint : Option MemberKind) :
    List WrittenValue → Assemble (List AnnotationValue)
  | [] => return []
  | v :: vs => do
    if v.isArray then throw (.badValue member .nestedArray)
    let first ← valueOf x member hint v
    let others ← itemsOf x member hint vs
    return first :: others

def valuesOf (x : Context) (shape : Option AnnotationShape) :
    List (String × WrittenValue) → Assemble (List (String × AnnotationValue))
  | [] => return []
  | (name, v) :: rest => do
    let first ← valueOf x name (AnnotationShape.hint shape name) v
    let others ← valuesOf x shape rest
    return (name, first) :: others

end

/-- The use that a written annotation stands for. -/
def useOf (x : Context) (a : WrittenAnnotation) : Assemble AnnotationUse := do
  let c ← x.classOf a.type
  let shape ← Assemble.shape? c
  let values ← x.valuesOf shape a.values
  Assemble.ofExcept (AnnotationUse.ofValues c shape values)

end Context
end JavaSource
