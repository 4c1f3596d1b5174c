import JavaSource.Declaration.Assembly

/-!
# Placing declared types

Every declared type gets its class before any member is looked at, so members may speak of types that the
file declares further down. A type stands before the types inside it.
-/

namespace JavaSource

/-- A declared type with its class, the owner of that class, and the scope of its members. -/
structure Placed where
  id : ClassId
  owner : Model.Owner
  type : TypeDeclaration
  scope : Scope

def Placed.isTopLevel (p : Placed) : Bool :=
  match p.owner with
  | .package _ => true
  | .class _ => false

namespace TypeDeclaration

/-- The kind of a declared type. -/
def classKind (t : TypeDeclaration) : Except DeclarationError ClassKind :=
  match t.kind with
  | .supported kind => .ok kind
  | .record => .error (.unsupportedKind .record t.name)

/-- Defines the class of a declared type. -/
def define (owner : Model.Owner) (t : TypeDeclaration) : Assemble ClassId := do
  let kind ← liftExcept t.classKind
  Assemble.build (Model.defineClass owner (DeclaredModifier.carriedBy kind t.modifiers) t.name kind)

/-- The scope of the members of a type. -/
def memberScope (outer : Scope) (t : TypeDeclaration) : Scope :=
  outer.enter (dotted outer.owner t.name) t.typeParams

mutual

/-- Defines the classes of a declared type and of the types inside it. -/
def place (owner : Model.Owner) (outer : Scope) (t : TypeDeclaration) : Assemble (List Placed) :=
  match t with
  | t@{ nested, .. } => do
    let c ← t.define owner
    let scope := t.memberScope outer
    let others ← placeAll (.class c) scope nested
    return ⟨c, owner, t, scope⟩ :: others

def placeAll (owner : Model.Owner) (outer : Scope) : List TypeDeclaration → Assemble (List Placed)
  | [] => return []
  | t :: ts => do
    let first ← place owner outer t
    let others ← placeAll owner outer ts
    return first ++ others

end

/-- A type is placed before the types inside it. -/
theorem place_eq (owner : Model.Owner) (outer : Scope) (t : TypeDeclaration) :
    t.place owner outer = (do
      let c ← t.define owner
      let others ← placeAll (.class c) (t.memberScope outer) t.nested
      return ⟨c, owner, t, t.memberScope outer⟩ :: others) := by
  cases t
  rfl

end TypeDeclaration

def PackageDeclaration.place (p : PackageDeclaration) : Assemble (List Placed) := do
  let owner ← Assemble.build (Model.package p.name)
  TypeDeclaration.placeAll (.package owner) ⟨p.name, []⟩ p.types

def Declarations.place (d : Declarations) : Assemble (List Placed) :=
  return (← d.packages.mapM PackageDeclaration.place).flatten

/-- The classes of placed types by dotted name. Of two types of one name the later one counts. -/
def Placed.table (ps : List Placed) : Table ClassId :=
  ps.foldl (fun names p ↦ names.insert p.scope.owner p.id) {}

end JavaSource
