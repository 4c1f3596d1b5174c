import JavaSource.Model.Names

/-!
# Defining packages and classes
-/

namespace JavaSource.Model

/-- Where a class is declared. -/
inductive Owner where
  | package (p : PackageId)
  | class (c : ClassId)
  deriving DecidableEq

/-- The package of a name, created when there is none. -/
def package (name : String) : Build PackageId := do
  let m ← get
  match m.findPackage? name with
  | some p => return p
  | none =>
    set (m.pushPackage name)
    return m.nextPackage

/-- Why a name cannot be given to a new class of an owner, as far as the model is concerned. -/
def definitionFault? (m : Model) (owner : Owner) (name : String) : Option ModelError :=
  match owner with
  | .package p =>
    let package := m.packageEntry p
    if package.classes.contains name then
      some (.nameTaken name (if package.isUnnamed then .unnamedPackage else .package package.name))
    else none
  | .class c =>
    let e := m.entry c
    if !e.isDefined then some (.construction (.undefinedOuter name (m.fullName c)))
    else if e.nested.contains name then some (.nameTaken name (.members (m.fullName c)))
    else if (c :: m.outers c).any fun o ↦ (m.entry o).name = name then
      some (.nameTaken name (.enclosing (m.fullName c)))
    else none

def defineClass (owner : Owner) (mods : Modifiers) (name : String) (kind : ClassKind) :
    Build ClassId := do
  liftExcept (checkName .type name)
  let m ← get
  match m.definitionFault? owner name with
  | some fault => throw fault
  | none =>
    match owner with
    | .package p => set (m.addTopLevel p name kind .defined mods)
    | .class c => set (m.addNested c name kind .defined mods)
    return m.nextClass

/-- Creates an anonymous class on a base. -/
def anonymousClass (base : JavaType) : Build ClassId := do
  let m ← get
  match ClassType.ofType? base with
  | none => throw (.construction (.anonymousBase base))
  | some t =>
    let e := m.entry t.basis
    set (m.pushClass
      { id := m.nextClass, name := e.name, kind := .plain, origin := .anonymous, package := e.package,
        outer := none, superclass := some t })
    return m.nextClass

/-- The placeholder of a name, created when there is none. Placeholders are entered in no package. -/
def placeholder (name : String) : Build ClassId := do
  let m ← get
  match m.placeholders.get? name with
  | some c => return c
  | none =>
    let c := m.nextClass
    let m := m.pushClass
      { id := c, name, kind := .plain, origin := .placeholder, package := rootPackage, outer := none }
    set { m with placeholders := m.placeholders.insert name c }
    return c

/-- Changes one class entry unless the change is refused. -/
def updateClass (c : ClassId) (f : ClassEntry → Except ModelError ClassEntry) : Build Unit := do
  let m ← get
  let e ← liftExcept (f (m.entry c))
  set (m.modifyClass c fun _ ↦ e)

end JavaSource.Model
