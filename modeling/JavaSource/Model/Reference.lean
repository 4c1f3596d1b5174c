import JavaSource.Model.Definition
import JavaSource.Text.Split

/-!
# Referring to classes

A binary name has a package before its last point and, after it, a class and its nested classes with dollar
signs between them. Classes that the model does not know are entered as external ones, unless they would
have to be inside a class that the model defines.
-/

namespace JavaSource

structure BinaryName where
  package : String
  top : String
  nested : List String
  deriving DecidableEq

def BinaryName.ofString (s : String) : BinaryName :=
  let parts := Text.splitLast '.' s
  match Text.splitString '$' parts.2 with
  | [] => ⟨parts.1.getD "", "", []⟩
  | top :: nested => ⟨parts.1.getD "", top, nested⟩

namespace Model

/-- Walks through nested classes by name. -/
def lookupNested (m : Model) : ClassId → List String → Option ClassId
  | c, [] => some c
  | c, name :: rest =>
    match (m.entry c).nested.get? name with
    | some d => m.lookupNested d rest
    | none => none

/-- The class of a binary name if the model knows it. -/
def lookup (m : Model) (qualified : String) : Option ClassId :=
  let n := BinaryName.ofString qualified
  match m.findPackage? n.package with
  | none => none
  | some p =>
    match (m.packageEntry p).classes.get? n.top with
    | none => none
    | some c => m.lookupNested c n.nested

/-- Why the nested part of a name cannot be referred to from a class that may be unknown itself. -/
def nestedFault? (m : Model) : Option ClassId → List String → Option ModelError
  | _, [] => none
  | some c, name :: rest =>
    match (m.entry c).nested.get? name with
    | some d => m.nestedFault? (some d) rest
    | none =>
      if (m.entry c).isDefined then some (.state (.noNestedClass (m.fullName c) name))
      else
        match checkName .type name with
        | .error fault => some fault
        | .ok _ => m.nestedFault? none rest
  | none, name :: rest =>
    match checkName .type name with
    | .error fault => some fault
    | .ok _ => m.nestedFault? none rest

/-- Why a binary name cannot be referred to. -/
def referenceFault? (m : Model) (n : BinaryName) : Option ModelError :=
  let known := (m.findPackage? n.package).bind fun p ↦ (m.packageEntry p).classes.get? n.top
  match known, checkName .type n.top with
  | none, .error fault => some fault
  | _, _ => m.nestedFault? known n.nested

/-- A top-level class of a package by simple name. -/
def referenceIn (p : PackageId) (name : String) : Build ClassId := do
  let m ← get
  match (m.packageEntry p).classes.get? name with
  | some c => return c
  | none =>
    liftExcept (checkName .type name)
    set (m.addTopLevel p name .plain .external .none)
    return m.nextClass

/-- A class inside another by simple name. A defined class has the nested classes defined in it and no
others. -/
def referenceNested (outer : ClassId) (name : String) : Build ClassId := do
  let m ← get
  match (m.entry outer).nested.get? name with
  | some c => return c
  | none =>
    if (m.entry outer).isDefined then
      throw (.state (.noNestedClass (m.fullName outer) name))
    liftExcept (checkName .type name)
    set (m.addNested outer name .plain .external .none)
    return m.nextClass

def referencePath : ClassId → List String → Build ClassId
  | c, [] => return c
  | c, name :: rest => do
    let d ← referenceNested c name
    referencePath d rest

/-- The class of a binary name, entered when the model does not know it. -/
def reference (qualified : String) : Build ClassId := do
  let n := BinaryName.ofString qualified
  match (← get).referenceFault? n with
  | some fault => throw fault
  | none =>
    let p ← package n.package
    let c ← referenceIn p n.top
    referencePath c n.nested

end Model
end JavaSource
