import JavaSource.ClassEntry

/-!
# The model

Packages and class entries in the order of their creation. A handle is a place in that order, and entries are
never removed, so a handle stays good. The unnamed package, the built-in package and the root of all classes
are there from the start.
-/

namespace JavaSource

structure Package where
  /-- The dotted name, empty for the unnamed package. -/
  name : String
  /-- The top-level classes of the package, referred to or defined. -/
  classes : Table ClassId := {}

instance : Inhabited Package where
  default := { name := "" }

def Package.isUnnamed (p : Package) : Bool := p.name = ""

structure Model where
  packages : List Package
  classes : List ClassEntry
  /-- The placeholders by the names they were given. -/
  placeholders : Table ClassId := {}

namespace Model

def rootPackage : PackageId := ⟨0⟩

def builtinPackage : PackageId := ⟨1⟩

def builtinName : String := "java.lang"

/-- The handle of the class that all classes extend. -/
def object : ClassId := ⟨0⟩

def initial : Model where
  packages := [{ name := "" }, { name := builtinName, classes := ⟨[("Object", object)]⟩ }]
  classes :=
    [{ id := object, name := "Object", kind := .plain, origin := .external, package := builtinPackage,
       outer := none, mods := .single .pub }]

def entry (m : Model) (c : ClassId) : ClassEntry := m.classes[c.index]?.getD default

def packageEntry (m : Model) (p : PackageId) : Package := m.packages[p.index]?.getD default

def nextClass (m : Model) : ClassId := ⟨m.classes.length⟩

def nextPackage (m : Model) : PackageId := ⟨m.packages.length⟩

def findPackage? (m : Model) (name : String) : Option PackageId :=
  (m.packages.findIdx? (·.name = name)).map PackageId.mk

/-- Changes one class entry. -/
def modifyClass (m : Model) (c : ClassId) (f : ClassEntry → ClassEntry) : Model :=
  { m with classes := m.classes.modify c.index f }

@[simp] theorem length_classes_modifyClass (m : Model) (c : ClassId) (f : ClassEntry → ClassEntry) :
    (m.modifyClass c f).classes.length = m.classes.length := by
  simp [modifyClass]

theorem entry_modifyClass_ne (m : Model) {c d : ClassId} (h : c ≠ d) (f : ClassEntry → ClassEntry) :
    (m.modifyClass c f).entry d = m.entry d := by
  have : c.index ≠ d.index := fun e ↦ h (by cases c; cases d; simp_all)
  simp [modifyClass, entry, this]

/-- Appends an empty package. -/
def pushPackage (m : Model) (name : String) : Model :=
  { m with packages := m.packages ++ [Package.mk name {}] }

/-- Appends a class entry. -/
def pushClass (m : Model) (e : ClassEntry) : Model := { m with classes := m.classes ++ [e] }

/-- Adds a class to a package and enters it there under its name. -/
def addTopLevel (m : Model) (p : PackageId) (name : String) (kind : ClassKind) (origin : Origin)
    (mods : Modifiers) : Model :=
  let c := m.nextClass
  let m := m.pushClass { id := c, name, kind, origin, package := p, outer := none, mods }
  { m with
    packages := m.packages.modify p.index fun q ↦ { q with classes := q.classes.insert name c } }

/-- Adds a class inside another and enters it there under its name. -/
def addNested (m : Model) (outer : ClassId) (name : String) (kind : ClassKind) (origin : Origin)
    (mods : Modifiers) : Model :=
  let c := m.nextClass
  let package := (m.entry outer).package
  (m.pushClass { id := c, name, kind, origin, package, outer := some outer, mods }).modifyClass outer
    fun e ↦ { e with nested := e.nested.insert name c }

/-- Classes defined directly in a package. -/
def topLevelClasses (m : Model) (p : PackageId) : List ClassId :=
  (m.packageEntry p).classes.values.filter fun c ↦ (m.entry c).isDefined

/-- Every top-level class defined in the model, package by package. -/
def definedClasses (m : Model) : List ClassId :=
  (List.range m.packages.length).flatMap fun i ↦ m.topLevelClasses ⟨i⟩

end Model

/-- A building step: it may fail, and what it did before stays either way. -/
abbrev Build := ExceptT ModelError (StateM Model)

def Build.exec {α : Type} (b : Build α) (m : Model) : Except ModelError α × Model :=
  (ExceptT.run b).run m

end JavaSource
