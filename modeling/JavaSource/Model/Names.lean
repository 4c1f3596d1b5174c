import JavaSource.Model.Basic
import JavaSource.Model.Descent

/-!
# Names of classes

The full name of a class runs from its package through its enclosing classes. An anonymous class goes by the
name of its base, a placeholder by the name it was given.
-/

namespace JavaSource.Model

/-- The enclosing classes of a class from the inside out, at most so many. -/
def outersWithin (m : Model) : Nat → ClassId → List ClassId
  | 0, _ => []
  | n + 1, c =>
    match (m.entry c).outer with
    | none => []
    | some o => o :: m.outersWithin n o

/-- The enclosing classes of a class from the inside out. A class is created after the class that encloses
it, so there are fewer of them than its handle counts. -/
def outers (m : Model) (c : ClassId) : List ClassId := m.outersWithin c.index c

/-- The top-level class around a class, the class itself when it is one. -/
def outermost (m : Model) (c : ClassId) : ClassId := (m.outers c).getLast?.getD c

/-- A name in its package. -/
def packaged (m : Model) (p : PackageId) (name : String) : String :=
  let package := m.packageEntry p
  if package.isUnnamed then name else package.name ++ "." ++ name

/-- The name of a class, given the names of other classes. -/
def nameStep (m : Model) (separator : String) (name : ClassId → String) (c : ClassId) : String :=
  let e := m.entry c
  match e.origin, e.superclass, e.outer with
  | .placeholder, _, _ => e.name
  | .anonymous, some base, _ => name base.basis
  | _, _, some o => name o ++ separator ++ e.name
  | _, _, none => m.packaged e.package e.name

def qualifiedName (m : Model) (separator : String) (c : ClassId) : String :=
  descend (fun d ↦ (m.entry d).name) (m.nameStep separator) m.classes.length [] c

def fullName (m : Model) (c : ClassId) : String := m.qualifiedName "." c

def binaryName (m : Model) (c : ClassId) : String := m.qualifiedName "$" c

end JavaSource.Model
