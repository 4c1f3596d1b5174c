import JavaSource.Model.Names
import JavaSource.Rendering.MemberEvents

/-!
# Events of classes

The members of a class come in a fixed order: constants, fields, initializers, constructors, methods, nested
classes. A blank line stands between any two groups of lines, and each field belongs to one group with the
others.

A walk enters the bodies of nested classes and of anonymous ones, and the bases of anonymous classes.
-/

namespace JavaSource

open Event

namespace ClassEntry

/-- What follows the name: type parameters, superclass and interfaces. -/
def heritageEvents (w : Walk) (e : ClassEntry) : List Event :=
  w.typeParams e.typeParams ++
    if e.kind.isInterface then
      if e.interfaces = [] then [] else .text " extends " :: w.types (e.interfaces.map (·.toType))
    else
      (match e.superclass with
        | none => []
        | some base =>
          if base = ⟨Model.object, none⟩ then [] else .text " extends " :: w.type base.toType) ++
        if e.interfaces = [] then [] else .text " implements " :: w.types (e.interfaces.map (·.toType))

def headerEvents (w : Walk) (e : ClassEntry) : List Event :=
  ofJavadoc e.javadoc ++ w.annotationLines e.annotations ++ ofModifiers e.mods ++
    [.text e.kind.keyword, .declared e.id] ++ e.heritageEvents w

def hasMembers (e : ClassEntry) : Bool :=
  !e.fields.isEmpty || !e.initBlocks.isEmpty || !e.methods.isEmpty || !e.nested.isEmpty

/-- The groups of lines in the body of a class, given the declarations of its nested classes. -/
def memberGroups (w : Walk) (e : ClassEntry) (nested : List (List Event)) : List (List Event) :=
  (if e.constants.isEmpty then [] else [EnumConstant.eventsAll w e.constants]) ++
    (if e.fields.isEmpty then [] else [e.fields.flatMap (·.events w)]) ++
    e.initBlocks.map (·.events w) ++ e.constructors.map (·.events w) ++
    e.ordinaryMethods.map (·.events w) ++ nested

/-- An enum without constants has a semicolon in front of its members. -/
def bodyEvents (w : Walk) (e : ClassEntry) (nested : List (List Event)) : List Event :=
  braces <|
    (if e.kind = .enum ∧ e.constants.isEmpty ∧ e.hasMembers then [.text ";", .newline] else []) ++
      blankLines (e.memberGroups w nested)

end ClassEntry

namespace Model

/-- The base of an anonymous class in place of a type, given those of other anonymous classes. -/
def baseStep (m : Model) (base : ClassId → List Event) (c : ClassId) : List Event :=
  match (m.entry c).superclass with
  | none => [.reference object]
  | some t => t.toType.events base

def baseEvents (m : Model) : ClassId → List Event :=
  descend (fun _ ↦ []) m.baseStep m.classes.length []

def typeEvents (m : Model) (t : JavaType) : List Event := t.events m.baseEvents

/-- A class declaration, given the bodies of classes. -/
def declarationWith (m : Model) (body : ClassId → List Event) (c : ClassId) : List Event :=
  (m.entry c).headerEvents ⟨m.typeEvents, body⟩ ++ body c ++ [.newline]

/-- The body of a class, given the bodies of other classes. -/
def bodyStep (m : Model) (body : ClassId → List Event) (c : ClassId) : List Event :=
  let e := m.entry c
  e.bodyEvents ⟨m.typeEvents, body⟩ (e.nested.values.map (m.declarationWith body))

def bodyEvents (m : Model) : ClassId → List Event :=
  descend (fun _ ↦ []) m.bodyStep m.classes.length []

/-- The walk through what stands outside all class bodies. -/
def walk (m : Model) : Walk := ⟨m.typeEvents, m.bodyEvents⟩

/-- A class declaration with its line end. -/
def declarationEvents (m : Model) (c : ClassId) : List Event := m.declarationWith m.bodyEvents c

end Model
end JavaSource
