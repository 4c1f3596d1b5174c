import JavaSource.Declaration.Members
import JavaSource.Declaration.Values

/-!
# Building declarations

First every declared type gets its class, then each gets its members, then the members of annotations get
their defaults, and last come the annotations. The annotations of a type stand behind those of its members.
-/

namespace JavaSource

/-- A default of a method, by the place of the method in its class. -/
structure DeferredDefault where
  id : ClassId
  method : Nat
  value : WrittenValue

/-- An annotation and what it stands on. -/
structure DeferredAnnotation where
  id : ClassId
  target : AnnotationTarget
  written : WrittenAnnotation

namespace MethodDeclaration

/-- The annotations of a method and of its parameters. -/
def deferred (d : MethodDeclaration) (c : ClassId) (i : Nat) : List DeferredAnnotation :=
  d.annotations.map (⟨c, .method i, ·⟩) ++
    d.params.zipIdx.flatMap fun (p, j) ↦ p.annotations.map (⟨c, .param i j, ·⟩)

end MethodDeclaration

namespace Placed

def defaults (p : Placed) : List DeferredDefault :=
  p.type.methods.zipIdx.filterMap fun (d, i) ↦ d.defaultValue.map (⟨p.id, i, ·⟩)

def deferred (p : Placed) : List DeferredAnnotation :=
  (p.type.fields.flatMap fun f ↦ f.annotations.map (⟨p.id, .field f.name, ·⟩)) ++
    (p.type.methods.zipIdx.flatMap fun (d, i) ↦ d.deferred p.id i) ++
    p.type.annotations.map (⟨p.id, .type, ·⟩)

end Placed

namespace Context

/-- Gives a method its default. -/
def setDefault (x : Context) (d : DeferredDefault) : Assemble Unit := do
  let m ← Assemble.model
  match (m.entry d.id).methods[d.method]? with
  | none => return ()
  | some method =>
    let value ← x.valueOf method.name (method.returnType.bind m.memberHint) d.value
    Assemble.modify d.id (·.modifyMethod d.method ({ · with defaultValue := some value }))

def annotate (x : Context) (a : DeferredAnnotation) : Assemble Unit := do
  let u ← x.useOf a.written
  Assemble.modify a.id (·.annotate a.target u)

end Context

namespace Declarations

/-- Enters declarations in a model. The answer is the top-level classes in order. -/
def assemble (policy : UnresolvedPolicy) (d : Declarations) : Assemble (List ClassId) := do
  let placed ← d.place
  let x : Context := ⟨policy, Placed.table placed⟩
  placed.forM x.fill
  placed.forM fun p ↦ p.defaults.forM x.setDefault
  placed.forM fun p ↦ p.deferred.forM x.annotate
  return (placed.filter (·.isTopLevel)).map (·.id)

/-- Builds declarations into a model. What a failed build has added stays. -/
def buildInto (policy : UnresolvedPolicy) (d : Declarations) (m : Model) :
    Except DeclarationError (List ClassId) × Model :=
  let r := (ExceptT.run (d.assemble policy)).run ⟨m, []⟩
  (r.1, r.2.model)

end Declarations
end JavaSource
