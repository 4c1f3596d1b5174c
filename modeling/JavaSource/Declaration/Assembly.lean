import JavaSource.Annotation.Shape
import JavaSource.Declaration.Error
import JavaSource.JavaType.Construction
import JavaSource.Model.Reference

/-!
# Assembling a model

Declarations enter a model step by step. A step that fails ends the work, and what was done before stays in
the model.
-/

namespace JavaSource

/-- A model that declarations enter, and the shapes of annotations that were looked at on the way. -/
structure Assembly where
  model : Model
  shapes : List (ClassId × Option AnnotationShape) := []

abbrev Assemble := ExceptT DeclarationError (StateM Assembly)

namespace Assemble

def model : Assemble Model := return (← get).model

/-- Takes the error of a model for the error of a declaration. -/
def ofExcept {α : Type} : Except ModelError α → Assemble α
  | .ok a => return a
  | .error e => throw (.model e)

/-- Carries out a building step. -/
def build {α : Type} (b : Build α) : Assemble α := do
  let s ← get
  let r := b.exec s.model
  set { s with model := r.2 }
  ofExcept r.1

def update (c : ClassId) (f : ClassEntry → Except ModelError ClassEntry) : Assemble Unit :=
  build (Model.updateClass c f)

def modify (c : ClassId) (f : ClassEntry → ClassEntry) : Assemble Unit := update c fun e ↦ .ok (f e)

end Assemble

/-- What names in a file mean: the types it declares, by dotted name, and the policy for types that could not
be resolved. -/
structure Context where
  policy : UnresolvedPolicy
  declared : Table ClassId := {}

/-- The type variables at some place of a file. -/
structure Scope where
  /-- The dotted name of the declaration around the place. -/
  owner : String
  vars : List String := []

def Scope.enter (s : Scope) (owner : String) (params : List TypeParamDeclaration) : Scope :=
  ⟨owner, s.vars ++ params.map (·.name)⟩

/-- A dotted name. -/
def dotted (owner name : String) : String := if owner = "" then name else owner ++ "." ++ name

namespace Context

def declared? (x : Context) (name : String) : Option ClassId :=
  x.declared.get? (name.map fun c ↦ if c = '$' then '.' else c)

/-- The class of a written name, one that the file declares or one referred to. -/
def classOf (x : Context) (name : String) : Assemble ClassId :=
  match x.declared? name with
  | some c => return c
  | none => Assemble.build (Model.reference name)

mutual

/-- The type that a written type stands for. -/
def typeOf (x : Context) (scope : Scope) : WrittenType → Assemble JavaType
  | .primitive name =>
    match Primitive.ofKeyword? name with
    | some p => return .primitive p
    | none => throw (.unknownPrimitive name)
  | .declared name args => do
    let c ← x.classOf name
    if args.isEmpty then return .reference c
    let args ← typesOf x scope args
    Assemble.ofExcept ((JavaType.reference c).narrow args)
  | .array component => do
    let component ← typeOf x scope component
    Assemble.ofExcept (JavaType.erasedArrayOf component)
  | .typeVar name =>
    if name ∈ scope.vars then return .var name none
    else throw (.unknownTypeVariable name scope.owner)
  | .wildcard none none => return .wildcard
  | .wildcard (some upper) none => .wildcardExtends <$> typeOf x scope upper
  | .wildcard none (some lower) => .wildcardSuper <$> typeOf x scope lower
  | .wildcard (some _) (some _) => throw (.model (.construction .twoBounds))
  | .unresolved name =>
    match x.policy with
    | .fail => throw (.unresolvedType name)
    | .keep => .reference <$> Assemble.build (Model.placeholder name)

def typesOf (x : Context) (scope : Scope) : List WrittenType → Assemble (List JavaType)
  | [] => return []
  | t :: ts => do
    let first ← typeOf x scope t
    let others ← typesOf x scope ts
    return first :: others

end

def typeOf? (x : Context) (scope : Scope) : Option WrittenType → Assemble (Option JavaType)
  | none => return none
  | some t => some <$> x.typeOf scope t

end Context
end JavaSource
