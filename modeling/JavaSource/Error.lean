import JavaSource.Identifier
import JavaSource.ClassKind
import JavaSource.JavaType.Outline

/-!
# Errors of the model

Each way in which building or rendering can fail is one cause. Causes fall into a few sorts, and the sort
decides how the text of the cause begins.
-/

namespace JavaSource

/-- What a refused name was meant to name. -/
inductive NameRole where
  | type
  | field
  | method
  | enumConstant
  | typeParameter
  | parameter
  | variable
  deriving DecidableEq

def NameRole.text : NameRole → String
  | .type => "type"
  | .field => "field"
  | .method => "method"
  | .enumConstant => "enum constant"
  | .typeParameter => "type parameter"
  | .parameter => "parameter"
  | .variable => "variable"

/-- Where a name is taken already. Owners are given by name. -/
inductive NameScope where
  | unnamedPackage
  | package (name : String)
  | members (fullName : String)
  | enclosing (fullName : String)
  | fields (owner : String)
  | constants (owner : String)
  | typeParameters (owner : String)
  | parameters (owner : String)
  deriving DecidableEq

def NameScope.text : NameScope → String
  | .unnamedPackage => "the unnamed package"
  | .package name => s!"package {name}"
  | .members fullName => fullName
  | .enclosing fullName => s!"enclosing classes of {fullName}"
  | .fields owner => s!"fields of {owner}"
  | .constants owner => s!"constants of {owner}"
  | .typeParameters owner => s!"type parameters of {owner}"
  | .parameters owner => s!"parameters of {owner}"

inductive ConstructionFault where
  | badName (role : NameRole) (name : String) (fault : NameFault)
  | undefinedOuter (name outer : String)
  | anonymousBase (base : JavaType)
  | cannotExtend (kind : ClassKind) (name : String)
  | extendsNonClass (name : String)
  | implementsNonClass (name : String)
  | notEnum (owner constant : String)
  | paramAfterVarargs (param method : String)
  | secondVarargs (method : String)
  | narrowedComponent
  | wildcardComponent
  | anonymousComponent
  | voidComponent
  | primitiveArgument (arg : JavaType)
  | notNarrowable (type : JavaType)
  | notAnnotationType (fullName : String)
  | notMemberType (member owner : String)
  | foreignUse (shape : String)
  | twoBounds
  deriving DecidableEq

def ConstructionFault.text : ConstructionFault → String
  | .badName role name fault => s!"invalid {role.text} name '{name}': {fault.reason}"
  | .undefinedOuter name outer =>
    s!"cannot declare '{name}' inside {outer}, which is not defined in this model"
  | .anonymousBase base =>
    s!"an anonymous class must extend a class or interface, not {base.outline}"
  | .cannotExtend kind name => s!"{kind.keyword} '{name}' cannot extend a class"
  | .extendsNonClass name => s!"'{name}' can only extend a class type"
  | .implementsNonClass name => s!"'{name}' can only implement interface types"
  | .notEnum owner constant => s!"'{owner}' is not an enum and cannot declare constant '{constant}'"
  | .paramAfterVarargs param method =>
    s!"cannot add '{param}' to {method} after its varargs parameter"
  | .secondVarargs method => s!"{method} already has a varargs parameter"
  | .narrowedComponent =>
    "array component must be erased; arrays of generic instantiations are illegal"
  | .wildcardComponent => "a wildcard cannot be an array component"
  | .anonymousComponent => "an anonymous class cannot be an array component"
  | .voidComponent => "void cannot be an array component"
  | .primitiveArgument arg => s!"type argument cannot be primitive: {arg.outline}"
  | .notNarrowable type => s!"only class types can be narrowed, not {type.outline}"
  | .notAnnotationType fullName => s!"{fullName} is not an annotation type"
  | .notMemberType member owner =>
    s!"member '{member}' of {owner} has no annotation member type"
  | .foreignUse shape =>
    s!"cannot write a different annotation through the shape of {shape}"
  | .twoBounds => "a wildcard has either an extends or a super bound, not both"

inductive StateFault where
  | noNestedClass (outer name : String)
  | noField (owner name : String)
  | containsItself (fullName : String)
  | notDefined (fullName : String)
  | isNested (fullName : String)
  deriving DecidableEq

def StateFault.text : StateFault → String
  | .noNestedClass outer name => s!"{outer} has no nested class named '{name}'"
  | .noField owner name => s!"{owner} has no field named '{name}'"
  | .containsItself fullName => s!"annotation {fullName} contains itself"
  | .notDefined fullName => s!"{fullName} is not defined in this model and cannot be rendered"
  | .isNested fullName => s!"{fullName} is a nested class; render its top-level class instead"

inductive ModelError where
  | construction (fault : ConstructionFault)
  | nameTaken (name : String) (scope : NameScope)
  | state (fault : StateFault)
  | typeMismatch (member expected found : String)
  | unknownMember (shape member : String)
  | unresolvedType (name : String)
  deriving DecidableEq

def ModelError.message : ModelError → String
  | .construction fault => s!"illegal construction: {fault.text}"
  | .nameTaken name scope => s!"'{name}' is already defined in {scope.text}"
  | .state fault => s!"illegal state: {fault.text}"
  | .typeMismatch member expected found =>
    s!"annotation member '{member}' expects {expected} but was given {found}"
  | .unknownMember shape member => s!"annotation {shape} has no member '{member}'"
  | .unresolvedType name => s!"unresolved type '{name}'"

/-- Refuses what is no identifier. -/
def checkName (role : NameRole) (name : String) : Except ModelError Unit :=
  match nameFault? name with
  | some fault => .error (.construction (.badName role name fault))
  | none => .ok ()

theorem checkName_eq_ok_iff {role : NameRole} {name : String} :
    checkName role name = .ok () ↔ nameFault? name = none := by
  unfold checkName
  split <;> simp_all

end JavaSource
