import JavaSource.Declaration.Basic
import JavaSource.Error

/-!
# Errors of declarations

Why a declaration file gives no model. Each error has a message and a code, and some
come with help.
-/

namespace JavaSource

/-- Why an annotation member cannot have the value written for it. -/
inductive ValueFault where
  | notOneCharacter (value : String)
  | nestedArray
  deriving DecidableEq

def ValueFault.text : ValueFault → String
  | .notOneCharacter value => s!"expected a single character, found \"{value}\""
  | .nestedArray => "annotation arrays cannot be nested"

inductive DeclarationError where
  /-- The text is no TOML document or the document declares nothing that fits. -/
  | unreadable
  | unsupportedKind (kind : DeclaredKind) (type : String)
  | unknownPrimitive (name : String)
  | unknownTypeVariable (name scope : String)
  | unresolvedType (name : String)
  | badValue (member : String) (fault : ValueFault)
  | model (error : ModelError)
  deriving DecidableEq

namespace DeclarationError

def message : DeclarationError → String
  | unreadable => "failed to parse declarations"
  | unsupportedKind kind type => s!"unsupported kind '{kind.name}' for type '{type}'"
  | unknownPrimitive name => s!"unknown primitive type '{name}'"
  | unknownTypeVariable name scope => s!"type variable '{name}' is not declared in {scope}"
  | unresolvedType name => s!"unresolved type '{name}'"
  | badValue member fault => s!"invalid value for annotation member '{member}': {fault.text}"
  | model _ => "failed to build the code model"

def code : DeclarationError → String
  | unreadable => "jmodel::parse_error"
  | unsupportedKind _ _ => "jmodel::unsupported_kind"
  | unknownPrimitive _ => "jmodel::unknown_primitive"
  | unknownTypeVariable _ _ => "jmodel::unknown_type_variable"
  | unresolvedType _ => "jmodel::error_type"
  | badValue _ _ => "jmodel::invalid_value"
  | model _ => "jmodel::model"

/-- What can be done about an error. -/
def help? : DeclarationError → Option String
  | unsupportedKind _ _ => some "supported kinds are: class, interface, enum, annotation_type"
  | unknownPrimitive _ =>
    some "valid primitives are: boolean, byte, char, short, int, long, float, double, void"
  | unknownTypeVariable name _ =>
    some s!"declare '{name}' in the type_params of the type or method that uses it"
  | unresolvedType _ =>
    some "set error_types = \"placeholder\" in [render] to keep unresolved types as written"
  | unreadable | badValue _ _ | model _ => none

/-- The error of the model behind an error. -/
def cause? : DeclarationError → Option ModelError
  | model error => some error
  | _ => none

/-- Whether an error is about a type that could not be resolved. -/
def isUnresolvedType : DeclarationError → Bool
  | unresolvedType _ | model (.unresolvedType _) => true
  | _ => false

end DeclarationError
end JavaSource
