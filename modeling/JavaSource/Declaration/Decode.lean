import JavaSource.Declaration.Error
import JavaSource.Ieee.Rounding
import JavaSource.Toml.Document
import JavaSource.Toml.Record

/-!
# Reading declaration files

The document of a declaration file is decoded record by record. A key that no record knows, a field that is
missing and a value of the wrong sort make the whole file unreadable.
-/

namespace JavaSource

open Toml (Record RecordForm)

def int64? (v : Toml.Value) : Option Int64 :=
  match v.integer? with
  | some n => if Int64.minValue.toInt ≤ n ∧ n ≤ Int64.maxValue.toInt then some (Int64.ofInt n) else none
  | none => none

def oneChar? (v : Toml.Value) : Option Char :=
  match v.string?.map (·.toList) with
  | some [c] => some c
  | _ => none

def Indent.ofToml? : Toml.Value → Option Indent
  | .scalar (.integer n) => if 1 ≤ n ∧ n ≤ 255 then some (.spaces n.toNat) else none
  | .scalar (.string s) => if s = "tab" then some .tab else none
  | _ => none

def LineSeparator.ofToml? (v : Toml.Value) : Option LineSeparator :=
  match v.choice? with
  | some s => if s = "lf" then some .lf else if s = "crlf" then some .crlf else none
  | none => none

def UnresolvedPolicy.ofToml? (v : Toml.Value) : Option UnresolvedPolicy :=
  match v.choice? with
  | some s => if s = "fail" then some .fail else if s = "placeholder" then some .keep else none
  | none => none

def DeclaredKind.ofToml? (v : Toml.Value) : Option DeclaredKind := v.choice?.bind DeclaredKind.ofName?

def DeclaredModifier.ofToml? (v : Toml.Value) : Option DeclaredModifier :=
  v.choice?.bind DeclaredModifier.ofName?

def RenderSettings.ofToml? (v : Toml.Value) : Option RenderSettings := do
  let r ← Record.ofValue?
    { names := ["indent", "line_separator", "error_types"], least := 0, isLoose := true } v
  let indent ← r.optional? "indent" Indent.ofToml?
  let separator ← r.optional? "line_separator" LineSeparator.ofToml?
  let unresolved ← r.optional? "error_types" UnresolvedPolicy.ofToml?
  let layout : Layout := {}
  return {
    layout := ⟨indent.getD layout.indent, separator.getD layout.separator⟩
    unresolved := unresolved.getD .fail }

/-- A written type, nested at most so deep. -/
def WrittenType.ofTomlWithin? : Nat → Toml.Value → Option WrittenType
  | 0, _ => none
  | n + 1, v => do
    let (tag, v) ← v.variant? "kind"
    match tag with
    | "primitive" => do
      let r ← Record.ofValue? { names := ["name"], least := 1 } v
      return .primitive (← r.required? "name" (·.string?))
    | "declared" => do
      let r ← Record.ofValue? { names := ["name", "args"], least := 1 } v
      return .declared (← r.required? "name" (·.string?)) (← r.list? "args" (ofTomlWithin? n))
    | "array" => do
      let r ← Record.ofValue? { names := ["component"], least := 1 } v
      return .array (← r.required? "component" (ofTomlWithin? n))
    | "type_var" => do
      let r ← Record.ofValue? { names := ["name"], least := 1 } v
      return .typeVar (← r.required? "name" (·.string?))
    | "wildcard" => do
      let r ← Record.ofValue? { names := ["extends", "super"], least := 2 } v
      return .wildcard (← r.optional? "extends" (ofTomlWithin? n))
        (← r.optional? "super" (ofTomlWithin? n))
    | "error" => do
      let r ← Record.ofValue? { names := ["name"], least := 1 } v
      return .unresolved (← r.required? "name" (·.string?))
    | _ => none

def WrittenType.ofToml? (v : Toml.Value) : Option WrittenType := ofTomlWithin? v.depth v

/-- Named values in the order of their names. -/
def valuesOfToml? (f : Toml.Value → Option WrittenValue) (v : Toml.Value) :
    Option (List (String × WrittenValue)) := do
  let values ← (← v.entries?).mapM fun (name, v) ↦ (f v).map (name, ·)
  return values.mergeSort fun a b ↦ a.1 ≤ b.1

def WrittenAnnotation.ofRecord? (f : Toml.Value → Option WrittenValue) (r : Record) :
    Option WrittenAnnotation := do
  let type ← r.required? "type" (·.string?)
  let values ← r.optional? "values" (valuesOfToml? f)
  return ⟨type, values.getD []⟩

/-- A value that is a table or an array with a tag, its parts read by another reader. -/
def WrittenValue.ofVariant? (f : Toml.Value → Option WrittenValue) (v : Toml.Value) :
    Option WrittenValue := do
  let (tag, v) ← v.variant? "kind"
  match tag with
  | "char" => do
    let r ← Record.ofValue? { names := ["value"], least := 1, isOpen := true } v
    return .char (← r.required? "value" oneChar?)
  | "long" => do
    let r ← Record.ofValue? { names := ["value"], least := 1, isOpen := true } v
    return .long (← r.required? "value" int64?)
  | "class" => do
    let r ← Record.ofValue? { names := ["type"], least := 1, isOpen := true } v
    return .classLiteral (← r.required? "type" WrittenType.ofToml?)
  | "enum" => do
    let r ← Record.ofValue? { names := ["type", "constant"], least := 2, isOpen := true } v
    return .enumConstant (← r.required? "type" (·.string?)) (← r.required? "constant" (·.string?))
  | "annotation" => do
    let r ← Record.ofValue? { names := ["type", "values"], least := 1 } v
    let a ← WrittenAnnotation.ofRecord? f r
    return .nested a.type a.values
  | _ => none

/-- An integer past the signed words is a float. -/
def WrittenValue.ofInteger (n : Int) : WrittenValue :=
  if Int64.minValue.toInt ≤ n ∧ n ≤ Int64.maxValue.toInt then .int (Int64.ofInt n) else .float (.ofInt n)

/-- A written value, nested at most so deep. -/
def WrittenValue.ofTomlWithin? : Nat → Toml.Value → Option WrittenValue
  | 0, _ => none
  | n + 1, v =>
    match v with
    | .scalar (.boolean b) => some (.bool b)
    | .scalar (.integer i) => some (.ofInteger i)
    | .scalar (.float x) => some (.float x)
    | .scalar (.string s) => some (.string s)
    | .scalar (.dateTime _) | .scalar .outOfRange => none
    | .array items =>
      match items.mapM (ofTomlWithin? n) with
      | some values => some (.array values)
      | none => ofVariant? (ofTomlWithin? n) v
    | .table _ => ofVariant? (ofTomlWithin? n) v

/-- A written value. It is read as a whole, keys that its kind does not know included. -/
def WrittenValue.ofToml? (v : Toml.Value) : Option WrittenValue :=
  if v.isInRange then ofTomlWithin? v.depth v else none

def WrittenAnnotation.ofToml? (v : Toml.Value) : Option WrittenAnnotation := do
  let r ← Record.ofValue? { names := ["type", "values"], least := 1, isLoose := true } v
  ofRecord? WrittenValue.ofToml? r

def TypeParamDeclaration.ofToml? (v : Toml.Value) : Option TypeParamDeclaration := do
  let r ← Record.ofValue? { names := ["name", "bound"], least := 2, isLoose := true } v
  return {
    name := ← r.required? "name" (·.string?)
    bound := ← r.optional? "bound" WrittenType.ofToml? }

def FieldDeclaration.ofToml? (v : Toml.Value) : Option FieldDeclaration := do
  let r ← Record.ofValue?
    { names := ["name", "type", "modifiers", "annotations", "javadoc"], least := 2, isLoose := true } v
  return {
    name := ← r.required? "name" (·.string?)
    type := ← r.required? "type" WrittenType.ofToml?
    modifiers := ← r.list? "modifiers" DeclaredModifier.ofToml?
    annotations := ← r.list? "annotations" WrittenAnnotation.ofToml?
    javadoc := ← r.list? "javadoc" (·.string?) }

def ParamDeclaration.ofToml? (v : Toml.Value) : Option ParamDeclaration := do
  let r ← Record.ofValue?
    { names := ["name", "type", "modifiers", "annotations"], least := 2, isLoose := true } v
  return {
    name := ← r.required? "name" (·.string?)
    type := ← r.required? "type" WrittenType.ofToml?
    modifiers := ← r.list? "modifiers" DeclaredModifier.ofToml?
    annotations := ← r.list? "annotations" WrittenAnnotation.ofToml? }

def MethodDeclaration.ofToml? (v : Toml.Value) : Option MethodDeclaration := do
  let r ← Record.ofValue?
    { names := ["name", "constructor", "modifiers", "type_params", "returns", "param", "varargs",
        "throws", "annotations", "default", "javadoc"]
      least := 10
      isLoose := true } v
  return {
    name := (← r.optional? "name" (·.string?)).getD ""
    isConstructor := (← r.optional? "constructor" (·.boolean?)).getD false
    modifiers := ← r.list? "modifiers" DeclaredModifier.ofToml?
    typeParams := ← r.list? "type_params" TypeParamDeclaration.ofToml?
    returnType := ← r.optional? "returns" WrittenType.ofToml?
    params := ← r.list? "param" ParamDeclaration.ofToml?
    hasVarargs := (← r.optional? "varargs" (·.boolean?)).getD false
    throws := ← r.list? "throws" WrittenType.ofToml?
    annotations := ← r.list? "annotations" WrittenAnnotation.ofToml?
    defaultValue := ← r.optional? "default" WrittenValue.ofToml?
    javadoc := ← r.list? "javadoc" (·.string?) }

/-- A type, nested at most so deep. -/
def TypeDeclaration.ofTomlWithin? : Nat → Toml.Value → Option TypeDeclaration
  | 0, _ => none
  | n + 1, v => do
    let r ← Record.ofValue?
      { names := ["name", "kind", "modifiers", "type_params", "superclass", "interfaces",
          "annotations", "javadoc", "constants", "field", "method", "nested"]
        least := 5
        isLoose := true } v
    return {
      name := ← r.required? "name" (·.string?)
      kind := ← r.required? "kind" DeclaredKind.ofToml?
      modifiers := ← r.list? "modifiers" DeclaredModifier.ofToml?
      typeParams := ← r.list? "type_params" TypeParamDeclaration.ofToml?
      superclass := ← r.optional? "superclass" WrittenType.ofToml?
      interfaces := ← r.list? "interfaces" WrittenType.ofToml?
      annotations := ← r.list? "annotations" WrittenAnnotation.ofToml?
      javadoc := ← r.list? "javadoc" (·.string?)
      constants := ← r.list? "constants" (·.string?)
      fields := ← r.list? "field" FieldDeclaration.ofToml?
      methods := ← r.list? "method" MethodDeclaration.ofToml?
      nested := ← r.list? "nested" (ofTomlWithin? n) }

def TypeDeclaration.ofToml? (v : Toml.Value) : Option TypeDeclaration := ofTomlWithin? v.depth v

def PackageDeclaration.ofToml? (v : Toml.Value) : Option PackageDeclaration := do
  let r ← Record.ofValue? { names := ["name", "type"], least := 0, isLoose := true } v
  return {
    name := (← r.optional? "name" (·.string?)).getD ""
    types := ← r.list? "type" TypeDeclaration.ofToml? }

namespace Declarations

def ofToml? (v : Toml.Value) : Option Declarations := do
  let r ← Record.ofValue? { names := ["render", "package"], least := 0, isLoose := true } v
  let settings ← r.optional? "render" RenderSettings.ofToml?
  return {
    settings := settings.getD {}
    packages := ← r.list? "package" PackageDeclaration.ofToml? }

/-- Reads the text of a declaration file. -/
def parse (text : String) : Except DeclarationError Declarations :=
  match (Toml.parse text).bind ofToml? with
  | some d => .ok d
  | none => .error .unreadable

end Declarations
end JavaSource
