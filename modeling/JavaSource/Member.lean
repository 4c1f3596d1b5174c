import JavaSource.Annotation.Value
import JavaSource.Syntax.Stmt

/-!
# Members of a class

Fields, methods with their parameters, enum constants and initializer blocks, and the builders that keep the
names of parameters and type parameters apart.
-/

namespace JavaSource

structure Field where
  mods : Modifiers
  type : JavaType
  name : String
  init : Option Expr := none
  annotations : List AnnotationUse := []
  javadoc : List String := []

def Field.annotate (f : Field) (u : AnnotationUse) : Field :=
  { f with annotations := f.annotations ++ [u] }

structure Param where
  mods : Modifiers
  type : JavaType
  name : String
  annotations : List AnnotationUse := []

def Param.annotate (p : Param) (u : AnnotationUse) : Param :=
  { p with annotations := p.annotations ++ [u] }

structure EnumConstant where
  name : String
  args : List Expr := []
  javadoc : List String := []

structure InitBlock where
  isStatic : Bool
  body : Block

/-- A method, or a constructor when it has no return type. -/
structure Method where
  owner : ClassId
  name : String
  mods : Modifiers
  returnType : Option JavaType
  typeParams : List TypeVar := []
  params : List Param := []
  varargs : Option Param := none
  throws : List JavaType := []
  annotations : List AnnotationUse := []
  body : Option Block
  defaultValue : Option AnnotationValue := none
  javadoc : List String := []

/-- Adds a type parameter to those of an owner. -/
def addTypeParam (owner : String) (params : List TypeVar) (v : TypeVar) :
    Except ModelError (List TypeVar) := do
  checkName .typeParameter v.name
  if params.any (·.name = v.name) then
    throw (.nameTaken v.name (.typeParameters owner))
  return params ++ [v]

/-- Adds a type to a list that holds no type twice. -/
def addOnce {α : Type} [DecidableEq α] (ts : List α) (t : α) : List α :=
  if t ∈ ts then ts else ts ++ [t]

@[simp] theorem mem_addOnce {α : Type} [DecidableEq α] {ts : List α} {t a : α} :
    a ∈ addOnce ts t ↔ a ∈ ts ∨ a = t := by
  unfold addOnce
  split
  · rename_i ht
    exact ⟨Or.inl, fun h ↦ h.elim id fun h ↦ h ▸ ht⟩
  · simp

theorem nodup_addOnce {α : Type} [DecidableEq α] {ts : List α} {t : α} (h : ts.Nodup) :
    (addOnce ts t).Nodup := by
  unfold addOnce
  split
  · exact h
  · rename_i ht
    rw [List.nodup_append]
    refine ⟨h, by simp, ?_⟩
    rintro a ha b hb rfl
    exact ht (List.mem_singleton.mp hb ▸ ha)

namespace Method

def isConstructor (m : Method) : Bool := m.returnType.isNone

/-- The parameters in order, the varargs parameter last. -/
def allParams (m : Method) : List Param := m.params ++ m.varargs.toList

def checkParamName (m : Method) (name : String) : Except ModelError Unit := do
  checkName .parameter name
  if m.allParams.any (·.name = name) then
    throw (.nameTaken name (.parameters m.name))

def generify (m : Method) (v : TypeVar) : Except ModelError Method := do
  let params ← addTypeParam m.name m.typeParams v
  return { m with typeParams := params }

def addParam (m : Method) (mods : Modifiers) (type : JavaType) (name : String) :
    Except ModelError Method := do
  m.checkParamName name
  if m.varargs.isSome then
    throw (.construction (.paramAfterVarargs name m.name))
  return { m with params := m.params ++ [{ mods, type, name }] }

/-- Sets the trailing parameter that takes any number of values of a type. -/
def setVarargs (m : Method) (type : JavaType) (name : String) : Except ModelError Method := do
  m.checkParamName name
  if m.varargs.isSome then
    throw (.construction (.secondVarargs m.name))
  return { m with varargs := some { mods := .none, type, name } }

def addThrows (m : Method) (type : JavaType) : Method :=
  { m with throws := addOnce m.throws type }

/-- Appends statements to the body, which is created when the method has none. -/
def extendBody (m : Method) (b : Block) : Method :=
  { m with body := some (m.body.getD [] ++ b) }

def removeBody (m : Method) : Method := { m with body := none }

def annotate (m : Method) (u : AnnotationUse) : Method :=
  { m with annotations := m.annotations ++ [u] }

/-- Changes the parameter at a position, the varargs parameter standing last. -/
def modifyParam (m : Method) (i : Nat) (f : Param → Param) : Method :=
  if i = m.params.length then { m with varargs := m.varargs.map f }
  else { m with params := m.params.modify i f }

end Method
end JavaSource
