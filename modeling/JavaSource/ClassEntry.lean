import JavaSource.Member

/-!
# Class entries

One class, interface, enum or annotation type with its members. The relations to other entries are handles.
The builders refuse what Java has no declaration for and leave the entry as it is when they do.
-/

namespace JavaSource

/-- Where a class entry comes from. -/
inductive Origin where
  /-- Declared in the model and rendered by it. -/
  | defined
  /-- Compiled elsewhere and only referred to. -/
  | external
  /-- Stands for a type that could not be resolved. -/
  | placeholder
  /-- The body of an instance creation; its base is its superclass. -/
  | anonymous
  deriving DecidableEq

/-- What of a class an annotation stands on. Parameters are counted with the varargs parameter last. -/
inductive AnnotationTarget where
  | type
  | field (name : String)
  | method (i : Nat)
  | param (i j : Nat)
  deriving DecidableEq

structure ClassEntry where
  id : ClassId
  name : String
  kind : ClassKind
  origin : Origin
  package : PackageId
  outer : Option ClassId
  nested : Table ClassId := {}
  mods : Modifiers := .none
  superclass : Option ClassType := none
  interfaces : List ClassType := []
  typeParams : List TypeVar := []
  fields : List Field := []
  methods : List Method := []
  constants : List EnumConstant := []
  initBlocks : List InitBlock := []
  annotations : List AnnotationUse := []
  javadoc : List String := []

instance : Inhabited ClassEntry where
  default :=
    { id := ⟨0⟩, name := "", kind := .plain, origin := .external, package := ⟨0⟩, outer := none }

namespace ClassEntry

def isDefined (e : ClassEntry) : Bool := e.origin = .defined

def isPlaceholder (e : ClassEntry) : Bool := e.origin = .placeholder

def constructors (e : ClassEntry) : List Method := e.methods.filter (·.isConstructor)

/-- The methods that are no constructors. -/
def ordinaryMethods (e : ClassEntry) : List Method := e.methods.filter (!·.isConstructor)

def field? (e : ClassEntry) (name : String) : Option Field := e.fields.find? (·.name = name)

def setExtends (e : ClassEntry) (t : JavaType) : Except ModelError ClassEntry := do
  if e.kind ≠ .plain then
    throw (.construction (.cannotExtend e.kind e.name))
  match ClassType.ofType? t with
  | none => throw (.construction (.extendsNonClass e.name))
  | some base => return { e with superclass := some base }

/-- Adds an implemented interface, an extended one for interfaces. -/
def addInterface (e : ClassEntry) (t : JavaType) : Except ModelError ClassEntry :=
  match ClassType.ofType? t with
  | none => throw (.construction (.implementsNonClass e.name))
  | some i => return { e with interfaces := addOnce e.interfaces i }

def generify (e : ClassEntry) (v : TypeVar) : Except ModelError ClassEntry := do
  let params ← addTypeParam e.name e.typeParams v
  return { e with typeParams := params }

def addField (e : ClassEntry) (mods : Modifiers) (type : JavaType) (name : String) :
    Except ModelError ClassEntry := do
  checkName .field name
  if (e.field? name).isSome then
    throw (.nameTaken name (.fields e.name))
  return { e with fields := e.fields ++ [{ mods, type, name }] }

/-- Changes the field of a name. -/
def modifyField (e : ClassEntry) (name : String) (f : Field → Field) : ClassEntry :=
  { e with fields := e.fields.map fun x ↦ if x.name = name then f x else x }

/-- Gives a field another name in its old place. -/
def renameField (e : ClassEntry) (old new : String) : Except ModelError ClassEntry := do
  checkName .field new
  if old ≠ new ∧ (e.field? new).isSome then
    throw (.nameTaken new (.fields e.name))
  if (e.field? old).isNone then
    throw (.state (.noField e.name old))
  return e.modifyField old fun x ↦ { x with name := new }

/-- Whether a method of the entry starts without a body. -/
def startsBodiless (e : ClassEntry) (mods : Modifiers) : Bool :=
  mods.contains .abstr || mods.contains .native ||
    (e.kind.isInterface && !mods.contains .dflt && !mods.contains .static)

def addMethod (e : ClassEntry) (mods : Modifiers) (returnType : JavaType) (name : String) :
    Except ModelError ClassEntry := do
  checkName .method name
  let body := if e.startsBodiless mods then none else some []
  return { e with methods := e.methods ++ [{ owner := e.id, name, mods, returnType := some returnType, body }] }

def addConstructor (e : ClassEntry) (mods : Modifiers) : ClassEntry :=
  { e with
    methods := e.methods ++ [{ owner := e.id, name := e.name, mods, returnType := none, body := some [] }] }

def addConstant (e : ClassEntry) (name : String) : Except ModelError ClassEntry := do
  if e.kind ≠ .enum then
    throw (.construction (.notEnum e.name name))
  checkName .enumConstant name
  if e.constants.any (·.name = name) then
    throw (.nameTaken name (.constants e.name))
  return { e with constants := e.constants ++ [⟨name, [], []⟩] }

/-- Changes the constant added last. -/
def modifyLastConstant (e : ClassEntry) (f : EnumConstant → EnumConstant) : ClassEntry :=
  { e with constants := e.constants.modify (e.constants.length - 1) f }

def addInitBlock (e : ClassEntry) (isStatic : Bool) (body : Block) : ClassEntry :=
  { e with initBlocks := e.initBlocks ++ [⟨isStatic, body⟩] }

/-- Changes the method at a position, constructors counted. -/
def modifyMethod (e : ClassEntry) (i : Nat) (f : Method → Method) : ClassEntry :=
  { e with methods := e.methods.modify i f }

/-- Changes the method at a position unless the change is refused. -/
def updateMethod (e : ClassEntry) (i : Nat) (f : Method → Except ModelError Method) :
    Except ModelError ClassEntry :=
  match e.methods[i]? with
  | none => return e
  | some m => do
    let m ← f m
    return { e with methods := e.methods.set i m }

/-- Adds a use of an annotation to what it stands on. -/
def annotate (e : ClassEntry) (target : AnnotationTarget) (u : AnnotationUse) : ClassEntry :=
  match target with
  | .type => { e with annotations := e.annotations ++ [u] }
  | .field name => e.modifyField name (·.annotate u)
  | .method i => e.modifyMethod i (·.annotate u)
  | .param i j => e.modifyMethod i fun m ↦ m.modifyParam j (·.annotate u)

def addJavadoc (e : ClassEntry) (lines : List String) : ClassEntry :=
  { e with javadoc := e.javadoc ++ lines }

end ClassEntry
end JavaSource
