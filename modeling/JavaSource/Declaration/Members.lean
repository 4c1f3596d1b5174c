import JavaSource.Declaration.Placement

/-!
# Members of declared types

A placed type gets its type parameters, its supertypes and its members. The types of a method are all looked
up before the method is added. Annotations and defaults come later.
-/

namespace JavaSource

/-- A parameter whose type was looked up. -/
structure TypedParam where
  mods : Modifiers
  type : JavaType
  name : String

namespace TypedParam

/-- Adds a parameter to a method. -/
def addTo (p : TypedParam) (m : Method) : Except ModelError Method := m.addParam p.mods p.type p.name

/-- Adds a parameter that takes any number of values. An array gives the type of one value. -/
def addVarargsTo (p : TypedParam) (m : Method) : Except ModelError Method := do
  let m ← m.setVarargs (p.type.component?.getD p.type) p.name
  return { m with varargs := m.varargs.map fun q ↦ { q with mods := p.mods } }

end TypedParam

namespace Context

def typeParam (x : Context) (scope : Scope) (p : TypeParamDeclaration) : Assemble TypeVar := do
  let bound ← x.typeOf? scope p.bound
  return ⟨p.name, bound⟩

def typedParam (x : Context) (scope : Scope) (p : ParamDeclaration) : Assemble TypedParam := do
  let type ← x.typeOf scope p.type
  return ⟨DeclaredModifier.carried p.modifiers, type, p.name⟩

/-- Gives a plain class its superclass. The root of all classes goes without saying, and other kinds have no
superclass to choose. -/
def setSuperclass (x : Context) (scope : Scope) (c : ClassId) (t : WrittenType) : Assemble Unit := do
  let t ← x.typeOf scope t
  let m ← Assemble.model
  if (m.entry c).kind = .plain ∧ t.classId? ≠ some Model.object then
    Assemble.update c (·.setExtends t)

def addField (x : Context) (scope : Scope) (c : ClassId) (f : FieldDeclaration) : Assemble Unit := do
  let type ← x.typeOf scope f.type
  Assemble.update c (·.addField (DeclaredModifier.carried f.modifiers) type f.name)
  Assemble.modify c (·.modifyField f.name fun g ↦ { g with javadoc := g.javadoc ++ f.javadoc })

/-- Adds the parameters of a method one by one. -/
def addParams (c : ClassId) (i : Nat) (hasVarargs : Bool) : List TypedParam → Assemble Unit
  | [] => return ()
  | [p] => Assemble.update c (·.updateMethod i (if hasVarargs then p.addVarargsTo else p.addTo))
  | p :: ps => do
    Assemble.update c (·.updateMethod i p.addTo)
    addParams c i hasVarargs ps

/-- Adds a method or a constructor without a signature. -/
def addSignature (c : ClassId) (d : MethodDeclaration) (returnType : JavaType) : Assemble Unit :=
  let mods := DeclaredModifier.carried d.modifiers
  if d.isConstructor then Assemble.modify c (·.addConstructor mods)
  else Assemble.update c (·.addMethod mods returnType d.name)

def addMethod (x : Context) (outer : Scope) (c : ClassId) (d : MethodDeclaration) : Assemble Unit := do
  let entry := (← Assemble.model).entry c
  let name := if d.isConstructor then entry.name else d.name
  let scope := outer.enter (outer.owner ++ "." ++ name) d.typeParams
  let typeParams ← d.typeParams.mapM (x.typeParam scope)
  let returnType ← x.typeOf? scope d.returnType
  let params ← d.params.mapM (x.typedParam scope)
  let throws ← x.typesOf scope d.throws
  let i := entry.methods.length
  addSignature c d (returnType.getD (.primitive .void))
  typeParams.forM fun v ↦ Assemble.update c (·.updateMethod i (·.generify v))
  addParams c i d.hasVarargs params
  Assemble.modify c (·.modifyMethod i fun m ↦
    { throws.foldl Method.addThrows m with javadoc := m.javadoc ++ d.javadoc })

/-- Adds everything to the class of a placed type but annotations and defaults. -/
def fill (x : Context) (p : Placed) : Assemble Unit := do
  let c := p.id
  p.type.typeParams.forM fun d ↦ do
    let v ← x.typeParam p.scope d
    Assemble.update c (·.generify v)
  p.type.superclass.forM (x.setSuperclass p.scope c)
  p.type.interfaces.forM fun t ↦ do
    let t ← x.typeOf p.scope t
    Assemble.update c (·.addInterface t)
  Assemble.modify c (·.addJavadoc p.type.javadoc)
  p.type.constants.forM fun name ↦ Assemble.update c (·.addConstant name)
  p.type.fields.forM (x.addField p.scope c)
  p.type.methods.forM (x.addMethod p.scope c)

end Context
end JavaSource
