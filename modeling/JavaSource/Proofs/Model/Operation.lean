import JavaSource.Model.Reference
import JavaSource.Proofs.Rendering.Mention

/-!
# Building operations

Everything a caller can do to a model, as data: making packages and classes, referring to classes, and
changing the members of one class. A caller only has the handles that the model gave out, so an operation
names classes and packages that are there. An operation that fails may still have changed the model.
-/

namespace JavaSource

inductive MethodStep where
  | modifiers (mods : Modifiers)
  | typeParam (v : TypeVar)
  | param (mods : Modifiers) (type : JavaType) (name : String)
  /-- Gives the parameter at a position other modifiers and another type. -/
  | adjustParam (i : Nat) (mods : Modifiers) (type : JavaType)
  | varargs (type : JavaType) (name : String)
  | throws (type : JavaType)
  | statements (b : Block)
  | noBody
  | defaultValue (v : AnnotationValue)
  | javadoc (lines : List String)

/-- A change to the members of one class. -/
inductive MemberStep where
  | modifiers (mods : Modifiers)
  | superclass (t : JavaType)
  | implement (t : JavaType)
  | typeParam (v : TypeVar)
  | field (mods : Modifiers) (type : JavaType) (name : String)
  /-- Changes all of a field but its name and its annotations. -/
  | adjustField (name : String) (mods : Modifiers) (type : JavaType) (init : Option Expr)
      (javadoc : List String)
  | renameField (old new : String)
  | method (mods : Modifiers) (returnType : JavaType) (name : String)
  | constructor (mods : Modifiers)
  | constant (name : String)
  /-- Changes all of the last constant but its name. -/
  | adjustConstant (args : List Expr) (javadoc : List String)
  | initBlock (isStatic : Bool) (body : Block)
  | annotate (target : AnnotationTarget) (u : AnnotationUse)
  | javadoc (lines : List String)
  | inMethod (i : Nat) (s : MethodStep)

inductive Operation where
  | package (name : String)
  | define (owner : Model.Owner) (mods : Modifiers) (name : String) (kind : ClassKind)
  | anonymous (base : JavaType)
  | reference (qualified : String)
  | referenceIn (p : PackageId) (name : String)
  | referenceNested (outer : ClassId) (name : String)
  | placeholder (name : String)
  | member (c : ClassId) (s : MemberStep)

inductive Answer where
  | done
  | package (p : PackageId)
  | class (c : ClassId)
  deriving DecidableEq

namespace MethodStep

def apply (m : Method) : MethodStep → Except ModelError Method
  | .modifiers mods => .ok { m with mods }
  | .typeParam v => m.generify v
  | .param mods type name => m.addParam mods type name
  | .adjustParam i mods type => .ok (m.modifyParam i fun p ↦ { p with mods, type })
  | .varargs type name => m.setVarargs type name
  | .throws type => .ok (m.addThrows type)
  | .statements b => .ok (m.extendBody b)
  | .noBody => .ok m.removeBody
  | .defaultValue v => .ok { m with defaultValue := some v }
  | .javadoc lines => .ok { m with javadoc := m.javadoc ++ lines }

def mentions : MethodStep → List Mention
  | .typeParam v => v.mentions
  | .param _ type _ | .adjustParam _ _ type | .varargs type _ | .throws type => [.type type]
  | .statements b => Stmt.mentionsEach b
  | .defaultValue v => v.mentions
  | .modifiers _ | .noBody | .javadoc _ => []

end MethodStep

namespace MemberStep

def apply (e : ClassEntry) : MemberStep → Except ModelError ClassEntry
  | .modifiers mods => .ok { e with mods }
  | .superclass t => e.setExtends t
  | .implement t => e.addInterface t
  | .typeParam v => e.generify v
  | .field mods type name => e.addField mods type name
  | .adjustField name mods type init lines =>
    .ok (e.modifyField name fun f ↦ { f with mods, type, init, javadoc := lines })
  | .renameField old new => e.renameField old new
  | .method mods returnType name => e.addMethod mods returnType name
  | .constructor mods => .ok (e.addConstructor mods)
  | .constant name => e.addConstant name
  | .adjustConstant args lines =>
    .ok (e.modifyLastConstant fun k ↦ { k with args, javadoc := lines })
  | .initBlock isStatic body => .ok (e.addInitBlock isStatic body)
  | .annotate target u => .ok (e.annotate target u)
  | .javadoc lines => .ok (e.addJavadoc lines)
  | .inMethod i s => e.updateMethod i s.apply

def mentions : MemberStep → List Mention
  | .superclass t | .implement t | .field _ t _ | .method _ t _ => [.type t]
  | .typeParam v => v.mentions
  | .adjustField _ _ t init _ => .type t :: init.toList.flatMap Expr.mentions
  | .adjustConstant args _ => Expr.mentionsEach args
  | .initBlock _ body => Stmt.mentionsEach body
  | .annotate _ u => u.mentions
  | .inMethod _ s => s.mentions
  | .modifiers _ | .renameField _ _ | .constructor _ | .constant _ | .javadoc _ => []

end MemberStep

namespace Operation

def perform : Operation → Build Answer
  | .package name => .package <$> Model.package name
  | .define owner mods name kind => .class <$> Model.defineClass owner mods name kind
  | .anonymous base => .class <$> Model.anonymousClass base
  | .reference qualified => .class <$> Model.reference qualified
  | .referenceIn p name => .class <$> Model.referenceIn p name
  | .referenceNested outer name => .class <$> Model.referenceNested outer name
  | .placeholder name => .class <$> Model.placeholder name
  | .member c s => do
    Model.updateClass c s.apply
    return .done

/-- The model after an operation, whether it fails or not. -/
def step (m : Model) (o : Operation) : Model := (o.perform.exec m).2

def mentions : Operation → List Mention
  | .define (.class c) _ _ _ | .referenceNested c _ => [.class c]
  | .anonymous base => [.type base]
  | .member c s => .class c :: s.mentions
  | _ => []

/-- The class that an operation is applied to. -/
def subject? : Operation → Option ClassId
  | .define (.class c) _ _ _ | .referenceNested c _ | .member c _ => some c
  | _ => none

def packages : Operation → List PackageId
  | .define (.package p) _ _ _ | .referenceIn p _ => [p]
  | _ => []

end Operation

namespace Model

def Knows (m : Model) (c : ClassId) : Prop := c.index < m.classes.length

def KnowsPackage (m : Model) (p : PackageId) : Prop := p.index < m.packages.length

instance (m : Model) (c : ClassId) : Decidable (m.Knows c) := inferInstanceAs (Decidable (_ < _))

instance (m : Model) (p : PackageId) : Decidable (m.KnowsPackage p) :=
  inferInstanceAs (Decidable (_ < _))

/-- Whether all handles in an operation are handles of the model. -/
def Admits (m : Model) (o : Operation) : Prop :=
  (∀ x ∈ o.mentions, ∀ c ∈ x.classes, m.Knows c) ∧ ∀ p ∈ o.packages, m.KnowsPackage p

instance (m : Model) (o : Operation) : Decidable (m.Admits o) := inferInstanceAs (Decidable (_ ∧ _))

def run (m : Model) (os : List Operation) : Model := os.foldl Operation.step m

/-- Whether each operation of a sequence names what is there when its turn comes. -/
def AdmitsAll (m : Model) : List Operation → Prop
  | [] => True
  | o :: os => m.Admits o ∧ (o.step m).AdmitsAll os

/-- The models that callers can build. -/
inductive Reachable : Model → Prop
  | initial : Reachable .initial
  | step {m : Model} (h : Reachable m) {o : Operation} (ho : m.Admits o) : Reachable (o.step m)

theorem Reachable.run {m : Model} (h : m.Reachable) {os : List Operation} (hos : m.AdmitsAll os) :
    (m.run os).Reachable := by
  induction os generalizing m with
  | nil => exact h
  | cons o os ih => exact ih (h.step hos.1) hos.2

instance decidableAdmitsAll : (os : List Operation) → (m : Model) → Decidable (m.AdmitsAll os)
  | [], _ => inferInstanceAs (Decidable True)
  | o :: os, m =>
    have := decidableAdmitsAll os (o.step m)
    inferInstanceAs (Decidable (m.Admits o ∧ (o.step m).AdmitsAll os))

end Model
end JavaSource
