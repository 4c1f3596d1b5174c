import JavaSource.Rendering.ClassEvents

/-!
# What declarations mention

A walk over a declaration leaves it in three places: where a type is written, where a class is named without
a type around it, and where the body of an anonymous class begins. The parts of a declaration are listed here
by these mentions, each in the order of the walk.
-/

namespace JavaSource

namespace JavaType

mutual

/-- All classes in a type. -/
def classes : JavaType → List ClassId
  | .primitive _ | .var _ none | .wildcard => []
  | .reference c | .anonymous c => [c]
  | .narrowed c args => c :: classesEach args
  | .array t | .var _ (some t) | .wildcardExtends t | .wildcardSuper t => classes t

def classesEach : List JavaType → List ClassId
  | [] => []
  | t :: ts => classes t ++ classesEach ts

end

mutual

/-- The anonymous classes whose bases stand where the type is written. -/
def bases : JavaType → List ClassId
  | .primitive _ | .reference _ | .var _ _ | .wildcard => []
  | .narrowed _ args => basesEach args
  | .array (.narrowed _ _) => []
  | .array t | .wildcardExtends t | .wildcardSuper t => bases t
  | .anonymous c => [c]

def basesEach : List JavaType → List ClassId
  | [] => []
  | t :: ts => bases t ++ basesEach ts

end

mutual

theorem bases_subset_classes : ∀ t : JavaType, t.bases ⊆ t.classes
  | .primitive _ | .reference _ | .var _ _ | .wildcard => by simp [bases]
  | .anonymous c => by simp [bases, classes]
  | .narrowed c args => by
      intro d hd
      exact List.mem_cons_of_mem c (basesEach_subset_classesEach args (by simpa [bases] using hd))
  | .wildcardExtends t | .wildcardSuper t => by
      simpa [bases, classes] using bases_subset_classes t
  | .array t => by
      have ih := bases_subset_classes t
      cases t <;> simp_all [bases, classes]

theorem basesEach_subset_classesEach : ∀ ts : List JavaType, basesEach ts ⊆ classesEach ts
  | [] => by simp [basesEach]
  | t :: ts => by
      simp only [basesEach, classesEach]
      exact List.append_subset.mpr
        ⟨List.Subset.trans (bases_subset_classes t) (List.subset_append_left _ _),
          List.Subset.trans (basesEach_subset_classesEach ts) (List.subset_append_right _ _)⟩

end

end JavaType

/-- A place where a walk leaves the declaration it is at. -/
inductive Mention where
  | type (t : JavaType)
  | class (c : ClassId)
  | body (c : ClassId)

namespace Mention

/-- What a walk writes at a mention. -/
def events (w : Walk) : Mention → List Event
  | .type t => w.type t
  | .class c => [.reference c]
  | .body c => w.body c

def classes : Mention → List ClassId
  | .type t => t.classes
  | .class c | .body c => [c]

end Mention

namespace Expr

mutual

def mentions : Expr → List Mention
  | .null | .this | .super | .bool _ | .int _ | .long _ | .float _ | .double _ | .char _ | .string _
  | .atom _ | .direct _ | .name _ => []
  | .type t | .classLiteral t => [.type t]
  | .field receiver _ => mentions receiver
  | .invoke _ _ args => mentionsEach args
  | .call receiver _ typeArgs args => mentions receiver ++ typeArgs.map .type ++ mentionsEach args
  | .new t args =>
    .type t :: mentionsEach args ++
      (match t with
        | .anonymous c => [.body c]
        | _ => [])
  | .newArray t dims => .type t :: mentionsEach dims
  | .arrayInit t dims items => .type t :: mentionsEach dims ++ mentionsEach items
  | .index array position => mentions array ++ mentions position
  | .unary _ operand => mentions operand
  | .binary _ left right => mentions left ++ mentions right
  | .assign _ target value => mentions target ++ mentions value
  | .conditional test yes no => mentions test ++ mentions yes ++ mentions no
  | .cast t operand => .type t :: mentions operand
  | .instanceOf operand t => mentions operand ++ [.type t]

def mentionsEach : List Expr → List Mention
  | [] => []
  | e :: es => mentions e ++ mentionsEach es

end

end Expr

def LocalVar.mentions (v : LocalVar) : List Mention :=
  .type v.type :: v.init.toList.flatMap Expr.mentions

namespace Stmt

mutual

def mentions : Stmt → List Mention
  | .expression e | .throws e => e.mentions
  | .localVar v => v.mentions
  | .ret none | .breaks _ | .continues _ | .label _ | .direct _ => []
  | .ret (some e) => e.mentions
  | .ifThen test body | .whileLoop test body | .synchronized test body =>
    test.mentions ++ mentionsEach body
  | .doWhile body test => mentionsEach body ++ test.mentions
  | .ifElse test body otherwise => test.mentions ++ mentionsEach body ++ mentionsEach otherwise
  | .forLoop init test update body =>
    init.toList.flatMap LocalVar.mentions ++ test.toList.flatMap Expr.mentions ++
      Expr.mentionsEach update ++ mentionsEach body
  | .forEach v iterable body => .type v.type :: iterable.mentions ++ mentionsEach body
  | .switch selector cases => selector.mentions ++ mentionsCases cases
  | .tryCatch resources body catches final =>
    resources.flatMap LocalVar.mentions ++ mentionsEach body ++ mentionsCatches catches ++
      (match final with
        | none => []
        | some b => mentionsEach b)
  | .block body => mentionsEach body

def mentionsEach : List Stmt → List Mention
  | [] => []
  | s :: rest => mentions s ++ mentionsEach rest

def mentionsCase : SwitchCase → List Mention
  | .mk value body => value.toList.flatMap Expr.mentions ++ mentionsEach body

def mentionsCases : List SwitchCase → List Mention
  | [] => []
  | c :: rest => mentionsCase c ++ mentionsCases rest

def mentionsCatch : CatchClause → List Mention
  | .mk types _ body => types.map .type ++ mentionsEach body

def mentionsCatches : List CatchClause → List Mention
  | [] => []
  | c :: rest => mentionsCatch c ++ mentionsCatches rest

end

end Stmt

namespace AnnotationValue

mutual

def mentions : AnnotationValue → List Mention
  | .classLiteral t => [.type t]
  | .enumConstant c _ => [.class c]
  | .nested c members => .class c :: mentionsMembers members
  | .array items => mentionsEach items
  | _ => []

def mentionsMembers : List (String × AnnotationValue) → List Mention
  | [] => []
  | (_, v) :: rest => mentions v ++ mentionsMembers rest

def mentionsEach : List AnnotationValue → List Mention
  | [] => []
  | v :: vs => mentions v ++ mentionsEach vs

end

end AnnotationValue

def AnnotationUse.mentions (u : AnnotationUse) : List Mention :=
  .class u.type :: AnnotationValue.mentionsMembers u.members.entries

def TypeVar.mentions (v : TypeVar) : List Mention := v.bound.toList.map .type

def ClassType.mentions (t : ClassType) : List Mention := [.type t.toType]

def Field.mentions (f : Field) : List Mention :=
  f.annotations.flatMap AnnotationUse.mentions ++ .type f.type :: f.init.toList.flatMap Expr.mentions

def Param.mentions (p : Param) : List Mention :=
  p.annotations.flatMap AnnotationUse.mentions ++ [.type p.type]

def Method.mentions (m : Method) : List Mention :=
  m.annotations.flatMap AnnotationUse.mentions ++ m.typeParams.flatMap TypeVar.mentions ++
    m.returnType.toList.map .type ++ m.allParams.flatMap Param.mentions ++ m.throws.map .type ++
    m.defaultValue.toList.flatMap AnnotationValue.mentions ++ m.body.toList.flatMap Stmt.mentionsEach

namespace ClassEntry

/-- What is mentioned in front of the body. -/
def headerMentions (e : ClassEntry) : List Mention :=
  e.annotations.flatMap AnnotationUse.mentions ++ e.typeParams.flatMap TypeVar.mentions ++
    e.superclass.toList.flatMap ClassType.mentions ++ e.interfaces.flatMap ClassType.mentions

/-- What is mentioned in the body, nested classes apart. -/
def bodyMentions (e : ClassEntry) : List Mention :=
  e.constants.flatMap (fun k ↦ Expr.mentionsEach k.args) ++ e.fields.flatMap Field.mentions ++
    e.initBlocks.flatMap (fun b ↦ Stmt.mentionsEach b.body) ++ e.methods.flatMap Method.mentions

def mentions (e : ClassEntry) : List Mention := e.headerMentions ++ e.bodyMentions

end ClassEntry
end JavaSource
