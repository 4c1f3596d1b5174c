import JavaSource.Proofs.Rendering.Mention

/-!
# Texts that callers give

A declaration is written with texts of its own, keywords, signs and numbers, and with texts that a caller has
given: names, labels, source text as it stands and lines of documentation. The given texts are listed here, for
the same parts as the mentions. Characters and strings are not among them, for they are written as literals.
-/

namespace JavaSource

namespace JavaType

mutual

/-- The names of type variables where the type is written. -/
def texts : JavaType → List String
  | .primitive _ | .reference _ | .wildcard | .anonymous _ => []
  | .narrowed _ args => textsEach args
  | .array (.narrowed _ _) => []
  | .array t | .wildcardExtends t | .wildcardSuper t => texts t
  | .var name _ => [name]

def textsEach : List JavaType → List String
  | [] => []
  | t :: ts => texts t ++ textsEach ts

end

end JavaType

def Mention.texts : Mention → List String
  | .type t => t.texts
  | .class _ | .body _ => []

namespace Expr

mutual

def texts : Expr → List String
  | .null | .this | .super | .bool _ | .int _ | .long _ | .float _ | .double _ | .char _ | .string _
  | .type _ | .classLiteral _ => []
  | .atom source | .direct source => [source]
  | .name n => [n]
  | .field receiver n => texts receiver ++ [n]
  | .invoke n _ args => n :: textsEach args
  | .call receiver n _ args => texts receiver ++ n :: textsEach args
  | .new _ args => textsEach args
  | .newArray _ dims => textsEach dims
  | .arrayInit _ dims items => textsEach dims ++ textsEach items
  | .index array position => texts array ++ texts position
  | .unary _ operand | .cast _ operand | .instanceOf operand _ => texts operand
  | .binary _ left right | .assign _ left right => texts left ++ texts right
  | .conditional test yes no => texts test ++ texts yes ++ texts no

def textsEach : List Expr → List String
  | [] => []
  | e :: es => texts e ++ textsEach es

end

end Expr

def LocalVar.texts (v : LocalVar) : List String := v.name :: v.init.toList.flatMap Expr.texts

namespace Stmt

mutual

def texts : Stmt → List String
  | .expression e | .throws e => e.texts
  | .localVar v => v.texts
  | .ret value => value.toList.flatMap Expr.texts
  | .breaks target | .continues target => target.toList
  | .label name => [name]
  | .direct source => [source]
  | .ifThen test body | .whileLoop test body | .synchronized test body | .doWhile body test =>
    test.texts ++ textsEach body
  | .ifElse test body otherwise => test.texts ++ textsEach body ++ textsEach otherwise
  | .forLoop init test update body =>
    init.toList.flatMap LocalVar.texts ++ test.toList.flatMap Expr.texts ++ Expr.textsEach update ++
      textsEach body
  | .forEach v iterable body => v.name :: iterable.texts ++ textsEach body
  | .switch selector cases => selector.texts ++ textsCases cases
  | .tryCatch resources body catches final =>
    resources.flatMap LocalVar.texts ++ textsEach body ++ textsCatches catches ++
      (match final with
        | none => []
        | some b => textsEach b)
  | .block body => textsEach body

def textsEach : List Stmt → List String
  | [] => []
  | s :: rest => texts s ++ textsEach rest

def textsCase : SwitchCase → List String
  | .mk value body => value.toList.flatMap Expr.texts ++ textsEach body

def textsCases : List SwitchCase → List String
  | [] => []
  | c :: rest => textsCase c ++ textsCases rest

def textsCatch : CatchClause → List String
  | .mk _ name body => name :: textsEach body

def textsCatches : List CatchClause → List String
  | [] => []
  | c :: rest => textsCatch c ++ textsCatches rest

end

end Stmt

namespace AnnotationValue

mutual

def texts : AnnotationValue → List String
  | .enumConstant _ constant => [constant]
  | .nested _ members => textsMembers members
  | .array items => textsEach items
  | _ => []

def textsMembers : List (String × AnnotationValue) → List String
  | [] => []
  | (name, v) :: rest => name :: texts v ++ textsMembers rest

def textsEach : List AnnotationValue → List String
  | [] => []
  | v :: vs => texts v ++ textsEach vs

end

end AnnotationValue

def AnnotationUse.texts (u : AnnotationUse) : List String := AnnotationValue.textsMembers u.members.entries

def TypeVar.texts (v : TypeVar) : List String := [v.name]

def EnumConstant.texts (k : EnumConstant) : List String := k.javadoc ++ k.name :: Expr.textsEach k.args

def Field.texts (f : Field) : List String :=
  f.javadoc ++ f.annotations.flatMap AnnotationUse.texts ++ f.name :: f.init.toList.flatMap Expr.texts

def Param.texts (p : Param) : List String := p.annotations.flatMap AnnotationUse.texts ++ [p.name]

def Method.texts (m : Method) : List String :=
  m.javadoc ++ m.annotations.flatMap AnnotationUse.texts ++ m.typeParams.flatMap TypeVar.texts ++ [m.name] ++
    m.allParams.flatMap Param.texts ++ m.defaultValue.toList.flatMap AnnotationValue.texts ++
    m.body.toList.flatMap Stmt.textsEach

namespace ClassEntry

/-- What is given for the text in front of the body, the name of the class apart. -/
def headerTexts (e : ClassEntry) : List String :=
  e.javadoc ++ e.annotations.flatMap AnnotationUse.texts ++ e.typeParams.flatMap TypeVar.texts

/-- What is given for the text of the body, nested classes apart. -/
def bodyTexts (e : ClassEntry) : List String :=
  e.constants.flatMap EnumConstant.texts ++ e.fields.flatMap Field.texts ++
    e.initBlocks.flatMap (fun b ↦ Stmt.textsEach b.body) ++ e.methods.flatMap Method.texts

end ClassEntry
end JavaSource
