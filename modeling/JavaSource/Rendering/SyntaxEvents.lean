import JavaSource.Decimal.FloatText
import JavaSource.Rendering.Event
import JavaSource.Text.Quoted

/-!
# Events of types, expressions and statements

Anonymous classes are met inside types and expressions, and what is behind them is in the model. The walk
takes it as arguments: the events of the base that an anonymous class has as a type, and those of its body.
-/

namespace JavaSource

open Event

namespace JavaType

mutual

def events (base : ClassId → List Event) : JavaType → List Event
  | .primitive p => [.text p.keyword]
  | .reference c => [.reference c]
  | .narrowed c args => .reference c :: Event.typeArgs (eventsEach base args)
  | .array (.narrowed c _) => [.reference c, .text "[]"]
  | .array t => events base t ++ [.text "[]"]
  | .var name _ => [.identifier name]
  | .wildcard => [.text "?"]
  | .wildcardExtends bound => .text "? extends " :: events base bound
  | .wildcardSuper bound => .text "? super " :: events base bound
  | .anonymous c => base c

def eventsEach (base : ClassId → List Event) : List JavaType → List (List Event)
  | [] => []
  | t :: ts => events base t :: eventsEach base ts

end

end JavaType

/-- The events of what stands outside a type or an expression: types, and bodies of anonymous classes. -/
structure Walk where
  type : JavaType → List Event
  body : ClassId → List Event

namespace Walk

def types (w : Walk) (ts : List JavaType) : List Event := commas (ts.map w.type)

/-- The type parameters of a class or of a method. -/
def typeParams (w : Walk) (params : List TypeVar) : List Event :=
  if params = [] then []
  else
    Event.typeArgs <| params.map fun v ↦
      .identifier v.name :: (match v.bound with
        | none => []
        | some bound => .text " extends " :: w.type bound)

end Walk

namespace Expr

def intText (n : Int) : String := toString n

mutual

def events (w : Walk) : Expr → List Event
  | .null => [.text "null"]
  | .this => [.text "this"]
  | .super => [.text "super"]
  | .bool b => [.text (if b then "true" else "false")]
  | .int n => [.text (intText n.toInt)]
  | .long n => [.text (intText n.toInt ++ "L")]
  | .float x => [.text (Decimal.floatText x ++ "F")]
  | .double x => [.text (Decimal.floatText x ++ "D")]
  | .char c => [.text (Text.quoted '\'' (String.singleton c))]
  | .string s => [.text (Text.quoted '"' s)]
  | .atom source => [.text source]
  | .direct source => parens [.text source]
  | .name n => [.identifier n]
  | .type t => w.type t
  | .field receiver n => events w receiver ++ [.text ".", .text n]
  | .invoke n _ args => .identifier n :: parens (commas (eventsEach w args))
  | .call receiver n typeArgs args =>
    events w receiver ++ .text "." ::
      (if typeArgs = [] then [] else Event.typeArgs (typeArgs.map w.type)) ++
        .text n :: parens (commas (eventsEach w args))
  | .new t args =>
    .text "new " :: w.type t ++ parens (commas (eventsEach w args)) ++
      (match t with
        | .anonymous c => w.body c
        | _ => [])
  | .newArray t dims => .text "new " :: w.type t ++ eventsDims w dims
  | .arrayInit t dims items =>
    .text "new " :: w.type t ++ eventsDims w dims ++
      [.text "[]", .text "\x7b"] ++ commas (eventsEach w items) ++ [.text "\x7d"]
  | .index array position => events w array ++ .text "[" :: events w position ++ [.text "]"]
  | .unary op operand =>
    if !op.isStep then parens (.text op.symbol :: events w operand)
    else if op.followsOperand then events w operand ++ [.text op.symbol]
    else .text op.symbol :: events w operand
  | .binary op left right =>
    parens (events w left ++ .text (" " ++ op.symbol ++ " ") :: events w right)
  | .assign op target value =>
    let symbol := match op with
      | none => " = "
      | some op => " " ++ op.symbol ++ "= "
    events w target ++ .text symbol :: events w value
  | .conditional test yes no =>
    parens (events w test ++ .text " ? " :: events w yes ++ .text " : " :: events w no)
  | .cast t operand => .text "((" :: w.type t ++ .text ")" :: events w operand ++ [.text ")"]
  | .instanceOf operand t => parens (events w operand ++ .text " instanceof " :: w.type t)
  | .classLiteral t => w.type t ++ [.text ".class"]

def eventsEach (w : Walk) : List Expr → List (List Event)
  | [] => []
  | e :: es => events w e :: eventsEach w es

/-- Each size in brackets of its own. -/
def eventsDims (w : Walk) : List Expr → List Event
  | [] => []
  | e :: es => .text "[" :: events w e ++ .text "]" :: eventsDims w es

end

/-- A keyword and a condition in one pair of parentheses. -/
def conditionEvents (w : Walk) (keyword : String) (test : Expr) : List Event :=
  if test.isParenthesized then .text keyword :: .text " " :: test.events w
  else .text keyword :: .text " (" :: test.events w ++ [.text ")"]

end Expr

/-- A variable with its type and its initial value. -/
def LocalVar.events (w : Walk) (v : LocalVar) : List Event :=
  ofModifiers v.mods ++ w.type v.type ++ .identifier v.name ::
    (match v.init with
      | none => []
      | some e => .text " = " :: e.events w)

/-- Resources with semicolons between them. -/
def LocalVar.resourceEvents (w : Walk) : List LocalVar → List Event
  | [] => []
  | [v] => v.events w
  | v :: rest => v.events w ++ .text ";" :: resourceEvents w rest

/-- The alternatives of a catch clause. -/
def Walk.alternatives (w : Walk) : List JavaType → List Event
  | [] => []
  | [t] => w.type t
  | t :: rest => w.type t ++ .text " | " :: w.alternatives rest

namespace Stmt

mutual

def events (w : Walk) : Stmt → List Event
  | .expression e => e.events w ++ [.text ";", .newline]
  | .localVar v => v.events w ++ [.text ";", .newline]
  | .ret none => [.text "return;", .newline]
  | .ret (some e) => .text "return " :: e.events w ++ [.text ";", .newline]
  | .throws e => .text "throw " :: e.events w ++ [.text ";", .newline]
  | .breaks target => .text "break" :: target.toList.map .text ++ [.text ";", .newline]
  | .continues target => .text "continue" :: target.toList.map .text ++ [.text ";", .newline]
  | .label name => [.text name, .text ":", .newline]
  | .ifThen test body => test.conditionEvents w "if" ++ eventsBlock w body ++ [.newline]
  | .ifElse test body otherwise =>
    test.conditionEvents w "if" ++ eventsBlock w body ++
      (match otherwise with
        | [.ifThen t b] => .text " else " :: events w (.ifThen t b)
        | [.ifElse t b o] => .text " else " :: events w (.ifElse t b o)
        | o => .text " else" :: eventsBlock w o ++ [.newline])
  | .whileLoop test body => test.conditionEvents w "while" ++ eventsBlock w body ++ [.newline]
  | .doWhile body test =>
    .text "do" :: eventsBlock w body ++ .text " " :: test.conditionEvents w "while" ++
      [.text ";", .newline]
  | .forLoop init test update body =>
    .text "for (" :: (match init with
        | none => []
        | some v => v.events w) ++
      .text ";" :: (match test with
        | none => []
        | some e => e.events w) ++
      .text ";" :: commas (Expr.eventsEach w update) ++ .text ")" :: eventsBlock w body ++ [.newline]
  | .forEach v iterable body =>
    .text "for (" :: ofModifiers v.mods ++ w.type v.type ++ .identifier v.name :: .text " : " ::
      iterable.events w ++ .text ")" :: eventsBlock w body ++ [.newline]
  | .switch selector cases =>
    selector.conditionEvents w "switch" ++ [.text " \x7b", .newline, .indent] ++
      eventsCases w cases ++ [.outdent, .text "\x7d", .newline]
  | .tryCatch resources body catches final =>
    .text "try" ::
      (if resources.isEmpty then []
        else .text " (" :: LocalVar.resourceEvents w resources ++ [.text ")"]) ++
      eventsBlock w body ++ eventsCatches w catches ++
      (match final with
        | none => []
        | some b => .text " finally" :: eventsBlock w b) ++ [.newline]
  | .synchronized lock body => lock.conditionEvents w "synchronized" ++ eventsBlock w body ++ [.newline]
  | .block body => eventsBlock w body ++ [.newline]
  | .direct source => [.text source, .newline]

def eventsEach (w : Walk) : List Stmt → List Event
  | [] => []
  | s :: rest => events w s ++ eventsEach w rest

def eventsBlock (w : Walk) : List Stmt → List Event
  | [] => braces []
  | s :: rest => braces (events w s ++ eventsEach w rest)

def eventsCase (w : Walk) : SwitchCase → List Event
  | .mk value body =>
    (match value with
      | none => [.text "default:"]
      | some e => .text "case " :: e.events w ++ [.text ":"]) ++
      [.newline, .indent] ++ eventsEach w body ++ [.outdent]

def eventsCases (w : Walk) : List SwitchCase → List Event
  | [] => []
  | c :: rest => eventsCase w c ++ eventsCases w rest

def eventsCatch (w : Walk) : CatchClause → List Event
  | .mk types name body =>
    .text " catch (" :: w.alternatives types ++ .identifier name :: .text ")" :: eventsBlock w body

def eventsCatches (w : Walk) : List CatchClause → List Event
  | [] => []
  | c :: rest => eventsCatch w c ++ eventsCatches w rest

end

@[simp] theorem eventsBlock_eq (w : Walk) (b : List Stmt) :
    eventsBlock w b = braces (eventsEach w b) := by
  cases b <;> rfl

end Stmt
end JavaSource
