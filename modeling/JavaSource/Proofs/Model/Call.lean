import JavaSource.Proofs.Model.Operation

/-!
# Calls that build a model

Besides the operations there are the calls that write in a block that is in the model already: in the body of a
method or in an initializer, or in a block of a statement in it. The calls that declare a variable there refuse
a name that is no identifier. A place that is not there takes no call, and such a call does nothing.
-/

namespace JavaSource

/-- A block of a statement. -/
inductive Branch where
  | body
  | otherwise
  | case (i : Nat)
  | handler (i : Nat)
  | final

mutual

/-- A call on a block. -/
inductive BlockStep where
  | append (s : Stmt)
  | declare (mods : Modifiers) (type : JavaType) (name : String) (init : Option Expr)
  /-- Appends a loop with an empty body. -/
  | forEach (type : JavaType) (name : String) (iterable : Expr)
  | inStatement (i : Nat) (s : StmtStep)

/-- A call on a statement. -/
inductive StmtStep where
  /-- Declares the variable of a loop. -/
  | init (type : JavaType) (name : String) (value : Expr)
  | resource (type : JavaType) (name : String) (init : Expr)
  | handler (types : List JavaType) (name : String)
  | inBranch (b : Branch) (s : BlockStep)

end

inductive Call where
  | operation (o : Operation)
  /-- Writes in the body of a method. -/
  | inBody (c : ClassId) (i : Nat) (s : BlockStep)
  | inInitBlock (c : ClassId) (i : Nat) (s : BlockStep)

/-- Changes the item at a position unless the change is refused. -/
def List.updateAt {ε α : Type} (l : List α) (i : Nat) (f : α → Except ε α) : Except ε (List α) :=
  match l[i]? with
  | none => return l
  | some a => do return l.set i (← f a)

namespace SwitchCase

def updateBody (f : Block → Except ModelError Block) : SwitchCase → Except ModelError SwitchCase
  | .mk label body => do return .mk label (← f body)

end SwitchCase

namespace CatchClause

def updateBody (f : Block → Except ModelError Block) : CatchClause → Except ModelError CatchClause
  | .mk types name body => do return .mk types name (← f body)

end CatchClause

namespace Stmt

/-- Changes one block of a statement. -/
def updateBranch (s : Stmt) (b : Branch) (f : Block → Except ModelError Block) : Except ModelError Stmt :=
  match s, b with
  | .ifThen test body, .body => do return .ifThen test (← f body)
  | .ifElse test body otherwise, .body => do return .ifElse test (← f body) otherwise
  | .ifElse test body otherwise, .otherwise => do return .ifElse test body (← f otherwise)
  | .whileLoop test body, .body => do return .whileLoop test (← f body)
  | .doWhile body test, .body => do return .doWhile (← f body) test
  | .forLoop init test update body, .body => do return .forLoop init test update (← f body)
  | .forEach v iterable body, .body => do return .forEach v iterable (← f body)
  | .switch selector cases, .case i => do return .switch selector (← List.updateAt cases i (·.updateBody f))
  | .tryCatch resources body catches final, .body => do return .tryCatch resources (← f body) catches final
  | .tryCatch resources body catches final, .handler i => do
    return .tryCatch resources body (← List.updateAt catches i (·.updateBody f)) final
  | .tryCatch resources body catches (some final), .final => do
    return .tryCatch resources body catches (some (← f final))
  | .synchronized lock body, .body => do return .synchronized lock (← f body)
  | .block body, .body => do return .block (← f body)
  | s, _ => return s

/-- Gives a loop its variable. -/
def declareInit (s : Stmt) (type : JavaType) (name : String) (value : Expr) : Except ModelError Stmt :=
  match s with
  | .forLoop _ test update body => do
    let v ← LocalVar.declare .none type name (some value)
    return .forLoop (some v) test update body
  | s => return s

def addResource (s : Stmt) (type : JavaType) (name : String) (init : Expr) : Except ModelError Stmt :=
  match s with
  | .tryCatch resources body catches final => do
    let v ← LocalVar.declare .none type name (some init)
    return .tryCatch (resources ++ [v]) body catches final
  | s => return s

/-- Appends a catch clause with an empty body. -/
def addHandler (s : Stmt) (types : List JavaType) (name : String) : Except ModelError Stmt :=
  match s with
  | .tryCatch resources body catches final => do
    let clause ← CatchClause.declare types name
    return .tryCatch resources body (catches ++ [clause]) final
  | s => return s

end Stmt

mutual

def BlockStep.apply (b : Block) : BlockStep → Except ModelError Block
  | .append s => return b ++ [s]
  | .declare mods type name init => b.declare mods type name init
  | .forEach type name iterable => do
    let v ← LocalVar.declare .none type name none
    return b ++ [.forEach v iterable []]
  | .inStatement i s => List.updateAt b i fun stmt ↦ StmtStep.apply stmt s

def StmtStep.apply (s : Stmt) : StmtStep → Except ModelError Stmt
  | .init type name value => s.declareInit type name value
  | .resource type name init => s.addResource type name init
  | .handler types name => s.addHandler types name
  | .inBranch branch step => s.updateBranch branch fun b ↦ BlockStep.apply b step

end

namespace BlockStep

/-- Writes in the body of a method that has one. -/
def applyInBody (m : Method) (s : BlockStep) : Except ModelError Method :=
  match m.body with
  | none => return m
  | some b => do return { m with body := some (← s.apply b) }

def applyInInitBlock (x : InitBlock) (s : BlockStep) : Except ModelError InitBlock := do
  return { x with body := ← s.apply x.body }

end BlockStep

namespace Call

def perform : Call → Build Answer
  | .operation o => o.perform
  | .inBody c i s => do
    Model.updateClass c fun e ↦ e.updateMethod i s.applyInBody
    return .done
  | .inInitBlock c i s => do
    Model.updateClass c fun e ↦ do
      return { e with initBlocks := ← List.updateAt e.initBlocks i s.applyInInitBlock }
    return .done

/-- The model after a call, whether it fails or not. -/
def step (m : Model) (c : Call) : Model := (c.perform.exec m).2

end Call

/-- What came of a call: its answer and the model that it left. A member or a variable that a call hands out is told
by the call and that model. -/
structure Outcome where
  call : Call
  answer : Except ModelError Answer
  model : Model

namespace Outcome

def isSuccess (o : Outcome) : Bool := o.answer.isOk

end Outcome

namespace Model

/-- What comes of calls, one after the other. -/
def outcomes (m : Model) : List Call → List Outcome
  | [] => []
  | c :: cs => ⟨c, (c.perform.exec m).1, c.step m⟩ :: (c.step m).outcomes cs

/-- What comes of the calls that do not fail. -/
def successes (m : Model) (cs : List Call) : List Outcome := (m.outcomes cs).filter (·.isSuccess)

/-- The model after calls, whether they fail or not. -/
def afterCalls (m : Model) (cs : List Call) : Model := cs.foldl Call.step m

end Model
end JavaSource
