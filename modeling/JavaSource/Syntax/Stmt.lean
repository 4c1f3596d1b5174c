import JavaSource.Error
import JavaSource.Modifier
import JavaSource.Syntax.Expr

/-!
# Statements

A block is a list of statements. The functions that declare a variable refuse a name that is no identifier.
-/

namespace JavaSource

structure LocalVar where
  mods : Modifiers
  type : JavaType
  name : String
  init : Option Expr

/-- A local variable under a checked name. -/
def LocalVar.declare (mods : Modifiers) (type : JavaType) (name : String) (init : Option Expr) :
    Except ModelError LocalVar := do
  checkName .variable name
  return ⟨mods, type, name, init⟩

mutual

inductive Stmt where
  | expression (e : Expr)
  | localVar (v : LocalVar)
  | ret (value : Option Expr)
  | throws (value : Expr)
  | breaks (label : Option String)
  | continues (label : Option String)
  | label (name : String)
  | ifThen (test : Expr) (body : List Stmt)
  | ifElse (test : Expr) (body otherwise : List Stmt)
  | whileLoop (test : Expr) (body : List Stmt)
  | doWhile (body : List Stmt) (test : Expr)
  | forLoop (init : Option LocalVar) (test : Option Expr) (update : List Expr) (body : List Stmt)
  | forEach (v : LocalVar) (iterable : Expr) (body : List Stmt)
  | switch (selector : Expr) (cases : List SwitchCase)
  | tryCatch (resources : List LocalVar) (body : List Stmt) (catches : List CatchClause)
      (final : Option (List Stmt))
  | synchronized (lock : Expr) (body : List Stmt)
  | block (body : List Stmt)
  /-- Source text on a line of its own. -/
  | direct (source : String)

/-- One case of a switch, the default case when it has no label. -/
inductive SwitchCase where
  | mk (label : Option Expr) (body : List Stmt)

inductive CatchClause where
  | mk (types : List JavaType) (name : String) (body : List Stmt)

end

instance : Inhabited Stmt := ⟨.block []⟩

abbrev Block := List Stmt

/-- A catch clause with an empty body, under a checked name. -/
def CatchClause.declare (types : List JavaType) (name : String) : Except ModelError CatchClause := do
  checkName .variable name
  return .mk types name []

/-- Appends statements to the body of a clause. -/
def CatchClause.append (c : CatchClause) (b : Block) : CatchClause :=
  match c with
  | .mk types name body => .mk types name (body ++ b)

/-- Appends the declaration of a local variable. -/
def Block.declare (b : Block) (mods : Modifiers) (type : JavaType) (name : String)
    (init : Option Expr) : Except ModelError Block := do
  let v ← LocalVar.declare mods type name init
  return b ++ [.localVar v]

end JavaSource
