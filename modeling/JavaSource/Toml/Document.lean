import JavaSource.Toml.Statement
import JavaSource.Table

/-!
# Documents

The statements of a document are put into one table. A table is open in one way only: by its header, by
headers of tables inside it, or by dotted keys. An inline table and an array of values are closed where they
end.
-/

namespace JavaSource.Toml

/-- A place in a document that is still being put together. -/
inductive Node where
  | value (v : Value)
  /-- A table, implicit while it has no header, dotted when keys made it. -/
  | table (isImplicit isDotted : Bool) (entries : List (String × Node))
  /-- An array of tables. -/
  | tables (items : List (List (String × Node)))

abbrev Node.Entries := List (String × Node)

namespace Node

mutual

def toValue : Node → Value
  | .value v => v
  | .table _ _ entries => .table (toEntries entries)
  | .tables items => .array (toItems items)

def toEntries : List (String × Node) → List (String × Value)
  | [] => []
  | (k, n) :: rest => (k, toValue n) :: toEntries rest

def toItems : List (List (String × Node)) → List Value
  | [] => []
  | entries :: rest => .table (toEntries entries) :: toItems rest

end

/-- Changes the last table of an array unless the change is refused. -/
def updateLast (f : Entries → Option Entries) : List Entries → Option (List Entries)
  | [] => none
  | [e] => (f e).map ([·])
  | e :: rest => (updateLast f rest).map (e :: ·)

/-- Gives a value to a path of keys. A path of more than one key runs through tables that dotted keys made
and makes them where there are none. -/
def assign (v : Value) (isDotted isDirect : Bool) : List String → Entries → Option Entries
  | [], _ => none
  | [k], es =>
    if isDotted = isDirect then none
    else if (Table.find k es).isSome then none
    else some (es ++ [(k, .value v)])
  | k :: rest, es =>
    match Table.find k es with
    | none => (assign v true false rest []).map fun sub ↦ es ++ [(k, .table true true sub)]
    | some (.table isImplicit dotted sub) =>
      if !isImplicit then none
      else
        (assign v dotted false rest sub).map fun sub ↦ Table.put k (.table isImplicit dotted sub) es
    | some (.tables items) =>
      (updateLast (assign v false false rest) items).map fun items ↦ Table.put k (.tables items) es
    | some (.value _) => none

/-- Follows a header to its last key and does there what the header asks for. -/
def follow (last : String → Entries → Option Entries) : List String → Entries → Option Entries
  | [], _ => none
  | [k], es => last k es
  | k :: rest, es =>
    match Table.find k es with
    | none => (follow last rest []).map fun sub ↦ es ++ [(k, .table true false sub)]
    | some (.table isImplicit isDotted sub) =>
      (follow last rest sub).map fun sub ↦ Table.put k (.table isImplicit isDotted sub) es
    | some (.tables items) =>
      (updateLast (follow last rest) items).map fun items ↦ Table.put k (.tables items) es
    | some (.value _) => none

/-- Opens a table that has no header yet. -/
def openTable (k : String) (es : Entries) : Option Entries :=
  match Table.find k es with
  | none => some (es ++ [(k, .table false false [])])
  | some (.table true false sub) => some (Table.put k (.table false false sub) es)
  | _ => none

/-- Appends a table to an array of tables. -/
def openElement (k : String) (es : Entries) : Option Entries :=
  match Table.find k es with
  | none => some (es ++ [(k, .tables [[]])])
  | some (.tables items) => some (Table.put k (.tables (items ++ [[]])) es)
  | _ => none

/-- Changes the table that the last header opened. -/
def inTable (f : Entries → Option Entries) (k : String) (es : Entries) : Option Entries :=
  match Table.find k es with
  | some (.table i d sub) => (f sub).map fun sub ↦ Table.put k (.table i d sub) es
  | some (.tables items) => (updateLast f items).map fun items ↦ Table.put k (.tables items) es
  | _ => none

end Node

/-- A document so far, and the header that entries belong to. -/
structure Draft where
  root : Node.Entries := []
  header : List String := []

mutual

/-- Refuses inline tables in which a key comes twice. -/
def Literal.toValue? : Literal → Option Value
  | .scalar s => some (.scalar s)
  | .array items => (itemsToValues? items).map .array
  | .inlineTable entries => (entriesToNodes? [] entries).map fun es ↦ .table (Node.toEntries es)

def Literal.itemsToValues? : List Literal → Option (List Value)
  | [] => some []
  | l :: rest => do
    let v ← toValue? l
    let vs ← itemsToValues? rest
    return v :: vs

def Literal.entriesToNodes? (es : Node.Entries) : List (List String × Literal) → Option Node.Entries
  | [] => some es
  | (path, l) :: rest => do
    let v ← toValue? l
    let es ← Node.assign v false true path es
    entriesToNodes? es rest

end

/-- Adds one statement to a document. -/
def Draft.add (d : Draft) : Statement → Option Draft
  | .table path => (Node.follow Node.openTable path d.root).map (⟨·, path⟩)
  | .element path => (Node.follow Node.openElement path d.root).map (⟨·, path⟩)
  | .entry path l => do
    let v ← l.toValue?
    let put := Node.assign v false true path
    let root ← if d.header = [] then put d.root else Node.follow (Node.inTable put) d.header d.root
    return { d with root }

/-- The table of a document. -/
def parse (text : String) : Option Value := do
  let statements ← Statement.ofText? text
  let draft ← statements.foldlM Draft.add {}
  return .table (Node.toEntries draft.root)

end JavaSource.Toml
