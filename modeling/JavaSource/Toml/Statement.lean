import JavaSource.Toml.Quoted

/-!
# Statements of a document

A document is read line by line: headers of tables, headers of array elements, and keys with values. Dotted
keys are paths. Arrays and inline tables may run over several lines, with comments between their parts and a
comma behind the last item. Nothing is looked up yet: the same key may come twice here.
-/

namespace JavaSource.Toml

inductive Literal where
  | scalar (s : Scalar)
  | array (items : List Literal)
  | inlineTable (entries : List (List String × Literal))
  deriving Inhabited

inductive Statement where
  | table (path : List String)
  | element (path : List String)
  | entry (path : List String) (value : Literal)

/-- Arrays and inline tables nest no deeper than this. -/
def maxNesting : Nat := 80

/-- A dotted key has no more parts than this. -/
def maxKeys : Nat := 80

def skipWhite (cs : List Char) : List Char := cs.dropWhile isWhite

/-- What follows the text of a comment. -/
def comment? (cs : List Char) : Option (List Char) :=
  match cs.dropWhile (!isControl ·) with
  | [] => some []
  | r => (newline? r).map fun _ ↦ r

/-- What follows white space and perhaps a comment. -/
def skipTrailing (cs : List Char) : Option (List Char) :=
  match skipWhite cs with
  | '#' :: r => comment? r
  | r => some r

/-- What follows the end of a line. -/
def lineEnd? (cs : List Char) : Option (List Char) :=
  match skipTrailing cs with
  | some [] => some []
  | some r => newline? r
  | none => none

/-- What follows white space, line ends and comments. -/
def skipBlank : Nat → List Char → Option (List Char)
  | 0, cs => some cs
  | n + 1, cs =>
    match skipTrailing cs with
    | none => none
    | some r =>
      match newline? r with
      | some r => skipBlank n r
      | none => some r

def isBareKey (c : Char) : Bool := c.isAlphanum || c = '_' || c = '-'

def key? (fuel : Nat) (cs : List Char) : Option (String × List Char) :=
  match shortString? fuel cs with
  | some k => some k
  | none =>
    let k := cs.takeWhile isBareKey
    if k = [] then none else some (String.ofList k, cs.drop k.length)

/-- Keys with points between them. -/
def keys? : Nat → List Char → Option (List String × List Char)
  | 0, _ => none
  | n + 1, cs => do
    let (k, r) ← key? n (skipWhite cs)
    match skipWhite r with
    | '.' :: r => do
      let (ks, r) ← keys? n r
      return (k :: ks, r)
    | r => return ([k], r)

/-- A dotted key. -/
def path? (fuel : Nat) (cs : List Char) : Option (List String × List Char) :=
  (keys? fuel cs).bind fun p ↦ if p.1.length ≤ maxKeys then some p else none

/-- The characters of unquoted scalars. -/
def isWordChar (c : Char) : Bool := isBareKey c || c = '+' || c = '.' || c = ':'

/-- A word, and with it the time behind a date and a space. -/
def word (cs : List Char) : List Char :=
  let first := cs.takeWhile isWordChar
  match Date.read? first, cs.drop first.length with
  | some (_, []), ' ' :: r =>
    let second := r.takeWhile isWordChar
    if (TimeOfDay.read? second).isSome then first ++ ' ' :: second else first
  | _, _ => first

mutual

/-- A value inside so many arrays and inline tables. -/
def value? : Nat → Nat → List Char → Option (Literal × List Char)
  | 0, _, _ => none
  | n + 1, depth, cs =>
    match cs with
    | '[' :: r =>
      if maxNesting ≤ depth then none
      else (items? n (depth + 1) r).map fun p ↦ (.array p.1, p.2)
    | '\x7b' :: r =>
      if maxNesting ≤ depth then none
      else (entries? n (depth + 1) r).map fun p ↦ (.inlineTable p.1, p.2)
    | '"' :: _ | '\'' :: _ => (string? n cs).map fun p ↦ (.scalar (.string p.1), p.2)
    | cs => (scalar? (word cs)).map fun s ↦ (.scalar s, cs.drop (word cs).length)

def items? : Nat → Nat → List Char → Option (List Literal × List Char)
  | 0, _, _ => none
  | n + 1, depth, cs =>
    match skipBlank n cs with
    | none => none
    | some (']' :: r) => some ([], r)
    | some cs => do
      let (v, r) ← value? n depth cs
      match ← skipBlank n r with
      | ',' :: r => do
        let (vs, r) ← items? n depth r
        return (v :: vs, r)
      | ']' :: r => return ([v], r)
      | _ => none

def entries? : Nat → Nat → List Char → Option (List (List String × Literal) × List Char)
  | 0, _, _ => none
  | n + 1, depth, cs =>
    match skipBlank n cs with
    | none => none
    | some ('\x7d' :: r) => some ([], r)
    | some cs => do
      let (path, r) ← path? n cs
      match ← skipBlank n r with
      | '=' :: r => do
        let (v, r) ← value? n depth (← skipBlank n r)
        match ← skipBlank n r with
        | ',' :: r => do
          let (rest, r) ← entries? n depth r
          return ((path, v) :: rest, r)
        | '\x7d' :: r => return ([(path, v)], r)
        | _ => none
      | _ => none

end

/-- One statement without its line end. -/
def statement? (fuel : Nat) (cs : List Char) : Option (Statement × List Char) :=
  match cs with
  | '[' :: '[' :: r => do
    let (path, r) ← path? fuel r
    match r with
    | ']' :: ']' :: r => return (.element path, r)
    | _ => none
  | '[' :: r => do
    let (path, r) ← path? fuel r
    match r with
    | ']' :: r => return (.table path, r)
    | _ => none
  | cs => do
    let (path, r) ← path? fuel cs
    match r with
    | '=' :: r => do
      let (v, r) ← value? fuel 0 (skipWhite r)
      return (.entry path v, r)
    | _ => none

/-- The statements of a text, at most so many lines of it. -/
def statements? (fuel : Nat) : Nat → List Char → Option (List Statement)
  | 0, _ => none
  | n + 1, cs =>
    match skipBlank fuel cs with
    | none => none
    | some [] => some []
    | some cs => do
      let (s, r) ← statement? fuel cs
      let r ← lineEnd? r
      let rest ← statements? fuel n r
      return s :: rest

def dropByteOrderMark : List Char → List Char
  | '\ufeff' :: cs => cs
  | cs => cs

/-- Every step of reading takes a character or is followed by one that does. -/
def Statement.ofText? (text : String) : Option (List Statement) :=
  let cs := dropByteOrderMark text.toList
  let fuel := 2 * cs.length + 2
  statements? fuel fuel cs

end JavaSource.Toml
