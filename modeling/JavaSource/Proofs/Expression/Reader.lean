import JavaSource.Proofs.Expression.Plain

/-!
# A reader of plain expressions

Literals and names are told apart by their words, and what is written in brackets by what stands behind the opening
bracket. A minus sign there may belong to the operand or to a number, which shows only behind the operand. Fuel bounds
how deep expressions are nested.
-/

namespace JavaSource

def UnaryOp.ofSign? : Char → Option UnaryOp
  | '-' => some .neg
  | '!' => some .not
  | '~' => some .complement
  | _ => none

namespace Expr

/-- Finds something at the front of a text, and what is left behind it. -/
abbrev Reader (α : Type) := List Char → Option (α × List Char)

/-- What stands behind a character. -/
def behind (c : Char) : List Char → Option (List Char)
  | [] => none
  | d :: rest => if d = c then some rest else none

/-- What stands behind a space, if there is one. -/
def skipSpace (cs : List Char) : List Char := (behind ' ' cs).getD cs

/-! ## Words and literals -/

def isWordPart (c : Char) : Bool := isIdentifierPart c || c = '-'

def ofName? (n : String) : Option Expr :=
  if n = "null" then some .null
  else if n = "this" then some .this
  else if n = "true" then some (.bool true)
  else if n = "false" then some (.bool false)
  else if nameFault? n = none then some (.name n)
  else none

/-- The number that digits are of. -/
def readNat (ds : List Char) : Option Nat :=
  if ds ≠ [] ∧ ds.all Char.isDigit then some (Nat.ofDigitChars 10 ds 0) else none

def readInt (w : List Char) : Option Int :=
  if w.head? = some '-' then (readNat w.tail).map fun n : Nat ↦ -(n : Int) else (readNat w).map Int.ofNat

def ofNumber? (w : List Char) : Option Expr :=
  if w.getLast? = some 'L' then (readInt w.dropLast).map fun n ↦ .long (.ofInt n)
  else (readInt w).map fun n ↦ .int (.ofInt n)

def ofWord? (w : List Char) : Option Expr :=
  if w.head?.any isIdentifierStart then ofName? (String.ofList w) else ofNumber? w

/-- The text up to the first quote that an even number of backslashes stands in front of. -/
def untilQuote : Nat → Reader (List Char)
  | _, [] => none
  | n, c :: cs =>
    if c = '"' ∧ n % 2 = 0 then some ([], cs)
    else (untilQuote (Text.backslashesAfter n [c]) cs).map fun (body, rest) ↦ (c :: body, rest)

/-- A string literal behind its first quote. -/
def readString : Reader Expr := fun cs ↦ do
  let (body, rest) ← untilQuote 0 cs
  let units ← Text.readBody '"' body
  let text ← Text.ofUnits16 units
  return (.string (String.ofList text), rest)

/-- The text between two spaces. -/
def readSymbol : Reader (List Char) := fun cs ↦ do
  let rest ← behind ' ' cs
  let (symbol, rest) := rest.span (· ≠ ' ')
  let rest ← behind ' ' rest
  return (symbol, rest)

/-! ## Operands -/

section

variable (read : Reader Expr)

/-- Arguments with commas between them, up to the closing bracket. -/
def readMore : Nat → Reader (List Expr)
  | 0, _ => none
  | n + 1, cs => do
    let (e, rest) ← read cs
    match rest with
    | ')' :: rest => return ([e], rest)
    | ',' :: ' ' :: rest =>
      let (es, rest) ← readMore n rest
      return (e :: es, rest)
    | _ => none

def readArgs : Reader (List Expr) := fun cs ↦
  match behind ')' cs with
  | some rest => some ([], rest)
  | none => readMore read cs.length cs

/-- A sign and its operand, behind the opening bracket. -/
def readUnary : Reader Expr := fun cs ↦ do
  let op ← cs.head?.bind UnaryOp.ofSign?
  let (x, rest) ← read (skipSpace cs.tail)
  let rest ← behind ')' rest
  return (.unary op x, rest)

/-- An operand and what belongs to it up to the closing bracket, behind the opening one. -/
def readInfix : Reader Expr := fun cs ↦ do
  let (x, rest) ← read cs
  let (symbol, rest) ← readSymbol rest
  let (y, rest) ← read rest
  match BinaryOp.ofSymbol? (String.ofList symbol) with
  | some op =>
    let rest ← behind ')' rest
    return (.binary op x y, rest)
  | none =>
    let (symbol', rest) ← readSymbol rest
    unless symbol = ['?'] ∧ symbol' = [':'] do failure
    let (z, rest) ← read rest
    let rest ← behind ')' rest
    return (.conditional x y z, rest)

/-- A primitive type in brackets of its own and the operand, behind the first opening bracket. -/
def readCast : Reader Expr := fun cs ↦ do
  let rest ← behind '(' cs
  let (keyword, rest) := rest.span isIdentifierPart
  let p ← Primitive.ofKeyword? (String.ofList keyword)
  let rest ← behind ')' rest
  let (x, rest) ← read (skipSpace rest)
  let rest ← behind ')' rest
  return (.cast (.primitive p) x, rest)

def readBracket : Reader Expr := fun cs ↦ readUnary read cs <|> readInfix read cs <|> readCast read cs

/-- An expression up to the first field access or call that it is the receiver of. -/
def readHead : Reader Expr
  | [] => none
  | c :: cs =>
    if c = '(' then readBracket read cs
    else if c = '"' then readString cs
    else
      let (word, rest) := (c :: cs).span isWordPart
      match behind '(' rest with
      | none => (ofWord? word).map (·, rest)
      | some rest => do
        unless nameFault? (String.ofList word) = none do failure
        let (args, rest) ← readArgs read rest
        return (.invoke (String.ofList word) [] args, rest)

/-- Field accesses and calls with a receiver. -/
def readSuffixes : Nat → Expr → Reader Expr
  | 0, _, _ => none
  | n + 1, e, cs =>
    match behind '.' cs with
    | none => some (e, cs)
    | some rest =>
      let (word, rest) := rest.span isIdentifierPart
      match behind '(' rest with
      | none => readSuffixes n (.field e (String.ofList word)) rest
      | some rest => do
        let (args, rest) ← readArgs read rest
        readSuffixes n (.call e (String.ofList word) [] args) rest

end

/-- Reads an expression with so much fuel. -/
def readExpr : Nat → Reader Expr
  | 0, _ => none
  | n + 1, cs => do
    let (e, rest) ← readHead (readExpr n) cs
    readSuffixes (readExpr n) (rest.length + 1) e rest

/-- The expression that a text is of. -/
def ofText? (s : String) : Option Expr :=
  match readExpr s.length s.toList with
  | some (e, []) => some e
  | _ => none

end Expr
end JavaSource
