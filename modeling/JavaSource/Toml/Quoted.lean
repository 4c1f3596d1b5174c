import JavaSource.Toml.Scalar

/-!
# Quoted strings

Basic strings know escapes and literal strings do not. Either may run over several lines between three
quotes, two more quotes may stand before the closing ones, and a line end right behind the opening ones does
not count. A backslash at the end of a line swallows white space up to the next character.
-/

namespace JavaSource.Toml

def isWhite (c : Char) : Bool := c = ' ' || c = '\t'

/-- Characters that neither strings nor comments hold. -/
def isControl (c : Char) : Bool := (c.toNat < 0x20 && c ≠ '\t') || c.toNat = 0x7f

/-- What follows a line end. -/
def newline? : List Char → Option (List Char)
  | '\n' :: r => some r
  | '\r' :: '\n' :: r => some r
  | _ => none

def codePoint? (hex : List Char) : Option Char :=
  match number? 16 hex with
  | some n => if n < 0xd800 ∨ (0xdfff < n ∧ n ≤ 0x10ffff) then some (Char.ofNat n) else none
  | none => none

/-- The character of an escape, and what follows it. -/
def escape? : List Char → Option (Char × List Char)
  | 'b' :: r => some ('\x08', r)
  | 't' :: r => some ('\t', r)
  | 'n' :: r => some ('\n', r)
  | 'f' :: r => some ('\x0c', r)
  | 'r' :: r => some ('\r', r)
  | 'e' :: r => some ('\x1b', r)
  | '"' :: r => some ('"', r)
  | '\\' :: r => some ('\\', r)
  | 'x' :: r => if r.length < 2 then none else (codePoint? (r.take 2)).map (·, r.drop 2)
  | 'u' :: r => if r.length < 4 then none else (codePoint? (r.take 4)).map (·, r.drop 4)
  | 'U' :: r => if r.length < 8 then none else (codePoint? (r.take 8)).map (·, r.drop 8)
  | _ => none

/-- The rest of a basic string on one line, and what follows it. -/
def basic? : Nat → List Char → Option (List Char × List Char)
  | 0, _ => none
  | n + 1, cs =>
    match cs with
    | [] => none
    | '"' :: r => some ([], r)
    | '\\' :: r => do
      let (c, r) ← escape? r
      let (s, r) ← basic? n r
      return (c :: s, r)
    | c :: r =>
      if isControl c then none
      else do
        let (s, r) ← basic? n r
        return (c :: s, r)

/-- The rest of a literal string on one line, and what follows it. -/
def literal? (cs : List Char) : Option (List Char × List Char) :=
  let s := cs.takeWhile fun c ↦ c ≠ '\'' && !isControl c
  match cs.drop s.length with
  | '\'' :: r => some (s, r)
  | _ => none

/-- The quotes that belong to a string at its end, and what follows it. -/
def closing? (q : Char) (cs : List Char) : Option (List Char × List Char) :=
  let run := (cs.takeWhile (· = q)).length
  if run < 3 then none else some (List.replicate (min run 5 - 3) q, cs.drop (min run 5))

/-- What follows white space and line ends. -/
def skipLines : List Char → List Char
  | '\r' :: '\n' :: r => skipLines r
  | c :: r => if isWhite c || c = '\n' then skipLines r else c :: r
  | [] => []

/-- What follows a backslash at the end of a line. -/
def continuation? (cs : List Char) : Option (List Char) :=
  (newline? (cs.dropWhile isWhite)).map skipLines

/-- The rest of a string over several lines, and what follows it. -/
def lines? (q : Char) : Nat → List Char → Option (List Char × List Char)
  | 0, _ => none
  | n + 1, cs =>
    match closing? q cs with
    | some done => some done
    | none =>
      match cs with
      | [] => none
      | '\r' :: '\n' :: r => do
        let (s, r) ← lines? q n r
        return ('\r' :: '\n' :: s, r)
      | c :: r =>
        if c = '\\' ∧ q = '"' then
          match continuation? r with
          | some r => lines? q n r
          | none => do
            let (d, r) ← escape? r
            let (s, r) ← lines? q n r
            return (d :: s, r)
        else if isControl c ∧ c ≠ '\n' then none
        else do
          let (s, r) ← lines? q n r
          return (c :: s, r)

def dropFirstNewline (cs : List Char) : List Char := (newline? cs).getD cs

/-- A string on one line. -/
def shortString? (fuel : Nat) : List Char → Option (String × List Char)
  | '"' :: r => (basic? fuel r).map fun p ↦ (String.ofList p.1, p.2)
  | '\'' :: r => (literal? r).map fun p ↦ (String.ofList p.1, p.2)
  | _ => none

/-- A string of any of the four sorts. -/
def string? (fuel : Nat) (cs : List Char) : Option (String × List Char) :=
  match cs with
  | '"' :: '"' :: '"' :: r =>
    (lines? '"' fuel (dropFirstNewline r)).map fun p ↦ (String.ofList p.1, p.2)
  | '\'' :: '\'' :: '\'' :: r =>
    (lines? '\'' fuel (dropFirstNewline r)).map fun p ↦ (String.ofList p.1, p.2)
  | cs => shortString? fuel cs

end JavaSource.Toml
