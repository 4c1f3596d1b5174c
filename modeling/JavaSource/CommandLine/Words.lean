import JavaSource.Table
import JavaSource.Text.Split

/-!
# Words of a command line

A word that starts with a hyphen names options: two hyphens name one by its long name, one hyphen names any
number by letters. The value of an option is attached to it or is the next word, and then starts with no
hyphen. No option comes twice. Behind two hyphens alone all words are plain.
-/

namespace JavaSource.CommandLine

inductive Word where
  | separator
  | long (name : String) (value : Option String)
  | letters (cs : List Char)
  | plain (s : String)
  deriving DecidableEq

def Word.ofString (s : String) : Word :=
  match s.toList with
  | ['-', '-'] => .separator
  | '-' :: '-' :: cs =>
    let name := cs.takeWhile (· ≠ '=')
    .long (String.ofList name)
      (match cs.drop name.length with
        | '=' :: v => some (String.ofList v)
        | _ => none)
  | '-' :: c :: cs => .letters (c :: cs)
  | _ => .plain s

structure OptionSpec where
  name : String
  letter : Option Char := none
  hasValue : Bool := false

/-- What the words of a command say: the options with their values, and the plain words. -/
structure Words where
  options : Table String := {}
  plain : List String := []

namespace Words

def add (w : Words) (name value : String) : Option Words :=
  if w.options.contains name then none else some { w with options := w.options.insert name value }

def has (w : Words) (name : String) : Bool := w.options.contains name

/-- Reads letters. The answer has the name of an option that still needs its value. -/
def addLetters (specs : List OptionSpec) (w : Words) : List Char → Option (Words × Option String)
  | [] => some (w, none)
  | c :: cs =>
    match specs.find? fun o ↦ o.letter = some c with
    | none => none
    | some o =>
      if o.hasValue then
        match cs with
        | [] => some (w, some o.name)
        | '=' :: v => (w.add o.name (String.ofList v)).map (·, none)
        | v => (w.add o.name (String.ofList v)).map (·, none)
      else
        match w.add o.name "" with
        | some w => addLetters specs w cs
        | none => none

/-- Reads a long name, with the same answer. -/
def addLong (specs : List OptionSpec) (w : Words) (name : String) (value : Option String) :
    Option (Words × Option String) :=
  match specs.find? fun o ↦ o.name = name with
  | none => none
  | some o =>
    match o.hasValue, value with
    | true, none => some (w, some name)
    | true, some v => (w.add name v).map (·, none)
    | false, none => (w.add name "").map (·, none)
    | false, some _ => none

/-- Reads all words, the first of them perhaps the value of an option. -/
def read (specs : List OptionSpec) (w : Words) (pending : Option String) : List String → Option Words
  | [] => if pending.isNone then some w else none
  | s :: rest =>
    match pending, Word.ofString s with
    | some name, .plain v =>
      match w.add name v with
      | some w => read specs w none rest
      | none => none
    | some _, _ => none
    | none, .plain s => read specs { w with plain := w.plain ++ [s] } none rest
    | none, .separator => some { w with plain := w.plain ++ rest }
    | none, .letters cs =>
      match addLetters specs w cs with
      | some (w, pending) => read specs w pending rest
      | none => none
    | none, .long name value =>
      match addLong specs w name value with
      | some (w, pending) => read specs w pending rest
      | none => none

end Words
end JavaSource.CommandLine
