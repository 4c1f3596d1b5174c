import JavaSource.CommandLine.Words
import JavaSource.Layout

/-!
# Commands

What a command line asks for: source files of a declaration file, a check of one, or the version.
-/

namespace JavaSource.CommandLine

structure RenderOptions where
  /-- The directory that the files go below. -/
  output : String := "."
  isDryRun : Bool := false
  indent : Option Indent := none
  forcesCrlf : Bool := false
  keepsUnresolved : Bool := false
  deriving DecidableEq

inductive Command where
  | render (file : String) (options : RenderOptions)
  | check (file : String)
  | version
  deriving DecidableEq

/-- A width of indentation: digits, perhaps behind a plus. -/
def width? (s : String) : Option Nat :=
  let digits :=
    match s.toList with
    | '+' :: cs => cs
    | cs => cs
  if digits = [] ∨ !digits.all Char.isDigit then none
  else
    let n := digits.foldl (fun n c ↦ 10 * n + (c.toNat - 48)) 0
    if 1 ≤ n ∧ n ≤ 255 then some n else none

def indent? (s : String) : Option Indent := if s = "tab" then some .tab else (width? s).map .spaces

namespace Command

def verbose : OptionSpec := { name := "verbose", letter := some 'v' }

def renderSpecs : List OptionSpec :=
  [{ name := "output", letter := some 'o', hasValue := true },
   { name := "dry-run" },
   { name := "indent", hasValue := true },
   { name := "crlf" },
   { name := "allow-errors" },
   verbose]

/-- The only plain word, which may not be empty. -/
def file? (w : Words) : Option String :=
  match w.plain with
  | [file] => if file = "" then none else some file
  | _ => none

def renderOfWords? (words : List String) : Option Command := do
  let w ← Words.read renderSpecs {} none words
  let file ← file? w
  let output := (w.options.get? "output").getD "."
  let indent ← match w.options.get? "indent" with
    | none => some none
    | some s => (indent? s).map some
  if output = "" then none
  else
    return .render file {
      output
      indent
      isDryRun := w.has "dry-run"
      forcesCrlf := w.has "crlf"
      keepsUnresolved := w.has "allow-errors" }

def checkOfWords? (words : List String) : Option Command := do
  let w ← Words.read [verbose] {} none words
  return .check (← file? w)

/-- Reads letters in front of the command: whether the words are verbose, and whether the version is asked
for. -/
def leadingLetters (isVerbose : Bool) : List Char → Option (Bool × Bool)
  | [] => some (isVerbose, false)
  | c :: cs =>
    if c = 'V' then some (isVerbose, true)
    else if c = 'v' ∧ !isVerbose then leadingLetters true cs
    else none

/-- Reads a command line. The version is told as soon as it is asked for. -/
def ofWordsAfter? (isVerbose : Bool) : List String → Option Command
  | [] => none
  | s :: rest =>
    match Word.ofString s with
    | .separator => none
    | .long _ (some _) => none
    | .long name none =>
      if name = "version" then some .version
      else if name = "verbose" ∧ !isVerbose then ofWordsAfter? true rest
      else none
    | .letters cs =>
      match leadingLetters isVerbose cs with
      | some (_, true) => some .version
      | some (isVerbose, false) => ofWordsAfter? isVerbose rest
      | none => none
    | .plain name =>
      if name = "render" then renderOfWords? rest
      else if name = "check" then checkOfWords? rest
      else none

def ofWords? (words : List String) : Option Command := ofWordsAfter? false words

end Command
end JavaSource.CommandLine
