import JavaSource.ClassEntry

/-!
# Events

What a walk over a declaration meets, in the order of the text: source text, line ends, changes of depth,
identifiers, references to classes and the names of declared classes. The names that a unit uses, the
placeholders in it and its text are all read off one list of events.
-/

namespace JavaSource

inductive Event where
  | text (s : String)
  | newline
  | indent
  | outdent
  /-- A variable, parameter, field or method by name. -/
  | identifier (name : String)
  /-- A class where a type stands. How it is spelled is decided later. -/
  | reference (c : ClassId)
  /-- The simple name of a class where the class is declared. -/
  | declared (c : ClassId)
  deriving DecidableEq

namespace Event

/-- Stands for the bracket that closes type arguments, so that spacing can tell it from a comparison. -/
def closeMark : Char := '\uffff'

def closeTypeArgs : Event := .text (String.singleton closeMark)

/-- Parts with commas between them. -/
def commas : List (List Event) → List Event
  | [] => []
  | [part] => part
  | part :: rest => part ++ .text "," :: commas rest

/-- Groups of lines with blank lines between them. -/
def blankLines : List (List Event) → List Event
  | [] => []
  | [group] => group
  | group :: rest => group ++ .newline :: blankLines rest

def parens (inner : List Event) : List Event := .text "(" :: inner ++ [.text ")"]

def typeArgs (parts : List (List Event)) : List Event :=
  .text "<" :: commas parts ++ [closeTypeArgs]

/-- Braces around indented lines. -/
def braces (lines : List Event) : List Event :=
  [.text "\x7b", .newline, .indent] ++ lines ++ [.outdent, .text "\x7d"]

def ofModifiers (mods : Modifiers) : List Event := mods.toList.map fun m ↦ .text m.keyword

def javadocLine (line : String) : List Event :=
  [.text (if line = "" then " *" else " * " ++ line), .newline]

def ofJavadoc (lines : List String) : List Event :=
  if lines = [] then []
  else [.text "/**", .newline] ++ lines.flatMap javadocLine ++ [.text " */", .newline]

end Event
end JavaSource
