import JavaSource.Layout
import JavaSource.Rendering.Spacing

/-!
# Lines

Texts, line ends and changes of depth are set into lines. A line has a depth and a body; the layout decides
only what a step of depth and a line end look like. An empty line has no depth to show.
-/

namespace JavaSource

inductive Token where
  | text (s : String)
  | newline
  | indent
  | outdent
  deriving DecidableEq

structure Line where
  depth : Nat := 0
  body : String := ""
  deriving DecidableEq

/-- The text of a line without its end. -/
def Line.text (layout : Layout) (l : Line) : String :=
  if l.body = "" then ""
  else String.join (List.replicate l.depth layout.indent.unit) ++ l.body

/-- Lines in the making: those that are ended, in order, and the one that is not. -/
structure Page where
  lines : Array Line := #[]
  current : Line := {}
  /-- The last character on the current line. -/
  last : Option Char := none
  depth : Int := 0

namespace Page

/-- What is written for a text: the mark that closes type arguments becomes a bracket. -/
def unmark (s : String) : String :=
  s.map fun c ↦ if c = Event.closeMark then '>' else c

/-- Adds a text to the current line, with a space in front where one is needed. The first text of a line
settles the depth of the line. -/
def write (p : Page) (s : String) : Page :=
  match s.toList with
  | [] => p
  | first :: rest =>
    let last := (first :: rest).getLast?
    match p.last with
    | none => { p with current := ⟨p.depth.toNat, unmark s⟩, last }
    | some prev =>
      let gap := if needsSpace prev first then " " else ""
      { p with current := { p.current with body := p.current.body ++ gap ++ unmark s }, last }

def step (p : Page) : Token → Page
  | .text s => p.write s
  | .newline => { p with lines := p.lines.push p.current, current := {}, last := none }
  | .indent => { p with depth := p.depth + 1 }
  | .outdent => { p with depth := p.depth - 1 }

def ofTokens (tokens : List Token) : Page := tokens.foldl step {}

/-- The text of all lines, the last one without an end. -/
def text (layout : Layout) (p : Page) : String :=
  String.join (p.lines.toList.map fun l ↦ l.text layout ++ layout.separator.text) ++
    p.current.text layout

end Page
end JavaSource
