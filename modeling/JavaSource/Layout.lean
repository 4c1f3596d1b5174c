/-!
# Layout of rendered text

The unit of indentation and the text that ends a line. Neither has a say in what a line holds.
-/

namespace JavaSource

inductive Indent where
  | spaces (width : Nat)
  | tab
  deriving DecidableEq

/-- The text of one level of indentation. -/
def Indent.unit : Indent → String
  | .spaces width => String.ofList (List.replicate width ' ')
  | .tab => "\t"

inductive LineSeparator where
  | lf
  | crlf
  deriving DecidableEq

def LineSeparator.text : LineSeparator → String
  | .lf => "\n"
  | .crlf => "\r\n"

structure Layout where
  indent : Indent := .spaces 4
  separator : LineSeparator := .lf
  deriving DecidableEq

end JavaSource
