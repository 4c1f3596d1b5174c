import JavaSource.Identifier
import JavaSource.Rendering.Event
import JavaSource.Text.Blank

/-!
# Spacing

Whether a space goes between two texts on a line, by the last character of the one and the first character of
the other.
-/

namespace JavaSource

open Event (closeMark)

/-- Whether what follows closed type arguments stands right behind them. -/
def hugsCloseMark (next : Char) : Bool :=
  next ∈ ['(', ')', ',', ';', '.', '[', ']', closeMark]

def needsSpace (prev next : Char) : Bool :=
  if Text.isBlank prev || Text.isBlank next then false
  else if prev = closeMark then !hugsCloseMark next
  else if next = closeMark then false
  else if (prev = '-' && next = '-') || (prev = '+' && next = '+') then true
  else if prev ∈ [',', '=', ';'] || next = '=' then true
  else if prev ∈ [')', ']'] && next = '\x7b' then true
  else if isIdentifierPart prev then
    isIdentifierPart next || next ∈ ['\x7b', '@', '"', '\'']
  else isIdentifierPart next && prev ∈ [')', ']', '\x7d', '?', '"', '\'']

end JavaSource
