import JavaSource.Rendering.Source
import JavaSource.Text.Split

/-!
# Source files

A unit lies in a directory for each part of its package, in a file of the name of its class.
-/

namespace JavaSource

structure SourceFile where
  path : String
  content : String
  deriving DecidableEq

/-- A path below another. A path from the root stands alone. -/
def joinPath (base part : String) : String :=
  if part.toList.head? = some '/' then part
  else if base = "" || base.toList.getLast? = some '/' then base ++ part
  else base ++ "/" ++ part

def unitPath (package className : String) : String :=
  let directories := (Text.splitString '.' package).filter (· ≠ "")
  joinPath (directories.foldl joinPath "") (className ++ ".java")

def Model.renderFile (m : Model) (layout : Layout) (c : ClassId) : Except ModelError SourceFile := do
  let content ← m.render layout c
  let e := m.entry c
  return ⟨unitPath (m.packageEntry e.package).name e.name, content⟩

end JavaSource
