import JavaSource.Declaration.Build
import JavaSource.Rendering.SourceFile

/-!
# Units of declarations

Declarations alone, in a model of their own: the source files of their top-level types, and a survey of the
types with what could not be resolved in them.
-/

namespace JavaSource.Declarations

/-- Builds declarations into a fresh model. -/
def build (policy : UnresolvedPolicy) (d : Declarations) :
    Except DeclarationError (Model × List ClassId) :=
  match d.buildInto policy .initial with
  | (.ok classes, m) => .ok (m, classes)
  | (.error e, _) => .error e

/-- The source files of the top-level types in order. -/
def sourceFiles (policy : UnresolvedPolicy) (layout : Layout) (d : Declarations) :
    Except DeclarationError (List SourceFile) := do
  let (m, classes) ← d.build policy
  match classes.mapM (m.renderFile layout) with
  | .ok files => .ok files
  | .error e => .error (.model e)

/-- A top-level type with the names in it that could not be resolved. -/
structure Surveyed where
  kind : ClassKind
  name : String
  unresolved : List String
  deriving DecidableEq

/-- Looks through the top-level types. Types that could not be resolved are kept, so that all of them are
found. -/
def survey (d : Declarations) : Except DeclarationError (List Surveyed) := do
  let (m, classes) ← d.build .keep
  match classes.mapM (m.render d.settings.layout) with
  | .ok _ =>
    return classes.map fun c ↦ ⟨(m.entry c).kind, m.fullName c, m.unresolvedTypes c⟩
  | .error e => .error (.model e)

end JavaSource.Declarations
