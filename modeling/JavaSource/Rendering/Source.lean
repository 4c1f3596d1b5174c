import JavaSource.Rendering.ClassEvents
import JavaSource.Rendering.Line
import JavaSource.Rendering.Resolution

/-!
# Source text of a unit

A top-level class is walked once. The names in use resolve to short names and imports, and with these the
same events are set into lines.
-/

namespace JavaSource

/-- The tokens of an event once short names are settled. -/
def Event.tokens (m : Model) (r : Resolution) : Event → List Token
  | .text s => [.text s]
  | .newline => [.newline]
  | .indent => [.indent]
  | .outdent => [.outdent]
  | .identifier name => [.text name]
  | .reference c => (r.spell m c).map .text
  | .declared c => [.text (m.entry c).name]

namespace Model

def usages (m : Model) (c : ClassId) : UsageTable := .ofEvents m (m.declarationEvents c)

/-- The names that a class uses when it is written, resolved. -/
def resolve (m : Model) (c : ClassId) : Resolution := (Scene.mk m c (m.usages c)).resolve

/-- The package line of a unit and its imports. -/
def preamble (m : Model) (r : Resolution) : List Token :=
  let package := m.packageEntry (m.entry r.target).package
  (if package.isUnnamed then []
    else [.text "package ", .text package.name, .text ";", .newline, .newline]) ++
    r.imports.flatMap (fun name ↦ [.text "import ", .text name, .text ";", .newline]) ++
    if r.imports = [] then [] else [.newline]

/-- Events of any kind, resolved as a part of a class and set into text. -/
def eventText (m : Model) (layout : Layout) (r : Resolution) (events : List Event) : String :=
  (Page.ofTokens (events.flatMap (·.tokens m r))).text layout

def unitPage (m : Model) (c : ClassId) : Page :=
  let events := m.declarationEvents c
  let r := (Scene.mk m c (.ofEvents m events)).resolve
  Page.ofTokens (m.preamble r ++ events.flatMap (·.tokens m r))

/-- Why a class is no unit of its own. -/
def unitFault? (m : Model) (c : ClassId) : Option StateFault :=
  let e := m.entry c
  if !e.isDefined then some (.notDefined (m.fullName c))
  else if e.outer.isSome then some (.isNested (m.fullName c))
  else none

/-- The source text of a top-level class of the model. -/
def render (m : Model) (layout : Layout) (c : ClassId) : Except ModelError String :=
  match m.unitFault? c with
  | some fault => .error (.state fault)
  | none => .ok ((m.unitPage c).text layout)

/-- The placeholders that a class refers to. -/
def unresolvedTypes (m : Model) (c : ClassId) : List String :=
  placeholderNames m (m.declarationEvents c)

/-- Fails at the first placeholder that a class refers to. -/
def checkResolved (m : Model) (c : ClassId) : Except ModelError Unit :=
  match m.unresolvedTypes c with
  | [] => .ok ()
  | name :: _ => .error (.unresolvedType name)

end Model
end JavaSource
