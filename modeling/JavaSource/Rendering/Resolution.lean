import JavaSource.Model.Names
import JavaSource.Rendering.Usage

/-!
# Resolution of short names

Which classes a unit names by their short names, and the imports that this takes. A short name is ambiguous
when several classes share it, when it is an identifier too, or when it is that of a class of the built-in
package and a class of the unit's package hides it.

A class that cannot go by its short name is named through the nearest enclosing class that can.
-/

namespace JavaSource

structure Resolution where
  target : ClassId
  /-- The classes that go by their short names. -/
  visible : List ClassId
  /-- Full names, ascending. -/
  imports : List String

/-- What resolution works from: the model, the class to be written and the names in use. -/
structure Scene where
  model : Model
  target : ClassId
  usages : UsageTable

/-- Whether a text occurs in another. -/
def occursIn (part : List Char) : List Char → Bool
  | [] => part.isEmpty
  | c :: cs => part.isPrefixOf (c :: cs) || occursIn part cs

namespace Scene

def nameOf (s : Scene) (c : ClassId) : String := (s.model.entry c).name

def targetPackage (s : Scene) : PackageId := (s.model.entry s.target).package

/-- Whether a class of the built-in package shares its name with a class defined in the target's package. -/
def shadowsBuiltin (s : Scene) (c : ClassId) : Bool :=
  (s.model.entry c).package = Model.builtinPackage &&
    (s.model.topLevelClasses s.targetPackage).any fun d ↦ s.nameOf d = s.nameOf c

def isAmbiguous (s : Scene) (u : Usage) : Bool :=
  match u.refs with
  | [] => false
  | [c] => u.asIdentifier || s.shadowsBuiltin c
  | _ => true

/-- Whether each name along a chain of enclosing classes contains the next. -/
def embedsOuterNames (s : Scene) : List ClassId → Bool
  | c :: o :: rest =>
    occursIn (s.nameOf o).toList (s.nameOf c).toList && s.embedsOuterNames (o :: rest)
  | _ => true

/-- Whether the short name of a class says where the class comes from: always for a top-level class, and for
a nested one when it contains the name of the class around it, which says so too. -/
def shouldBeImported (s : Scene) (c : ClassId) : Bool :=
  s.embedsOuterNames (c :: s.model.outers c)

/-- Whether a class already goes by the same short name, or the target has a member class of that name. -/
def nameTaken (s : Scene) (visible : List ClassId) (c : ClassId) : Bool :=
  (s.target :: (s.model.entry s.target).nested.values ++ visible).any fun d ↦
    d ≠ c && s.nameOf d = s.nameOf c

def causesNoAmbiguity (s : Scene) (visible : List ClassId) (c : ClassId) : Bool :=
  let free :=
    match s.usages.get? (s.nameOf c) with
    | some u => !s.isAmbiguous u && u.refs.contains c
    | none => !s.shadowsBuiltin c
  free && !s.nameTaken visible c

/-- The nearest enclosing class that can go by its short name. -/
def nearestOuter? (s : Scene) (visible : List ClassId) (c : ClassId) : Option ClassId :=
  (s.model.outers c).find? fun o ↦ s.causesNoAmbiguity visible o && s.shouldBeImported o

def showOuter (s : Scene) (visible : List ClassId) (c : ClassId) : List ClassId :=
  match s.nearestOuter? visible c with
  | some o => addOnce visible o
  | none => visible

/-- Settles one short name. -/
def settle (s : Scene) (visible : List ClassId) (u : Usage) : List ClassId :=
  match u.refs with
  | [c] =>
    if s.isAmbiguous u then s.showOuter visible c
    else if s.shouldBeImported c then addOnce visible c
    else s.showOuter visible c
  | refs => refs.foldl s.showOuter visible

def visible (s : Scene) : List ClassId :=
  addOnce (s.usages.values.foldl s.settle []) s.target

/-- Whether a visible class needs no import. -/
def isImplicit (s : Scene) (c : ClassId) : Bool :=
  if s.model.outermost c = s.target then true
  else
    let e := s.model.entry c
    e.outer.isNone &&
      (e.package = Model.rootPackage || e.package = Model.builtinPackage ||
        e.package = s.targetPackage)

/-- Drops all but the first of equal neighbours. -/
def dropRepeats : List String → List String
  | a :: b :: rest => if a = b then dropRepeats (b :: rest) else a :: dropRepeats (b :: rest)
  | l => l

def importNames (s : Scene) (visible : List ClassId) : List String :=
  dropRepeats <|
    ((visible.filter fun c ↦ !s.isImplicit c).map s.model.fullName).mergeSort fun a b ↦ !decide (b < a)

def resolve (s : Scene) : Resolution :=
  let visible := s.visible
  ⟨s.target, visible, s.importNames visible⟩

end Scene

/-- The texts that spell a class, given the chain from the class outward. -/
def Resolution.spellChain (r : Resolution) (m : Model) : List ClassId → List String
  | [] => []
  | c :: rest =>
    let e := m.entry c
    if r.visible.contains c || e.isPlaceholder then [e.name]
    else
      match rest with
      | [] => [m.fullName c]
      | o :: rest => r.spellChain m (o :: rest) ++ [".", e.name]

def Resolution.spell (r : Resolution) (m : Model) (c : ClassId) : List String :=
  r.spellChain m (c :: m.outers c)

end JavaSource
