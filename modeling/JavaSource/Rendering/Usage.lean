import JavaSource.Model.Basic
import JavaSource.Rendering.Event

/-!
# Names in use

For every short name in a unit: the classes referred to or declared under it, and whether it is an identifier
as well. Names and classes stand in the order of their first use.
-/

namespace JavaSource

structure Usage where
  refs : List ClassId := []
  asIdentifier : Bool := false
  deriving DecidableEq

abbrev UsageTable := Table Usage

namespace UsageTable

def usage (t : UsageTable) (name : String) : Usage := (t.get? name).getD {}

def addIdentifier (t : UsageTable) (name : String) : UsageTable :=
  t.insert name { t.usage name with asIdentifier := true }

def addClass (t : UsageTable) (name : String) (c : ClassId) : UsageTable :=
  let u := t.usage name
  t.insert name { u with refs := addOnce u.refs c }

/-- Records one event. -/
def record (m : Model) (t : UsageTable) : Event → UsageTable
  | .identifier name => t.addIdentifier name
  | .reference c | .declared c => t.addClass (m.entry c).name c
  | .text _ | .newline | .indent | .outdent => t

def ofEvents (m : Model) (events : List Event) : UsageTable := events.foldl (record m) {}

end UsageTable

/-- The names of the placeholders that events refer to, each once. -/
def placeholderNames (m : Model) (events : List Event) : List String :=
  events.foldl (fun names e ↦
    match e with
    | .reference c =>
      let entry := m.entry c
      if entry.isPlaceholder then addOnce names entry.name else names
    | _ => names) []

end JavaSource
