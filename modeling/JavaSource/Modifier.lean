/-!
# Modifiers

A set of modifier keywords, printed in one fixed order whatever the order they were added in.
-/

namespace JavaSource

inductive Modifier where
  | pub
  | prot
  | priv
  | abstr
  | dflt
  | static
  | final
  | transient
  | volatile
  | sync
  | native
  | strictfp
  deriving DecidableEq

namespace Modifier

/-- All modifiers in printing order. -/
def all : List Modifier :=
  [pub, prot, priv, abstr, dflt, static, final, transient, volatile, sync, native, strictfp]

theorem mem_all (m : Modifier) : m ∈ all := by
  cases m <;> decide

def keyword : Modifier → String
  | pub => "public"
  | prot => "protected"
  | priv => "private"
  | abstr => "abstract"
  | dflt => "default"
  | static => "static"
  | final => "final"
  | transient => "transient"
  | volatile => "volatile"
  | sync => "synchronized"
  | native => "native"
  | strictfp => "strictfp"

def ofKeyword? (s : String) : Option Modifier := all.find? fun m ↦ m.keyword = s

def position (m : Modifier) : Nat := m.ctorIdx

end Modifier

structure Modifiers where
  mask : BitVec 12
  deriving DecidableEq

namespace Modifiers

def none : Modifiers := ⟨0⟩

def contains (ms : Modifiers) (m : Modifier) : Bool := ms.mask.getLsbD m.position

def isEmpty (ms : Modifiers) : Bool := ms.mask = 0

def single (m : Modifier) : Modifiers := ⟨BitVec.twoPow 12 m.position⟩

def union (a b : Modifiers) : Modifiers := ⟨a.mask ||| b.mask⟩

def insert (ms : Modifiers) (m : Modifier) : Modifiers := ms.union (single m)

def erase (ms : Modifiers) (m : Modifier) : Modifiers := ⟨ms.mask &&& ~~~(single m).mask⟩

def ofList (l : List Modifier) : Modifiers := l.foldl insert none

/-- The modifiers of a set in printing order. -/
def toList (ms : Modifiers) : List Modifier := Modifier.all.filter ms.contains

@[simp] theorem contains_none (m : Modifier) : none.contains m = false := by
  simp [contains, none]

@[simp] theorem contains_single (m n : Modifier) : (single m).contains n = decide (m = n) := by
  cases m <;> cases n <;> decide

@[simp] theorem contains_union (a b : Modifiers) (m : Modifier) :
    (a.union b).contains m = (a.contains m || b.contains m) := by
  simp [contains, union]

@[simp] theorem contains_insert (ms : Modifiers) (m n : Modifier) :
    (ms.insert m).contains n = (ms.contains n || decide (m = n)) := by
  simp [insert]

@[simp] theorem mem_toList {ms : Modifiers} {m : Modifier} :
    m ∈ ms.toList ↔ ms.contains m = true := by
  simp [toList, Modifier.mem_all]

end Modifiers
end JavaSource
