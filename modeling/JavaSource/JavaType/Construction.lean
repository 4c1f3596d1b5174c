import JavaSource.Error

/-!
# Constructing types

Array types and instantiations, with the checks that keep their parts legal.
-/

namespace JavaSource.JavaType

/-- Why a type is refused as the component of an array. -/
def componentFault? : JavaType → Option ConstructionFault
  | narrowed _ _ => some .narrowedComponent
  | wildcard | wildcardExtends _ | wildcardSuper _ => some .wildcardComponent
  | anonymous _ => some .anonymousComponent
  | primitive .void => some .voidComponent
  | _ => none

def arrayOf (component : JavaType) : Except ModelError JavaType :=
  match componentFault? component with
  | some fault => .error (.construction fault)
  | none => .ok (.array component)

/-- The array of the raw form of a type. -/
def erasedArrayOf (component : JavaType) : Except ModelError JavaType := arrayOf component.raw

/-- Adds type arguments to a class type, after the arguments it already has. -/
def narrow (t : JavaType) (args : List JavaType) : Except ModelError JavaType :=
  match args.find? isPrimitive with
  | some arg => .error (.construction (.primitiveArgument arg))
  | none =>
    match t with
    | reference c => .ok (.narrowed c args)
    | narrowed c old => .ok (.narrowed c (old ++ args))
    | t => .error (.construction (.notNarrowable t))

theorem arrayOf_eq_ok_iff {t s : JavaType} :
    arrayOf t = .ok s ↔ componentFault? t = none ∧ s = .array t := by
  cases h : componentFault? t <;> simp [arrayOf, h, eq_comm]

theorem raw_of_narrow {t s : JavaType} {args : List JavaType} (h : t.narrow args = .ok s) :
    s.raw = t.raw := by
  unfold narrow at h
  split at h
  · cases h
  · split at h <;> cases h <;> rfl

end JavaSource.JavaType
