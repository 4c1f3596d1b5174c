import JavaSource.Model.Basic

/-!
# Types in a model
-/

namespace JavaSource.Model

/-- The raw form of a type. Variables and wildcards erase to their upper bound, anonymous classes to their
base. -/
def erasure (m : Model) : JavaType → JavaType
  | .primitive p => .primitive p
  | .reference c => .reference c
  | .narrowed c _ => .reference c
  | .array t => .array (m.erasure t)
  | .var _ none => .reference object
  | .var _ (some bound) => m.erasure bound
  | .wildcardExtends bound => m.erasure bound
  | .wildcard | .wildcardSuper _ => .reference object
  | .anonymous c =>
    match (m.entry c).superclass with
    | some base => .reference base.basis
    | none => .reference object

/-- The class around the class of a type. -/
def outerOf (m : Model) (t : JavaType) : Option ClassId :=
  t.classId?.bind fun c ↦ (m.entry c).outer

/-- The package of the class of a type or of its innermost component. -/
def packageOf (m : Model) : JavaType → Option PackageId
  | .reference c | .narrowed c _ | .anonymous c => some (m.entry c).package
  | .array t => m.packageOf t
  | _ => none

end JavaSource.Model
