/-!
# Kinds of declared types
-/

namespace JavaSource

inductive ClassKind where
  | plain
  | interface
  | enum
  | annotationType
  deriving DecidableEq

/-- The keyword that introduces a declaration of the kind. -/
def ClassKind.keyword : ClassKind → String
  | .plain => "class"
  | .interface => "interface"
  | .enum => "enum"
  | .annotationType => "@interface"

def ClassKind.isInterface : ClassKind → Bool
  | .interface | .annotationType => true
  | .plain | .enum => false

end JavaSource
