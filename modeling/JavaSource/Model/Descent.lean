import JavaSource.JavaType.Basic

/-!
# Walks from class to class

The name of a class is made from the name of the class around it, the text of a body from the bodies inside
it. A walk that ends never comes back to a class while it is still at it, so the number of classes bounds how
deep it goes, and classes it does not meet have no say in it.
-/

namespace JavaSource

/-- The value that `step` makes for a class out of the values of other classes, at most so deep. `path` holds
the classes the walk is at; when it comes back to one of them, it takes `again` and goes no further. -/
def descend {α : Type} (again : ClassId → α) (step : (ClassId → α) → ClassId → α) :
    Nat → List ClassId → ClassId → α
  | 0, _, c => again c
  | n + 1, path, c => if c ∈ path then again c else step (descend again step n (c :: path)) c

end JavaSource
