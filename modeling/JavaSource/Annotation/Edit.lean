import JavaSource.Annotation.Shape

/-!
# Edits of annotation uses

An edit of a use is checked against the shape of its annotation. A value equal to the declared default is left
out, a value of the wrong kind and an unknown member are refused. Edits of array members and of members that
are annotations contain edits of their own. An edit that is refused changes nothing, and the edits after it
are carried out all the same.
-/

namespace JavaSource

mutual

inductive Edit where
  | set (member : String) (value : AnnotationValue)
  | nested (member : String) (edits : List Edit)
  | array (member : String) (items : List ItemEdit)
  /-- An edit whose value could not be put together. -/
  | reject (error : ModelError)

/-- An edit at the end of an array. -/
inductive ItemEdit where
  | add (value : AnnotationValue)
  | annotate (edits : List Edit)
  | reject (error : ModelError)

end

instance : Inhabited Edit := ⟨.nested "" []⟩

instance : Inhabited ItemEdit := ⟨.annotate []⟩

/-- What came of an edit. -/
inductive EditReport where
  | refused (error : ModelError)
  | written (u : AnnotationUse)
  | opened (size : Nat)
  | added (size : Nat)
  | several (reports : List EditReport)

namespace AnnotationShape

/-- Fails when the use is of another annotation. -/
def checkUse (s : AnnotationShape) (u : AnnotationUse) : Except ModelError Unit :=
  if u.type = s.type then .ok () else .error (.construction (.foreignUse s.name))

/-- Gives a member a value. -/
def set (s : AnnotationShape) (u : AnnotationUse) (member : String) (value : AnnotationValue) :
    Except ModelError AnnotationUse := do
  let (kind, default) ← s.member? member
  if default.any (·.same value) then return u
  if kind.accepts value then return u.set member value
  throw (.typeMismatch member kind.describe value.describe)

/-- The kind of the items of an array member. -/
def arrayElement (s : AnnotationShape) (member : String) : Except ModelError MemberKind := do
  match ← s.member? member with
  | (.array k, _) => return k
  | (k, _) => throw (.typeMismatch member k.describe "array")

/-- The shape of a member that is an annotation. -/
def nestedShape (s : AnnotationShape) (member : String) : Except ModelError AnnotationShape := do
  match ← s.member? member with
  | (.nested c name members, _) => return ⟨c, name, ⟨members⟩⟩
  | (k, _) => throw (.typeMismatch member k.describe "annotation")

end AnnotationShape

namespace MemberKind

/-- Fails when a value cannot be an item of this kind. An array is never an item. -/
def checkItem (k : MemberKind) (member : String) (value : AnnotationValue) :
    Except ModelError Unit :=
  if k.accepts value && !value.isArray then .ok ()
  else .error (.typeMismatch member k.describe value.describe)

/-- The shape of items that are annotations. -/
def itemShape (k : MemberKind) (member : String) : Except ModelError AnnotationShape :=
  match k with
  | .nested c name members => .ok ⟨c, name, ⟨members⟩⟩
  | k => .error (.typeMismatch member k.describe "annotation")

end MemberKind

mutual

/-- Carries out an edit of a use. -/
def Edit.apply (s : AnnotationShape) (u : AnnotationUse) : Edit → AnnotationUse × EditReport
  | .set member value =>
    match s.set u member value with
    | .ok u => (u, .written u)
    | .error e => (u, .refused e)
  | .nested member edits =>
    match s.nestedShape member with
    | .ok inner =>
      let done := Edit.applyAll inner (u.nested member inner.type) edits
      (u.set member (.use done.1), .several done.2)
    | .error e => (u, .refused e)
  | .array member items =>
    match s.arrayElement member with
    | .ok k =>
      let old := u.items member
      let done := ItemEdit.applyAll k member old items
      (u.set member (.array done.1), .several (.opened old.length :: done.2))
    | .error e => (u, .refused e)
  | .reject e => (u, .refused e)

def Edit.applyAll (s : AnnotationShape) (u : AnnotationUse) :
    List Edit → AnnotationUse × List EditReport
  | [] => (u, [])
  | e :: rest =>
    let first := Edit.apply s u e
    let others := Edit.applyAll s first.1 rest
    (others.1, first.2 :: others.2)

def ItemEdit.apply (k : MemberKind) (member : String) (items : List AnnotationValue) :
    ItemEdit → List AnnotationValue × EditReport
  | .add value =>
    match k.checkItem member value with
    | .ok _ => (items ++ [value], .added (items.length + 1))
    | .error e => (items, .refused e)
  | .annotate edits =>
    match k.itemShape member with
    | .ok inner =>
      let done := Edit.applyAll inner ⟨inner.type, {}⟩ edits
      (items ++ [.use done.1], .several done.2)
    | .error e => (items, .refused e)
  | .reject e => (items, .refused e)

def ItemEdit.applyAll (k : MemberKind) (member : String) (items : List AnnotationValue) :
    List ItemEdit → List AnnotationValue × List EditReport
  | [] => (items, [])
  | e :: rest =>
    let first := ItemEdit.apply k member items e
    let others := ItemEdit.applyAll k member first.1 rest
    (others.1, first.2 :: others.2)

end

end JavaSource
