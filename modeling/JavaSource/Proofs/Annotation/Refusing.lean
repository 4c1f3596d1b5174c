import JavaSource.Annotation.Edit

/-!
# Edits that are refused

An edit that is refused might as well not have been there. Its report tells which edits these are, also inside
the edits of nested annotations and of arrays. Without them the use is the same in the end, and so are the
reports of the edits that remain.
-/

namespace JavaSource

mutual

/-- An edit without what was refused of it, by its report. -/
def Edit.kept : Edit → EditReport → Option Edit
  | _, .refused _ => none
  | .nested member edits, .several reports => some (.nested member (Edit.keptAll edits reports))
  | .array member items, .several (_ :: reports) => some (.array member (ItemEdit.keptAll items reports))
  | e, _ => some e

def Edit.keptAll : List Edit → List EditReport → List Edit
  | e :: rest, r :: reports => (e.kept r).toList ++ Edit.keptAll rest reports
  | rest, _ => rest

def ItemEdit.kept : ItemEdit → EditReport → Option ItemEdit
  | _, .refused _ => none
  | .annotate edits, .several reports => some (.annotate (Edit.keptAll edits reports))
  | e, _ => some e

def ItemEdit.keptAll : List ItemEdit → List EditReport → List ItemEdit
  | e :: rest, r :: reports => (e.kept r).toList ++ ItemEdit.keptAll rest reports
  | rest, _ => rest

end

mutual

/-- A report without the refusals in it. -/
def EditReport.kept : EditReport → Option EditReport
  | .refused _ => none
  | .several reports => some (.several (EditReport.keptAll reports))
  | r => some r

def EditReport.keptAll : List EditReport → List EditReport
  | [] => []
  | r :: rest => r.kept.toList ++ EditReport.keptAll rest

end

/-! ## One edit after the other -/

theorem Edit.applyAll_append (s : AnnotationShape) (u : AnnotationUse) (edits more : List Edit) :
    Edit.applyAll s u (edits ++ more) =
      ((Edit.applyAll s (Edit.applyAll s u edits).1 more).1,
        (Edit.applyAll s u edits).2 ++ (Edit.applyAll s (Edit.applyAll s u edits).1 more).2) := by
  induction edits generalizing u with
  | nil => rfl
  | cons e edits ih =>
      rw [List.cons_append, Edit.applyAll, ih, Edit.applyAll]
      rfl

theorem ItemEdit.applyAll_append (k : MemberKind) (member : String) (items : List AnnotationValue)
    (edits more : List ItemEdit) :
    ItemEdit.applyAll k member items (edits ++ more) =
      ((ItemEdit.applyAll k member (ItemEdit.applyAll k member items edits).1 more).1,
        (ItemEdit.applyAll k member items edits).2 ++
          (ItemEdit.applyAll k member (ItemEdit.applyAll k member items edits).1 more).2) := by
  induction edits generalizing items with
  | nil => rfl
  | cons e edits ih =>
      rw [List.cons_append, ItemEdit.applyAll, ih, ItemEdit.applyAll]
      rfl

theorem Edit.eq_of_refused {s : AnnotationShape} {u : AnnotationUse} {e : Edit} {error : ModelError}
    (h : (Edit.apply s u e).2 = .refused error) : (Edit.apply s u e).1 = u := by
  cases e with
  | set member value =>
      rw [Edit.apply] at h ⊢
      cases hset : s.set u member value with
      | ok w => simp [hset] at h
      | error fault => rfl
  | nested member edits =>
      rw [Edit.apply] at h ⊢
      cases hshape : s.nestedShape member with
      | ok inner => simp [hshape] at h
      | error fault => rfl
  | array member items =>
      rw [Edit.apply] at h ⊢
      cases hkind : s.arrayElement member with
      | ok k => simp [hkind] at h
      | error fault => rfl
  | reject fault => rfl

theorem ItemEdit.eq_of_refused {k : MemberKind} {member : String} {items : List AnnotationValue} {e : ItemEdit}
    {error : ModelError} (h : (ItemEdit.apply k member items e).2 = .refused error) :
    (ItemEdit.apply k member items e).1 = items := by
  cases e with
  | add value =>
      rw [ItemEdit.apply] at h ⊢
      cases hitem : k.checkItem member value with
      | ok _ => simp [hitem] at h
      | error fault => rfl
  | annotate edits =>
      rw [ItemEdit.apply] at h ⊢
      cases hshape : k.itemShape member with
      | ok inner => simp [hshape] at h
      | error fault => rfl
  | reject fault => rfl

/-! ## The run without the refusals -/

-- The edits inside an edit are carried out on the part of the use that it opens, so the use varies in the
-- induction, and the shape with it.
mutual

theorem Edit.apply_kept (s : AnnotationShape) (u : AnnotationUse) : ∀ e : Edit,
    Edit.applyAll s u (e.kept (Edit.apply s u e).2).toList =
      ((Edit.apply s u e).1, (Edit.apply s u e).2.kept.toList)
  | .set member value => by
      rw [Edit.apply]
      cases hset : s.set u member value with
      | ok w => simp [Edit.kept, EditReport.kept, Edit.applyAll, Edit.apply, hset]
      | error fault => rfl
  | .nested member edits => by
      rw [Edit.apply]
      cases hshape : s.nestedShape member with
      | ok inner =>
          have hinner := Edit.applyAll_keptAll inner (u.nested member inner.type) edits
          simp [Edit.kept, EditReport.kept, Edit.applyAll, Edit.apply, hshape, hinner]
      | error fault => rfl
  | .array member items => by
      rw [Edit.apply]
      cases hkind : s.arrayElement member with
      | ok k =>
          have hitems := ItemEdit.applyAll_keptAll k member (u.items member) items
          simp [Edit.kept, EditReport.kept, EditReport.keptAll, Edit.applyAll, Edit.apply, hkind, hitems]
      | error fault => rfl
  | .reject fault => rfl

/-- Without the edits that were refused, the use and the other reports are the same. -/
theorem Edit.applyAll_keptAll (s : AnnotationShape) (u : AnnotationUse) : ∀ edits : List Edit,
    Edit.applyAll s u (Edit.keptAll edits (Edit.applyAll s u edits).2) =
      ((Edit.applyAll s u edits).1, EditReport.keptAll (Edit.applyAll s u edits).2)
  | [] => rfl
  | e :: rest => by
      have hfirst := Edit.apply_kept s u e
      have hrest := Edit.applyAll_keptAll s (Edit.apply s u e).1 rest
      rw [Edit.applyAll, Edit.keptAll, Edit.applyAll_append, hfirst, hrest, EditReport.keptAll]

theorem ItemEdit.apply_kept (k : MemberKind) (member : String) (items : List AnnotationValue) : ∀ e : ItemEdit,
    ItemEdit.applyAll k member items (e.kept (ItemEdit.apply k member items e).2).toList =
      ((ItemEdit.apply k member items e).1, (ItemEdit.apply k member items e).2.kept.toList)
  | .add value => by
      rw [ItemEdit.apply]
      cases hitem : k.checkItem member value with
      | ok _ => simp [ItemEdit.kept, EditReport.kept, ItemEdit.applyAll, ItemEdit.apply, hitem]
      | error fault => rfl
  | .annotate edits => by
      rw [ItemEdit.apply]
      cases hshape : k.itemShape member with
      | ok inner =>
          have hinner := Edit.applyAll_keptAll inner ⟨inner.type, {}⟩ edits
          simp [ItemEdit.kept, EditReport.kept, ItemEdit.applyAll, ItemEdit.apply, hshape, hinner]
      | error fault => rfl
  | .reject fault => rfl

theorem ItemEdit.applyAll_keptAll (k : MemberKind) (member : String) (items : List AnnotationValue) :
    ∀ edits : List ItemEdit,
      ItemEdit.applyAll k member items (ItemEdit.keptAll edits (ItemEdit.applyAll k member items edits).2) =
        ((ItemEdit.applyAll k member items edits).1,
          EditReport.keptAll (ItemEdit.applyAll k member items edits).2)
  | [] => rfl
  | e :: rest => by
      have hfirst := ItemEdit.apply_kept k member items e
      have hrest := ItemEdit.applyAll_keptAll k member (ItemEdit.apply k member items e).1 rest
      rw [ItemEdit.applyAll, ItemEdit.keptAll, ItemEdit.applyAll_append, hfirst, hrest, EditReport.keptAll]

end

end JavaSource
