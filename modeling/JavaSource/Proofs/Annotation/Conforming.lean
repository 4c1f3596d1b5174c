import JavaSource.Declaration.Values
import JavaSource.Proofs.Annotation.Refusing
import JavaSource.Proofs.Model.MemberStep

/-!
# Uses that conform to a shape

A use conforms to a shape if it is one of the same annotation and the shape declares each of its members with a
kind that takes the value, where the annotations among the values conform to the shapes that their kinds hold.
Edits keep a use conforming, however deep they write and whatever they replace on the way.
-/

namespace JavaSource

/-- The kind of single values: what the items of an array member are in the end. -/
def MemberKind.innermost : MemberKind → MemberKind
  | array k => k.innermost
  | k => k

mutual

/-- Whether the annotations in a value of a kind conform to their shapes. -/
def AnnotationValue.conforms (k : MemberKind) : AnnotationValue → Bool
  | .nested _ members =>
    match k.innermost with
    | .nested _ _ declared => AnnotationValue.conformMembers declared members
    | _ => false
  | .array items => AnnotationValue.conformItems k.itemKind items
  | _ => true

/-- Whether members are declared, with kinds that take their values. -/
def AnnotationValue.conformMembers (declared : List (String × MemberKind × Option AnnotationValue)) :
    List (String × AnnotationValue) → Bool
  | [] => true
  | (name, v) :: rest =>
    (match Table.find name declared with
      | some (k, _) => k.accepts v && v.conforms k
      | none => false) && AnnotationValue.conformMembers declared rest

def AnnotationValue.conformItems (k : MemberKind) : List AnnotationValue → Bool
  | [] => true
  | v :: rest => v.conforms k && AnnotationValue.conformItems k rest

end

/-- Whether a use is one of the annotation of a shape, with members as the shape has them. -/
def AnnotationShape.conforms (s : AnnotationShape) (u : AnnotationUse) : Bool :=
  u.type = s.type && AnnotationValue.conformMembers s.members.entries u.members.entries

/-- Whether a value is one of a kind and conforms. -/
def MemberKind.fits (k : MemberKind) (v : AnnotationValue) : Prop := k.accepts v ∧ v.conforms k

mutual

/-- Whether the annotations among the values that an edit gives conform, where the kinds take the values. -/
def Edit.conforming (s : AnnotationShape) : Edit → Bool
  | .set member value =>
    match s.member? member with
    | .ok (k, _) => !k.accepts value || value.conforms k
    | .error _ => true
  | .nested member edits =>
    match s.nestedShape member with
    | .ok inner => Edit.allConforming inner edits
    | .error _ => true
  | .array member items =>
    match s.arrayElement member with
    | .ok k => ItemEdit.allConforming k member items
    | .error _ => true
  | .reject _ => true

def Edit.allConforming (s : AnnotationShape) : List Edit → Bool
  | [] => true
  | e :: rest => Edit.conforming s e && Edit.allConforming s rest

def ItemEdit.conforming (k : MemberKind) (member : String) : ItemEdit → Bool
  | .add value => !k.accepts value || value.conforms k
  | .annotate edits =>
    match k.itemShape member with
    | .ok inner => Edit.allConforming inner edits
    | .error _ => true
  | .reject _ => true

def ItemEdit.allConforming (k : MemberKind) (member : String) : List ItemEdit → Bool
  | [] => true
  | e :: rest => ItemEdit.conforming k member e && ItemEdit.allConforming k member rest

end

/-! ## Members and items -/

namespace AnnotationValue

theorem conformItems_iff {k : MemberKind} {items : List AnnotationValue} :
    conformItems k items ↔ ∀ v ∈ items, v.conforms k := by
  induction items with
  | nil => simp [conformItems]
  | cons v items ih => simp [conformItems, ih]

theorem conformMembers_iff {declared : List (String × MemberKind × Option AnnotationValue)}
    {members : List (String × AnnotationValue)} :
    conformMembers declared members ↔
      ∀ p ∈ members, ∃ k default, Table.find p.1 declared = some (k, default) ∧ k.fits p.2 := by
  induction members with
  | nil => simp [conformMembers]
  | cons p members ih =>
      obtain ⟨name, v⟩ := p
      rw [conformMembers, Bool.and_eq_true, ih, List.forall_mem_cons]
      refine and_congr_left fun _ ↦ ?_
      cases hfind : Table.find name declared with
      | none => simp
      | some declaration =>
          obtain ⟨k, default⟩ := declaration
          simp [MemberKind.fits]

end AnnotationValue

namespace MemberKind

/-- The items of an array member are what fits the items. -/
theorem fits_array_iff {k : MemberKind} {items : List AnnotationValue} :
    k.array.fits (.array items) ↔ ∀ v ∈ items, k.fits v := by
  have haccepts : k.array.accepts (.array items) = items.all k.accepts := by rw [accepts]
  have hconforms : AnnotationValue.conforms k.array (.array items) = AnnotationValue.conformItems k items := by
    rw [AnnotationValue.conforms, itemKind]
  rw [fits, haccepts, hconforms, List.all_eq_true, AnnotationValue.conformItems_iff]
  exact ⟨fun h v hv ↦ ⟨h.1 v hv, h.2 v hv⟩, fun h ↦ ⟨fun v hv ↦ (h v hv).1, fun v hv ↦ (h v hv).2⟩⟩

/-- An annotation fits a member that is one if it conforms to the shape of the member. -/
theorem fits_nested_iff {c : ClassId} {name : String} {members : List (String × MemberKind × Option AnnotationValue)}
    {u : AnnotationUse} :
    (nested c name members).fits (.use u) ↔ (AnnotationShape.mk c name ⟨members⟩).conforms u := by
  have haccepts : (nested c name members).accepts (.use u) = decide (c = u.type) := rfl
  have hconforms : (AnnotationValue.use u).conforms (nested c name members) =
      AnnotationValue.conformMembers members u.members.entries := rfl
  rw [fits, haccepts, hconforms, AnnotationShape.conforms, Bool.and_eq_true, decide_eq_true_eq, decide_eq_true_eq,
    eq_comm]

end MemberKind

namespace AnnotationShape

variable {s inner : AnnotationShape} {u w : AnnotationUse} {k : MemberKind} {default : Option AnnotationValue}
  {member : String} {v : AnnotationValue} {items : List AnnotationValue}

theorem conforms_iff : s.conforms u ↔ u.type = s.type ∧
    ∀ p ∈ u.members.entries, ∃ k default, s.members.get? p.1 = some (k, default) ∧ k.fits p.2 := by
  rw [conforms, Bool.and_eq_true, decide_eq_true_eq, AnnotationValue.conformMembers_iff]
  rfl

theorem conforms_empty (s : AnnotationShape) : s.conforms ⟨s.type, {}⟩ :=
  conforms_iff.mpr ⟨rfl, nofun⟩

/-- A value put in place of another leaves the other members as they are. -/
theorem conforms_put (hu : s.conforms u) (hmember : s.member? member = .ok (k, default)) (hv : k.fits v) :
    s.conforms (u.set member v) := by
  rw [conforms_iff] at hu ⊢
  refine ⟨hu.1, fun p hp ↦ ?_⟩
  rcases Table.mem_entries_insert hp with hp | rfl
  · exact hu.2 p hp
  · exact ⟨k, default, member?_eq_ok.mp hmember, hv⟩

/-- What a conforming use holds under a declared name fits it. -/
theorem fits_of_get? (hu : s.conforms u) (hmember : s.member? member = .ok (k, default))
    (hv : u.get? member = some v) : k.fits v := by
  obtain ⟨k', default', hget, hfits⟩ := (conforms_iff.mp hu).2 _ (Table.mem_entries_of_get? hv)
  obtain ⟨rfl, rfl⟩ := Prod.mk.inj (Option.some.inj (hget.symm.trans (member?_eq_ok.mp hmember)))
  exact hfits

theorem conforms_of_set (hu : s.conforms u) (hv : Edit.conforming s (.set member v)) (h : s.set u member v = .ok w) :
    s.conforms w := by
  unfold AnnotationShape.set at h
  rw [Except.bind_eq_ok] at h
  obtain ⟨⟨k, default⟩, hmember, h⟩ := h
  simp only at h
  split at h
  · rwa [← Except.ok.inj h]
  · split at h
    · rename_i haccepts
      rw [Edit.conforming, hmember] at hv
      have hconforms : v.conforms k := by simpa [haccepts] using hv
      rw [← Except.ok.inj h]
      exact conforms_put hu hmember ⟨haccepts, hconforms⟩
    · cases h

/-! ## The parts that edits open -/

theorem member?_of_arrayElement (h : s.arrayElement member = .ok k) :
    ∃ default, s.member? member = .ok (k.array, default) := by
  unfold arrayElement at h
  rw [Except.bind_eq_ok] at h
  obtain ⟨⟨kind, default⟩, hmember, h⟩ := h
  split at h
  · rename_i heq
    cases heq
    obtain rfl := Except.ok.inj h
    exact ⟨_, hmember⟩
  · cases h

theorem member?_of_nestedShape (h : s.nestedShape member = .ok inner) :
    ∃ default, s.member? member = .ok (.nested inner.type inner.name inner.members.entries, default) := by
  unfold nestedShape at h
  rw [Except.bind_eq_ok] at h
  obtain ⟨⟨kind, default⟩, hmember, h⟩ := h
  split at h
  · rename_i heq
    cases heq
    obtain rfl := Except.ok.inj h
    exact ⟨_, hmember⟩
  · cases h

/-- The items that an array member starts from fit it, none if the member held something else. -/
theorem fits_items (hu : s.conforms u) (h : s.arrayElement member = .ok k) : ∀ v ∈ u.items member, k.fits v := by
  obtain ⟨default, hmember⟩ := member?_of_arrayElement h
  unfold AnnotationUse.items
  split
  · rename_i items hget
    exact MemberKind.fits_array_iff.mp (fits_of_get? hu hmember hget)
  · exact nofun

/-- The use that a member starts from conforms, fresh if the member held something else. -/
theorem conforms_nested (hu : s.conforms u) (h : s.nestedShape member = .ok inner) :
    inner.conforms (u.nested member inner.type) := by
  obtain ⟨default, hmember⟩ := member?_of_nestedShape h
  unfold AnnotationUse.nested
  split
  · rename_i t members hget
    split
    · exact MemberKind.fits_nested_iff.mp (fits_of_get? hu hmember hget)
    · exact inner.conforms_empty
  · exact inner.conforms_empty

end AnnotationShape

/-! ## Runs of edits -/

theorem MemberKind.fits_of_checkItem {k : MemberKind} {member : String} {v : AnnotationValue} {r : Unit}
    (hv : ItemEdit.conforming k member (.add v)) (h : k.checkItem member v = .ok r) : k.fits v := by
  unfold checkItem at h
  split at h
  · rename_i hitem
    rw [Bool.and_eq_true] at hitem
    refine ⟨hitem.1, ?_⟩
    simpa [ItemEdit.conforming, hitem.1] using hv
  · cases h

theorem MemberKind.eq_of_itemShape {k : MemberKind} {member : String} {inner : AnnotationShape}
    (h : k.itemShape member = .ok inner) : k = .nested inner.type inner.name inner.members.entries := by
  unfold itemShape at h
  split at h
  · obtain rfl := Except.ok.inj h
    rfl
  · cases h

mutual

theorem Edit.conforms_apply {s : AnnotationShape} {u : AnnotationUse} (hu : s.conforms u) :
    ∀ e : Edit, Edit.conforming s e → s.conforms (Edit.apply s u e).1
  | .set member value, he => by
      rw [Edit.apply]
      cases hset : s.set u member value with
      | ok w => exact AnnotationShape.conforms_of_set hu he hset
      | error fault => exact hu
  | .nested member edits, he => by
      rw [Edit.apply]
      cases hshape : s.nestedShape member with
      | ok inner =>
          obtain ⟨default, hmember⟩ := AnnotationShape.member?_of_nestedShape hshape
          rw [Edit.conforming, hshape] at he
          have hinner := Edit.conforms_applyAll (AnnotationShape.conforms_nested hu hshape) edits he
          exact AnnotationShape.conforms_put hu hmember (MemberKind.fits_nested_iff.mpr hinner)
      | error fault => exact hu
  | .array member items, he => by
      rw [Edit.apply]
      cases hkind : s.arrayElement member with
      | ok k =>
          obtain ⟨default, hmember⟩ := AnnotationShape.member?_of_arrayElement hkind
          rw [Edit.conforming, hkind] at he
          have hitems := ItemEdit.fits_applyAll (AnnotationShape.fits_items hu hkind) items he
          exact AnnotationShape.conforms_put hu hmember (MemberKind.fits_array_iff.mpr hitems)
      | error fault => exact hu
  | .reject fault, _ => hu

/-- Edits keep a use conforming if the annotations that they give do. -/
theorem Edit.conforms_applyAll {s : AnnotationShape} {u : AnnotationUse} (hu : s.conforms u) :
    ∀ edits : List Edit, Edit.allConforming s edits → s.conforms (Edit.applyAll s u edits).1
  | [], _ => hu
  | e :: rest, he => by
      rw [Edit.allConforming, Bool.and_eq_true] at he
      rw [Edit.applyAll]
      exact Edit.conforms_applyAll (Edit.conforms_apply hu e he.1) rest he.2

theorem ItemEdit.fits_apply {k : MemberKind} {member : String} {items : List AnnotationValue}
    (hitems : ∀ v ∈ items, k.fits v) : ∀ e : ItemEdit, ItemEdit.conforming k member e →
      ∀ v ∈ (ItemEdit.apply k member items e).1, k.fits v
  | .add value, he => by
      rw [ItemEdit.apply]
      cases hitem : k.checkItem member value with
      | ok _ =>
          have hvalue := MemberKind.fits_of_checkItem he hitem
          intro v hv
          rcases List.mem_append.mp hv with hv | hv
          · exact hitems v hv
          · rwa [List.mem_singleton.mp hv]
      | error fault => exact hitems
  | .annotate edits, he => by
      rw [ItemEdit.apply]
      cases hshape : k.itemShape member with
      | ok inner =>
          rw [ItemEdit.conforming, hshape] at he
          have hinner := Edit.conforms_applyAll inner.conforms_empty edits he
          intro v hv
          rcases List.mem_append.mp hv with hv | hv
          · exact hitems v hv
          · rw [List.mem_singleton.mp hv, MemberKind.eq_of_itemShape hshape]
            exact MemberKind.fits_nested_iff.mpr hinner
      | error fault => exact hitems
  | .reject fault, _ => hitems

theorem ItemEdit.fits_applyAll {k : MemberKind} {member : String} {items : List AnnotationValue}
    (hitems : ∀ v ∈ items, k.fits v) : ∀ edits : List ItemEdit, ItemEdit.allConforming k member edits →
      ∀ v ∈ (ItemEdit.applyAll k member items edits).1, k.fits v
  | [], _ => hitems
  | e :: rest, he => by
      rw [ItemEdit.allConforming, Bool.and_eq_true] at he
      rw [ItemEdit.applyAll]
      exact ItemEdit.fits_applyAll (ItemEdit.fits_apply hitems e he.1) rest he.2

end

/-- From an empty use on, edits write what the shape declares and its kinds take, at every depth. What is refused
leaves no trace: the use is as it was, and without the refusals the run is the same. -/
theorem applyAll_conforms (s : AnnotationShape) (edits : List Edit) :
    (Edit.allConforming s edits → s.conforms (Edit.applyAll s ⟨s.type, {}⟩ edits).1) ∧
      (∀ u, Edit.applyAll s u (Edit.keptAll edits (Edit.applyAll s u edits).2) =
        ((Edit.applyAll s u edits).1, EditReport.keptAll (Edit.applyAll s u edits).2)) ∧
      (∀ u e error, (Edit.apply s u e).2 = .refused error → (Edit.apply s u e).1 = u) ∧
      ∀ k member items e error, (ItemEdit.apply k member items e).2 = .refused error →
        (ItemEdit.apply k member items e).1 = items := by
  refine ⟨fun hedits ↦ ?_, fun u ↦ ?_, fun u e error h ↦ ?_, fun k member items e error h ↦ ?_⟩
  · exact Edit.conforms_applyAll s.conforms_empty edits hedits
  · exact Edit.applyAll_keptAll s u edits
  · exact Edit.eq_of_refused h
  · exact ItemEdit.eq_of_refused h

/-- The kind of members that are headers. -/
def headerKind : MemberKind :=
  .nested ⟨2⟩ "p.Header" [("name", .string, some (.string "")), ("order", .int, none)]

/-- An annotation with a header of its own and a list of further ones. -/
def requestShape : AnnotationShape :=
  ⟨⟨1⟩, "p.Request",
    ⟨[("timeout", .long, some (.long 0)), ("primary", headerKind, none), ("headers", headerKind.array, none)]⟩⟩

/-- Edits that write one member in several ways, with refusals between them. -/
def requestEdits : List Edit :=
  [.set "timeout" (.string "soon"), .set "timeout" (.int 30), .nested "timeout" [.set "name" (.string "n")],
    .set "headers" (.nested ⟨2⟩ [("order", .int 0)]),
    .array "headers"
      [.annotate [.set "name" (.string "X"), .set "size" (.int 1)], .add (.int 3),
        .add (.nested ⟨2⟩ [("order", .int 2)])],
    .set "primary" (.nested ⟨2⟩ [("order", .int 1)]),
    .nested "primary" [.set "order" (.string "first"), .set "name" (.string "Accept")]]

/-- The first value of the headers is replaced by an array, the primary header is written in two steps. -/
theorem applyAll_conforms_request :
    Edit.allConforming requestShape requestEdits ∧
      (Edit.applyAll requestShape ⟨⟨1⟩, {}⟩ requestEdits).1 =
        ⟨⟨1⟩, ⟨[("timeout", .int 30),
          ("headers", .array [.nested ⟨2⟩ [("name", .string "X")], .nested ⟨2⟩ [("order", .int 2)]]),
          ("primary", .nested ⟨2⟩ [("order", .int 1), ("name", .string "Accept")])]⟩⟩ ∧
      requestShape.conforms (Edit.applyAll requestShape ⟨⟨1⟩, {}⟩ requestEdits).1 := by
  have hedits : Edit.allConforming requestShape requestEdits := rfl
  exact ⟨hedits, rfl, (applyAll_conforms requestShape requestEdits).1 hedits⟩

end JavaSource
