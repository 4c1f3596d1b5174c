import JavaSource.Proofs.Declaration.Reading

/-!
# Uses of a built model are valid

Every use of an annotation that the model declares has members of its shape only, with values that the members take.
This holds of the uses on classes and members and of those inside defaults, and at any depth inside other uses.
-/

namespace JavaSource

/-! ## Uses at any depth -/

namespace AnnotationValue

mutual

/-- The uses in a value, at any depth. -/
def uses : AnnotationValue → List AnnotationUse
  | .nested c members => ⟨c, ⟨members⟩⟩ :: usesIn members
  | .array items => usesEach items
  | _ => []

def usesIn : List (String × AnnotationValue) → List AnnotationUse
  | [] => []
  | (_, v) :: rest => uses v ++ usesIn rest

def usesEach : List AnnotationValue → List AnnotationUse
  | [] => []
  | v :: vs => uses v ++ usesEach vs

end

theorem mem_usesIn {members : List (String × AnnotationValue)} {u : AnnotationUse} :
    u ∈ usesIn members ↔ ∃ p ∈ members, u ∈ p.2.uses := by
  induction members with
  | nil => simp [usesIn]
  | cons p rest ih =>
      obtain ⟨name, v⟩ := p
      simp [usesIn, ih]

end AnnotationValue

/-- A use and the uses inside it, at any depth. -/
def AnnotationUse.nestedUses (u : AnnotationUse) : List AnnotationUse :=
  u :: AnnotationValue.usesIn u.members.entries

/-- All uses at a class: on the class and its members, in the defaults of its methods, and inside of these. -/
def ClassEntry.allUses (e : ClassEntry) : List AnnotationUse :=
  e.uses.flatMap AnnotationUse.nestedUses ++
    e.methods.flatMap fun m ↦ m.defaultValue.toList.flatMap AnnotationValue.uses

/-! ## What stands for something written is valid -/

namespace Model

/-- If the annotation is one that the model declares and has a shape, the use has members of the shape only, with
values that they take. -/
def Validates (m : Model) (u : AnnotationUse) : Prop :=
  ∀ s, (m.entry u.type).isDefined → m.shapeOf u.type = .ok s →
    ∀ p ∈ u.members.entries, ∃ k default, s.members.get? p.1 = some (k, default) ∧ k.accepts p.2

variable {m : Model}

theorem kind_of_shapeOf {c : ClassId} {s : AnnotationShape} (h : m.shapeOf c = .ok s) :
    (m.entry c).kind = .annotationType := by
  unfold shapeOf at h
  rw [shapeWithin] at h
  by_contra hkind
  rw [if_pos hkind] at h
  cases h

theorem declaredShape?_eq_some {c : ClassId} {s : AnnotationShape} (hdefined : (m.entry c).isDefined)
    (h : m.shapeOf c = .ok s) : m.declaredShape? c = some s := by
  rw [declaredShape?, if_pos ⟨hdefined, kind_of_shapeOf h⟩, h]
  rfl

theorem validates_of_keeps {u : AnnotationUse} {given : List (String × AnnotationValue)}
    (h : u.Keeps (m.declaredShape? u.type) given) : m.Validates u :=
  fun s hdefined hs p hp ↦ h.takes p hp s (declaredShape?_eq_some hdefined hs)

end Model

namespace Context

variable {x : Context} {m : Model}

/-- A use is valid through and through when the values that were given to it are. -/
theorem validates_of_given {u : AnnotationUse} {given : List (String × AnnotationValue)}
    (hkeeps : u.Keeps (m.declaredShape? u.type) given) (hgiven : ∀ w ∈ AnnotationValue.usesIn given, m.Validates w) :
    ∀ w ∈ u.nestedUses, m.Validates w := by
  refine List.forall_mem_cons.mpr ⟨Model.validates_of_keeps hkeeps, fun w hw ↦ ?_⟩
  obtain ⟨p, hp, hw⟩ := AnnotationValue.mem_usesIn.mp hw
  exact hgiven w (AnnotationValue.mem_usesIn.mpr ⟨p, hkeeps.mem p hp, hw⟩)

mutual

theorem validates_of_readsAs : ∀ (w : WrittenValue) {hint : Option MemberKind} {v : AnnotationValue},
    x.ReadsAs m hint w v → ∀ u ∈ v.uses, m.Validates u
  | .bool _, hint, v, h | .char _, hint, v, h | .long _, hint, v, h => by
      rw [ReadsAs] at h
      subst h
      exact nofun
  | .int n, hint, v, h => by
      rw [ReadsAs] at h
      subst h
      unfold AnnotationValue.ofInteger
      repeat' split
      all_goals exact nofun
  | .float y, hint, v, h => by
      rw [ReadsAs] at h
      subst h
      unfold AnnotationValue.ofFloat
      split <;> exact nofun
  | .string s, hint, v, h => by
      rw [ReadsAs] at h
      unfold AnnotationValue.ofString at h
      split at h
      · split at h <;> cases h
        exact nofun
      · cases h
        exact nofun
      · cases h
        exact nofun
  | .array items, hint, v, h => by
      rw [ReadsAs] at h
      obtain ⟨vs, hvs, rfl⟩ := h
      exact validates_of_readsEachAs items hvs
  | .classLiteral w, hint, v, h => by
      rw [ReadsAs] at h
      obtain ⟨t, -, rfl⟩ := h
      exact nofun
  | .enumConstant type constant, hint, v, h => by
      rw [ReadsAs] at h
      obtain ⟨c, -, rfl⟩ := h
      exact nofun
  | .nested type values, hint, v, h => by
      rw [ReadsAs] at h
      obtain ⟨u, given, -, hgiven, hkeeps, rfl⟩ := h
      exact validates_of_given hkeeps (validates_of_readsIn values hgiven)

theorem validates_of_readsEachAs : ∀ (ws : List WrittenValue) {hint : Option MemberKind} {vs : List AnnotationValue},
    x.ReadsEachAs m hint ws vs → ∀ u ∈ AnnotationValue.usesEach vs, m.Validates u
  | [], hint, vs, h => by
      rw [ReadsEachAs] at h
      subst h
      exact nofun
  | w :: ws, hint, vs, h => by
      rw [ReadsEachAs] at h
      obtain ⟨v, us, hv, hus, rfl⟩ := h
      exact List.forall_mem_append.mpr ⟨validates_of_readsAs w hv, validates_of_readsEachAs ws hus⟩

theorem validates_of_readsIn : ∀ (ws : List (String × WrittenValue)) {shape : Option AnnotationShape}
    {vs : List (String × AnnotationValue)}, x.ReadsIn m shape ws vs → ∀ u ∈ AnnotationValue.usesIn vs, m.Validates u
  | [], shape, vs, h => by
      rw [ReadsIn] at h
      subst h
      exact nofun
  | (name, w) :: ws, shape, vs, h => by
      rw [ReadsIn] at h
      obtain ⟨v, us, hv, hus, rfl⟩ := h
      exact List.forall_mem_append.mpr ⟨validates_of_readsAs w hv, validates_of_readsIn ws hus⟩

end

theorem validates_of_readsUse {a : WrittenAnnotation} {u : AnnotationUse} (h : x.ReadsUse m a u) :
    ∀ w ∈ u.nestedUses, m.Validates w := by
  obtain ⟨given, -, hgiven, hkeeps⟩ := h
  exact validates_of_given hkeeps (validates_of_readsIn a.values hgiven)

end Context

/-! ## Built models -/

theorem TypeDeclaration.Bears.validates {x : Context} {m : Model} {d : TypeDeclaration} {e : ClassEntry}
    (h : d.Bears (x.ReadsUse m) (fun n w v ↦ x.ReadsAs m (n.returnType.bind m.memberHint) w v) e) :
    ∀ u ∈ e.allUses, m.Validates u := by
  refine List.forall_mem_append.mpr ⟨fun w hw ↦ ?_, fun w hw ↦ ?_⟩
  · obtain ⟨u, hu, hw⟩ := List.mem_flatMap.mp hw
    obtain ⟨a, ha⟩ := h.exists_of_mem_uses hu
    exact Context.validates_of_readsUse ha w hw
  · obtain ⟨n, hn, hw⟩ := List.mem_flatMap.mp hw
    obtain ⟨v, hv, hw⟩ := List.mem_flatMap.mp hw
    obtain ⟨written, hread⟩ := h.exists_of_default hn (Option.mem_toList.mp hv)
    exact Context.validates_of_readsAs written hread w hw

theorem ClassEntry.IsBare.allUses_eq_nil {e : ClassEntry} (h : e.IsBare) : e.allUses = [] := by
  simp [allUses, uses, h.annotations, h.fields, h.methods]

namespace Declarations

/-- All uses of declared annotations in a built model are valid. -/
theorem valid_of_build {d : Declarations} {policy : UnresolvedPolicy} {m : Model} {classes : List ClassId}
    (h : d.build policy = .ok (m, classes)) : ∀ c, ∀ u ∈ (m.entry c).allUses, m.Validates u := by
  obtain ⟨ps, s, s₁, s₂, t, hstages, rfl, -⟩ := stages_of_build h
  have hassembled := hstages.assembled
  intro c
  by_cases hc : (t.model.entry c).origin = .defined
  · obtain ⟨p, hp, rfl⟩ := List.mem_map.mp (hassembled.defined c hc)
    exact (hassembled.bears_read hstages.finished hp).validates
  · -- nothing is written for the other classes
    rw [(hassembled.sound.declarative.bare c hc).allUses_eq_nil]
    exact nofun

theorem valid_of_build_labels :
    ∃ m classes, labels.build .fail = .ok (m, classes) ∧ ∀ c, ∀ u ∈ (m.entry c).allUses, m.Validates u := by
  have hok : (labels.build .fail).isOk = true := by decide +kernel
  obtain ⟨m, classes, h⟩ := exists_build_eq_ok hok
  exact ⟨m, classes, h, valid_of_build h⟩

end Declarations
end JavaSource
