import JavaSource.Proofs.Model.Failing

/-!
# Invariants of entries

What holds of an entry in which nothing is declared, and is kept when classes are entered inside it and when its
members are changed, holds of every entry at every time of a run.
-/

namespace JavaSource

/-- An entry in which nothing is declared. -/
structure ClassEntry.IsMemberless (e : ClassEntry) : Prop where
  interfaces : e.interfaces = []
  typeParams : e.typeParams = []
  fields : e.fields = []
  methods : e.methods = []
  constants : e.constants = []

/-- A property of entries that new entries have and changes to members keep. -/
structure ClassEntry.IsInvariant (P : ClassEntry → Prop) : Prop where
  start : ∀ e : ClassEntry, e.IsMemberless → P e
  nested : ∀ (e : ClassEntry) nested, P e → P { e with nested }
  step : ∀ (e f : ClassEntry) (s : MemberStep), P e → s.apply e = .ok f → P f

namespace Model

variable {P : ClassEntry → Prop} {m : Model}

/-- A step that keeps a property of all entries. -/
def KeepsAll (P : ClassEntry → Prop) {α : Type} (b : Build α) : Prop :=
  ∀ m, (∀ c, P (m.entry c)) → ∀ c, P ((b.exec m).2.entry c)

theorem forall_entry_pushClass (hP : ClassEntry.IsInvariant P) (hm : ∀ c, P (m.entry c)) {e : ClassEntry}
    (he : e.IsMemberless) (c : ClassId) : P ((m.pushClass e).entry c) := by
  rw [entry_pushClass]
  split
  · exact hP.start e he
  · exact hm c

theorem forall_entry_addNested (hP : ClassEntry.IsInvariant P) (hm : ∀ c, P (m.entry c)) (o : ClassId) (name : String)
    (kind : ClassKind) (origin : Origin) (mods : Modifiers) (c : ClassId) :
    P ((m.addNested o name kind origin mods).entry c) := by
  rw [addNested, entry_modifyClass]
  split
  · exact hP.nested _ _ (forall_entry_pushClass hP hm ⟨rfl, rfl, rfl, rfl, rfl⟩ _)
  · exact forall_entry_pushClass hP hm ⟨rfl, rfl, rfl, rfl, rfl⟩ _

theorem forall_entry_addTopLevel (hP : ClassEntry.IsInvariant P) (hm : ∀ c, P (m.entry c)) (p : PackageId)
    (name : String) (kind : ClassKind) (origin : Origin) (mods : Modifiers) (c : ClassId) :
    P ((m.addTopLevel p name kind origin mods).entry c) :=
  forall_entry_pushClass hP hm ⟨rfl, rfl, rfl, rfl, rfl⟩ c

namespace KeepsAll

variable {α β : Type} {b : Build α} {f : α → Build β}

theorem of_isReading (hb : b.IsReading) : KeepsAll P b := fun m hm ↦ by
  rwa [hb m]

theorem bind (hb : KeepsAll P b) (hf : ∀ a, KeepsAll P (f a)) : KeepsAll P (b >>= f) := by
  intro m hm
  have hnext := hb m hm
  rw [Build.exec_bind]
  rcases h : b.exec m with ⟨_ | a, n⟩
  · rwa [h] at hnext
  · rw [h] at hnext
    exact hf a n hnext

theorem map (hb : KeepsAll P b) (g : α → β) : KeepsAll P (g <$> b) := by
  intro m hm
  rw [Build.exec_map]
  exact hb m hm

end KeepsAll

theorem keepsAll_package (name : String) : KeepsAll P (package name) := by
  intro m hm
  unfold package
  rw [Build.exec_bind, Build.exec_get]
  simp only
  split <;> exact hm

theorem keepsAll_defineClass (hP : ClassEntry.IsInvariant P) (owner : Owner) (mods : Modifiers) (name : String)
    (kind : ClassKind) : KeepsAll P (defineClass owner mods name kind) := by
  refine .bind (.of_isReading (Build.isReading_liftExcept _)) fun _ m hm ↦ ?_
  rw [Build.exec_bind, Build.exec_get]
  simp only
  split
  · exact hm
  · cases owner with
    | package p => exact forall_entry_addTopLevel hP hm p name kind .defined mods
    | «class» o => exact forall_entry_addNested hP hm o name kind .defined mods

theorem keepsAll_anonymousClass (hP : ClassEntry.IsInvariant P) (base : JavaType) :
    KeepsAll P (anonymousClass base) := by
  intro m hm
  unfold anonymousClass
  rw [Build.exec_bind, Build.exec_get]
  simp only
  split
  · exact hm
  · exact forall_entry_pushClass hP hm ⟨rfl, rfl, rfl, rfl, rfl⟩

theorem keepsAll_placeholder (hP : ClassEntry.IsInvariant P) (name : String) : KeepsAll P (placeholder name) := by
  intro m hm
  unfold placeholder
  rw [Build.exec_bind, Build.exec_get]
  simp only
  split
  · exact hm
  · exact forall_entry_pushClass hP hm ⟨rfl, rfl, rfl, rfl, rfl⟩

theorem keepsAll_referenceIn (hP : ClassEntry.IsInvariant P) (p : PackageId) (name : String) :
    KeepsAll P (referenceIn p name) := by
  intro m hm
  unfold referenceIn
  rw [Build.exec_bind, Build.exec_get]
  simp only
  split
  · exact hm
  · rw [Build.exec_bind, Build.exec_liftExcept]
    cases checkName .type name with
    | error fault => exact hm
    | ok _ => exact forall_entry_addTopLevel hP hm p name .plain .external .none

theorem keepsAll_referenceNested (hP : ClassEntry.IsInvariant P) (outer : ClassId) (name : String) :
    KeepsAll P (referenceNested outer name) := by
  intro m hm
  unfold referenceNested
  rw [Build.exec_bind, Build.exec_get]
  simp only
  split
  · exact hm
  · split
    · exact hm
    · rw [Build.exec_bind, Build.exec_liftExcept]
      cases checkName .type name with
      | error fault => exact hm
      | ok _ => exact forall_entry_addNested hP hm outer name .plain .external .none

theorem keepsAll_referencePath (hP : ClassEntry.IsInvariant P) (c : ClassId) (path : List String) :
    KeepsAll P (referencePath c path) := by
  induction path generalizing c with
  | nil => exact .of_isReading fun _ ↦ rfl
  | cons name rest ih =>
      unfold referencePath
      exact .bind (keepsAll_referenceNested hP c name) ih

theorem keepsAll_reference (hP : ClassEntry.IsInvariant P) (qualified : String) : KeepsAll P (reference qualified) := by
  intro m hm
  unfold reference
  rw [Build.exec_bind, Build.exec_get]
  simp only
  split
  · exact hm
  · refine KeepsAll.bind (keepsAll_package _) (fun p ↦ ?_) m hm
    exact .bind (keepsAll_referenceIn hP p _) fun c ↦ keepsAll_referencePath hP c _

theorem forall_entry_step (hP : ClassEntry.IsInvariant P) (hm : ∀ c, P (m.entry c)) (o : Operation) (c : ClassId) :
    P ((o.step m).entry c) := by
  cases o with
  | package name => exact (keepsAll_package name).map _ m hm c
  | define owner mods name kind => exact (keepsAll_defineClass hP owner mods name kind).map _ m hm c
  | anonymous base => exact (keepsAll_anonymousClass hP base).map _ m hm c
  | reference qualified => exact (keepsAll_reference hP qualified).map _ m hm c
  | referenceIn p name => exact (keepsAll_referenceIn hP p name).map _ m hm c
  | referenceNested outer name => exact (keepsAll_referenceNested hP outer name).map _ m hm c
  | placeholder name => exact (keepsAll_placeholder hP name).map _ m hm c
  | member d s =>
      rw [exec_member]
      cases he : s.apply (m.entry d) with
      | error fault => exact hm c
      | ok e =>
          simp only [entry_modifyClass]
          split
          · exact hP.step _ _ s (hm d) he
          · exact hm c

theorem isMemberless_initial (c : ClassId) : (initial.entry c).IsMemberless := by
  rcases entry_initial c with h | h <;> rw [h] <;> exact ⟨rfl, rfl, rfl, rfl, rfl⟩

/-- Whatever is called, an invariant of entries holds of all of them. -/
theorem forall_entry_run (hP : ClassEntry.IsInvariant P) (os : List Operation) (c : ClassId) :
    P ((initial.run os).entry c) := by
  have hrun : ∀ m : Model, (∀ c, P (m.entry c)) → ∀ c, P ((m.run os).entry c) := by
    induction os with
    | nil => exact fun _ hm ↦ hm
    | cons o os ih => exact fun m hm ↦ ih (o.step m) (forall_entry_step hP hm o)
  exact hrun initial (fun d ↦ hP.start _ (isMemberless_initial d)) c

end Model
end JavaSource
