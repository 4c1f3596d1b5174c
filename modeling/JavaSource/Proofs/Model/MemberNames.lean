import JavaSource.Proofs.Model.Frame

/-!
# Names of members

No two fields of a class share a name, whatever was done to the class.
-/

namespace JavaSource

namespace ClassEntry

theorem fieldNames_modifyField {f : Field → Field} (hf : ∀ x, (f x).name = x.name) (e : ClassEntry) (name : String) :
    (e.modifyField name f).fieldNames = e.fieldNames := by
  simp only [fieldNames, modifyField, List.map_map]
  apply List.map_congr_left
  intro x _
  simp only [Function.comp_apply]
  split
  · exact hf x
  · rfl

theorem nodup_fieldNames_addField {e f : ClassEntry} {mods : Modifiers} {type : JavaType} {name : String}
    (he : e.fieldNames.Nodup) (h : e.addField mods type name = .ok f) : f.fieldNames.Nodup := by
  obtain ⟨-, hnew, rfl⟩ := addField_eq_ok h
  simp only [fieldNames, List.map_append, List.map_cons, List.map_nil]
  exact List.Nodup.append he (List.nodup_singleton name) (List.disjoint_singleton.mpr hnew)

theorem nodup_fieldNames_renameField {e f : ClassEntry} {old new : String} (he : e.fieldNames.Nodup)
    (h : e.renameField old new = .ok f) : f.fieldNames.Nodup := by
  obtain ⟨-, hfree, -, rfl⟩ := renameField_eq_ok_iff.mp h
  have hnames : (e.modifyField old fun x ↦ { x with name := new }).fieldNames =
      e.fieldNames.map fun name ↦ if name = old then new else name := by
    simp only [fieldNames, modifyField, List.map_map]
    apply List.map_congr_left
    intro x _
    simp only [Function.comp_apply]
    split <;> rfl
  have hnew : ∀ name ∈ e.fieldNames, name ≠ old → name ≠ new := by
    rintro name hmem hne rfl
    exact hfree.elim hne.symm (absurd hmem)
  rw [hnames]
  apply List.Nodup.map_on _ he
  intro a ha b hb hab
  split at hab <;> split at hab
  · simp_all
  · rename_i hother
    exact absurd hab.symm (hnew b hb hother)
  · rename_i hother _
    exact absurd hab (hnew a ha hother)
  · exact hab

theorem fieldNames_annotate (e : ClassEntry) (target : AnnotationTarget) (u : AnnotationUse) :
    (e.annotate target u).fieldNames = e.fieldNames := by
  cases target with
  | field name => exact fieldNames_modifyField (f := (·.annotate u)) (fun _ ↦ rfl) e name
  | type | method _ | param _ _ => rfl

end ClassEntry

/-- A change to a class keeps the names of its fields apart. -/
theorem MemberStep.nodup_fieldNames {e f : ClassEntry} {s : MemberStep} (he : e.fieldNames.Nodup)
    (h : s.apply e = .ok f) : f.fieldNames.Nodup := by
  cases s with
  | field mods type name => exact ClassEntry.nodup_fieldNames_addField he h
  | renameField old new => exact ClassEntry.nodup_fieldNames_renameField he h
  | adjustField name mods type init lines =>
      cases h
      rw [ClassEntry.fieldNames_modifyField]
      · exact he
      · exact fun _ ↦ rfl
  | annotate target u =>
      cases h
      rwa [ClassEntry.fieldNames_annotate]
  | modifiers mods | javadoc lines | constructor mods | adjustConstant args lines | initBlock isStatic body =>
      cases h
      exact he
  | superclass t =>
      obtain ⟨-, _, -, rfl⟩ := ClassEntry.setExtends_eq_ok_iff.mp h
      exact he
  | implement t =>
      obtain ⟨_, -, rfl⟩ := ClassEntry.addInterface_eq_ok h
      exact he
  | typeParam v =>
      obtain ⟨-, -, rfl⟩ := ClassEntry.generify_eq_ok h
      exact he
  | method mods returnType name =>
      obtain ⟨-, rfl⟩ := ClassEntry.addMethod_eq_ok h
      exact he
  | constant name =>
      obtain ⟨-, -, -, rfl⟩ := ClassEntry.addConstant_eq_ok h
      exact he
  | inMethod i s =>
      obtain rfl | ⟨_, _, -, -, rfl⟩ := ClassEntry.updateMethod_eq_ok h <;> exact he

namespace Model

variable {m n : Model}

theorem Addition.nodup_fieldNames {s : Sites} (hm : ∀ c, (m.entry c).fieldNames.Nodup) (h : Addition s m n)
    (c : ClassId) : (n.entry c).fieldNames.Nodup := by
  cases h with
  | package _ => exact hm c
  | «class» he hn _ =>
      by_cases hold : m.Knows c
      · rw [hn.entry_old c hold]
        exact hm c
      · by_cases hnew : c = m.nextClass
        · rw [hnew, hn.entry_new, ClassEntry.fieldNames, he.bare.fields]
          exact List.nodup_nil
        · rw [entry_of_not_knows fun h ↦ (hn.knows_iff.mp h).elim hold hnew]
          exact List.nodup_nil

/-- The fields of a class have different names. -/
theorem Reachable.nodup_fieldNames (h : m.Reachable) (c : ClassId) : (m.entry c).fieldNames.Nodup := by
  induction h generalizing c with
  | initial => rcases entry_initial c with h | h <;> rw [h] <;> exact List.nodup_nil
  | @step m hm o ho ih =>
      rcases step_cases hm.wellFormed ho with ⟨d, s, e, rfl, he, hstep⟩ | hgrown
      · rw [hstep, entry_modifyClass]
        split
        · exact MemberStep.nodup_fieldNames (ih d) he
        · exact ih c
      · generalize o.step m = n at hgrown
        induction hgrown generalizing c with
        | refl => exact ih c
        | tail _ hlast ihg => exact hlast.nodup_fieldNames ihg c

end Model
end JavaSource
