import JavaSource.CommandLine.Report
import JavaSource.Proofs.Declaration.Carried
import JavaSource.Proofs.Declaration.Unresolved

/-!
# Checking and rendering

A file that can be rendered is valid. A valid file can be rendered if all that is written in it could be resolved.
Both commands build the same model then; no built class is refused afterwards.
-/

namespace JavaSource

theorem List.mapM_eq_ok {ε α β : Type} {f : α → Except ε β} {g : α → β} {l : List α}
    (h : ∀ a ∈ l, f a = .ok (g a)) : l.mapM f = .ok (l.map g) := by
  induction l with
  | nil => rfl
  | cons a l ih =>
      rw [List.mapM_cons, h a (List.mem_cons_self ..), ih fun b hb ↦ h b (List.mem_cons_of_mem _ hb)]
      rfl

/-- The source file of a class that is a unit. -/
def Model.unitFile (m : Model) (layout : Layout) (c : ClassId) : SourceFile :=
  ⟨unitPath (m.packageEntry (m.entry c).package).name (m.entry c).name, (m.unitPage c).text layout⟩

namespace Declarations

variable {d : Declarations} {policy : UnresolvedPolicy} {m : Model} {classes : List ClassId}

/-- The answer of a build is a list of units. -/
theorem unitFault?_of_build (h : d.build policy = .ok (m, classes)) {c : ClassId} (hc : c ∈ classes) :
    m.unitFault? c = none := by
  obtain ⟨t, ps, hassembled, rfl, rfl⟩ := assembled_of_build h
  rw [hassembled.topLevel_eq, List.mem_filter, Model.definedIds, List.mem_filter, decide_eq_true_iff] at hc
  simp [Model.unitFault?, hc.1.2, hc.2]

theorem sourceFiles_of_build (h : d.build policy = .ok (m, classes)) (layout : Layout) :
    d.sourceFiles policy layout = .ok (classes.map (m.unitFile layout)) := by
  have hfiles : classes.mapM (m.renderFile layout) = .ok (classes.map (m.unitFile layout)) :=
    List.mapM_eq_ok fun c hc ↦ by
      rw [Model.renderFile, Model.render, unitFault?_of_build h hc]
      rfl
  rw [sourceFiles, h]
  simp only [bind, Except.bind, hfiles]

theorem survey_of_build (h : d.build .keep = .ok (m, classes)) :
    d.survey = .ok (classes.map fun c ↦ ⟨(m.entry c).kind, m.fullName c, m.unresolvedTypes c⟩) := by
  have htexts : classes.mapM (m.render d.settings.layout) =
      .ok (classes.map fun c ↦ (m.unitPage c).text d.settings.layout) :=
    List.mapM_eq_ok fun c hc ↦ by rw [Model.render, unitFault?_of_build h hc]
  rw [survey, h]
  simp only [bind, Except.bind, htexts]
  rfl

end Declarations

namespace CommandLine

open Declarations

theorem unresolvedLines_eq_nil_iff {types : List Surveyed} :
    unresolvedLines types = [] ↔ ∀ t ∈ types, t.unresolved = [] := by
  simp [unresolvedLines, List.flatMap_eq_nil_iff]

/-- A check succeeds if the declarations give a model and no unit has a type in it that could not be resolved. -/
theorem runCheck_status_iff {file : String} {d : Declarations} :
    (Command.runCheck file d).status = 0 ↔
      ∃ m classes, d.build .keep = .ok (m, classes) ∧ ∀ c ∈ classes, m.unresolvedTypes c = [] := by
  cases hbuild : d.build .keep with
  | error e =>
      have hsurvey : d.survey = .error e := by
        rw [survey, hbuild]
        rfl
      simp [Command.runCheck, hsurvey, Report.ofError, Report.failure]
  | ok r =>
      obtain ⟨m, classes⟩ := r
      have hlines : unresolvedLines (classes.map fun c ↦ ⟨(m.entry c).kind, m.fullName c, m.unresolvedTypes c⟩) = [] ↔
          ∀ c ∈ classes, m.unresolvedTypes c = [] := by
        rw [unresolvedLines_eq_nil_iff, List.forall_mem_map]
      simp only [Command.runCheck, survey_of_build hbuild, Except.ok.injEq, Prod.mk.injEq]
      split
      · rename_i hnone
        exact iff_of_true rfl ⟨m, classes, ⟨rfl, rfl⟩, hlines.mp hnone⟩
      · rename_i hsome
        refine iff_of_false (by simp [Report.failure]) ?_
        rintro ⟨_, _, ⟨rfl, rfl⟩, hnone⟩
        exact hsome (hlines.mpr hnone)

/-- Without options that say otherwise, every top-level type of a file is rendered if and only if a check of
the file succeeds and all that is written in it could be resolved. -/
theorem renders_iff_checks_and_resolved {d : Declarations} (hd : d.settings.unresolved = .fail) {o : RenderOptions}
    (ho : o.keepsUnresolved = false) (file : String) :
    (∃ files, o.sourceFiles d = .ok files ∧
        files.length = (d.elements.filter (·.enclosing.isEmpty)).length) ↔
      (Command.runCheck file d).status = 0 ∧ d.isResolved = true := by
  have hpolicy : o.policy d.settings = .fail := by simp [RenderOptions.policy, ho, hd]
  rw [RenderOptions.sourceFiles, hpolicy, runCheck_status_iff]
  constructor
  · rintro ⟨files, hfiles, -⟩
    cases hbuild : d.build .fail with
    | error e =>
        rw [sourceFiles, hbuild] at hfiles
        cases hfiles
    | ok r =>
        have hkeep := build_fail_eq_ok_iff.mp hbuild
        have hplain := Model.unresolvedTypes_eq_nil (isPlaceholder_of_build_fail hbuild)
        exact ⟨⟨r.1, r.2, hkeep.1, fun c _ ↦ hplain c⟩, hkeep.2⟩
  · rintro ⟨⟨m, classes, hkeep, -⟩, hresolved⟩
    have hbuild := build_fail_eq_ok_iff.mpr ⟨hkeep, hresolved⟩
    refine ⟨_, sourceFiles_of_build hbuild _, ?_⟩
    obtain ⟨t, ps, hassembled, rfl, rfl⟩ := assembled_of_build hbuild
    rw [List.length_map, hassembled.topLevel_eq]
    exact hassembled.forall₂_carries_topLevel.length_eq.symm

theorem renders_iff_checks_and_resolved_palette :
    ((Command.runCheck "palette.toml" palette).status = 0 ∧ palette.isResolved = true) ∧
      ∃ files, RenderOptions.sourceFiles {} palette = .ok files ∧ files.length = 2 := by
  have hcheck : (Command.runCheck "palette.toml" palette).status = 0 ∧ palette.isResolved = true := by
    decide +kernel
  exact ⟨hcheck, (renders_iff_checks_and_resolved rfl rfl "palette.toml").mpr hcheck⟩

/-- An interface that is given a superclass. Interfaces have none, so the name is dropped before anything is
written. -/
def straySuperclass : Declarations where
  packages :=
    [{ name := "p"
       types := [{ name := "I", kind := .supported .interface, superclass := some (.unresolved "Missing") }] }]

/-- A check does not see what is not written, rendering does. -/
theorem checked_though_unresolved :
    straySuperclass.settings.unresolved = .fail ∧ (Command.runCheck "decl.toml" straySuperclass).status = 0 ∧
      RenderOptions.sourceFiles {} straySuperclass = .error (.unresolvedType "Missing") := by
  decide +kernel

end CommandLine
end JavaSource
