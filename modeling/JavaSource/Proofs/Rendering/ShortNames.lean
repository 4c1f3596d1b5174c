import JavaSource.Proofs.Model.Step
import JavaSource.Proofs.Rendering.Part
import JavaSource.Proofs.Rendering.Visible
import JavaSource.Rendering.Source

/-!
# Short names

A unit uses a short name only where it means one thing, and it uses one wherever it may. A class that the
unit names goes by its short name exactly if nothing stands against the name, in whatever order names are met.
Where something does, every enclosing class that the full name has to spell has a reason of its own.
-/

namespace JavaSource

theorem occursIn_iff {part cs : List Char} : occursIn part cs = true ↔ part <:+: cs := by
  induction cs with
  | nil => simp [occursIn]
  | cons c cs ih =>
      rw [occursIn, Bool.or_eq_true, List.isPrefixOf_iff_prefix, ih, List.infix_cons_iff]

namespace Model

/-- The class is a unit of its own: a top-level class that the model defines. -/
def IsUnit (m : Model) (c : ClassId) : Prop :=
  (m.entry c).origin = .defined ∧ (m.entry c).outer = none

instance (m : Model) (c : ClassId) : Decidable (m.IsUnit c) := inferInstanceAs (Decidable (_ ∧ _))

/-- A class of the built-in package has the name of a top-level class in the package of a unit. -/
def Shadowed (m : Model) (t c : ClassId) : Prop :=
  (m.entry c).package = builtinPackage ∧
    ∃ d, m.IsUnit d ∧ (m.entry d).package = (m.entry t).package ∧ (m.entry d).name = (m.entry c).name

/-- From a class outward, each nested class has the name of the class around it in its own name. -/
def EmbedsOuterNames (m : Model) (c : ClassId) : Prop :=
  ∀ d o, (d = c ∨ d ∈ m.outers c) → (m.entry d).outer = some o →
    (m.entry o).name.toList <:+: (m.entry d).name.toList

variable {m : Model} {t : ClassId}

theorem unitFault?_eq_none_iff : m.unitFault? t = none ↔ m.IsUnit t := by
  unfold unitFault? IsUnit ClassEntry.isDefined
  cases ho : (m.entry t).outer <;> by_cases hd : (m.entry t).origin = .defined <;> simp [hd, ho]

theorem IsUnit.knows (ht : m.IsUnit t) : m.Knows t := by
  by_contra h
  have := ht.1
  rw [entry_of_not_knows h] at this
  cases this

def scene (m : Model) (t : ClassId) : Scene := ⟨m, t, m.usages t⟩

theorem visible_resolve (m : Model) (t : ClassId) : (m.resolve t).visible = (m.scene t).visible := by
  simp only [resolve, scene, Scene.resolve]

theorem imports_resolve (m : Model) (t : ClassId) :
    (m.resolve t).imports = (m.scene t).importNames (m.resolve t).visible := by
  simp only [resolve, scene, Scene.resolve]

theorem mem_topLevelClasses (hm : m.WellFormed) {p : PackageId} {c : ClassId} :
    c ∈ m.topLevelClasses p ↔ m.IsUnit c ∧ (m.entry c).package = p := by
  rw [topLevelClasses, List.mem_filter, Table.mem_values, ClassEntry.isDefined, decide_eq_true_eq]
  constructor
  · rintro ⟨⟨name, hc⟩, hdefined⟩
    obtain ⟨-, -, -, hpackage, houter⟩ := hm.of_mem_classes p name c hc
    exact ⟨⟨hdefined, houter⟩, hpackage⟩
  · rintro ⟨hunit, rfl⟩
    have hget := hm.listed_top c hunit.knows (Or.inl hunit.1) hunit.2
    exact ⟨⟨_, Table.mem_entries_of_get? hget⟩, hunit.1⟩

theorem shadowsBuiltin_iff (hm : m.WellFormed) {c : ClassId} :
    (m.scene t).shadowsBuiltin c = true ↔ m.Shadowed t c := by
  rw [Scene.shadowsBuiltin, Shadowed, Bool.and_eq_true, decide_eq_true_eq, List.any_eq_true]
  refine and_congr_right fun _ ↦ exists_congr fun d ↦ ?_
  rw [decide_eq_true_eq, ← and_assoc]
  exact and_congr_left fun _ ↦ mem_topLevelClasses hm

theorem shouldBeImported_iff (hm : m.WellFormed) {c : ClassId} :
    (m.scene t).shouldBeImported c = true ↔ m.EmbedsOuterNames c := by
  unfold Scene.shouldBeImported EmbedsOuterNames
  simp only [scene]
  induction c using outer_induction hm.outer_below with
  | top c hc =>
      rw [outers_of_outer_eq_none hc]
      refine iff_of_true rfl fun d o hd ho ↦ ?_
      rcases hd with rfl | hd
      · rw [hc] at ho
        cases ho
      · cases hd
  | inner c o hc ih =>
      rw [outers_of_outer_eq_some hm.outer_below hc, Scene.embedsOuterNames, Bool.and_eq_true, ih,
        occursIn_iff]
      constructor
      · rintro ⟨hfirst, hrest⟩ d e hd he
        rcases hd with rfl | hd
        · rw [hc] at he
          cases he
          exact hfirst
        · exact hrest d e (List.mem_cons.mp hd) he
      · intro h
        exact ⟨h c o (Or.inl rfl) hc, fun d e hd ↦ h d e (Or.inr (List.mem_cons.mpr hd))⟩

theorem recorded_iff {c : ClassId} : (m.scene t).Recorded c ↔
    .reference c ∈ m.declarationEvents t ∨ .declared c ∈ m.declarationEvents t := by
  simp only [Scene.Recorded, Scene.nameOf, scene, usages, UsageTable.records_ofEvents, true_and]

theorem coherent_scene (hm : m.WellFormed) (ht : m.IsUnit t) : (m.scene t).Coherent where
  lawful := UsageTable.lawful_ofEvents m _
  named _ _ h := (UsageTable.records_ofEvents.mp h).1
  outersBelow := hm.outer_below
  target_recorded := recorded_iff.mpr (Or.inr (declared_mem_declarationEvents hm ht.knows (Or.inl rfl)))
  target_outermost := outers_of_outer_eq_none ht.2
  member_recorded c hc := by
    obtain ⟨name, hc⟩ := Table.mem_values.mp hc
    have houter := (hm.of_mem_nested t name c hc).2.2.2.2
    refine recorded_iff.mpr (Or.inr (declared_mem_declarationEvents hm ht.knows (Or.inr ?_)))
    rw [outers_of_outer_eq_some hm.outer_below houter]
    exact List.mem_cons_self ..

/-- Short names capture nothing. Visible classes have names of their own, and the name of a visible class is
that of no other class in the unit, be it the class of the unit itself or one nested in it, and of no
identifier. Nor does a class of the package stand before a built-in one. -/
theorem visible_names_unshared (hm : m.Reachable) (ht : m.IsUnit t) :
    ((m.resolve t).visible.map fun c ↦ (m.entry c).name).Nodup ∧
      ∀ c ∈ (m.resolve t).visible, c ≠ t →
        (∀ d, (m.usages t).Records (m.entry c).name d → d = c) ∧
          (∀ d, d = t ∨ t ∈ m.outers d → d ≠ c → (m.entry d).name ≠ (m.entry c).name) ∧
          ¬ (m.usages t).RecordsIdentifier (m.entry c).name ∧
          ((m.entry c).package = builtinPackage → ∀ d, m.IsUnit d →
            (m.entry d).package = (m.entry t).package → (m.entry d).name ≠ (m.entry c).name) := by
  have hwf := hm.wellFormed
  have hs := coherent_scene hwf ht
  rw [visible_resolve]
  constructor
  · exact List.Nodup.map_on (fun c hc d hd hname ↦ Scene.eq_of_nameOf_eq hs hc hd hname)
      (Scene.nodup_visible hs)
  · intro c hc hne
    obtain ⟨hsole, hidentifier, hshadow⟩ := (Scene.fits_of_mem_visible hs hc hne).1
    refine ⟨hsole, fun d hd hdc hname ↦ hdc (hsole d ?_), hidentifier, fun hp d hd hdp hname ↦ ?_⟩
    · have hdeclared := declared_mem_declarationEvents hwf ht.knows hd
      exact UsageTable.records_ofEvents.mpr ⟨hname, Or.inr hdeclared⟩
    · have hshadowed := (shadowsBuiltin_iff hwf).mpr ⟨hp, d, hd, hdp, hname⟩
      rw [hshadow] at hshadowed
      cases hshadowed

/-- A unit with two fields whose types are nested classes of one name, in outer classes of one name. -/
def twoMaps : List Operation :=
  [.package "p", .define (.package ⟨2⟩) .none "T" .plain, .reference "java.util.Map$Entry",
    .reference "a.Map$Entry", .member ⟨1⟩ (.field .none (.reference ⟨3⟩) "x"),
    .member ⟨1⟩ (.field .none (.reference ⟨5⟩) "y")]

theorem reachable_twoMaps : (initial.run twoMaps).Reachable := Reachable.initial.run (by decide +kernel)

set_option maxRecDepth 100000 in
theorem visible_names_unshared_twoMaps :
    (initial.run twoMaps).Reachable ∧ (initial.run twoMaps).IsUnit ⟨1⟩ ∧
      ⟨2⟩ ∈ ((initial.run twoMaps).resolve ⟨1⟩).visible ∧
      ∀ d, ((initial.run twoMaps).usages ⟨1⟩).Records "Map" d → d = ⟨2⟩ := by
  have hunit : (initial.run twoMaps).IsUnit ⟨1⟩ := by decide +kernel
  have hvisible : ⟨2⟩ ∈ ((initial.run twoMaps).resolve ⟨1⟩).visible := by decide +kernel
  have hname : ((initial.run twoMaps).entry ⟨2⟩).name = "Map" := by decide +kernel
  have h := (visible_names_unshared reachable_twoMaps hunit).2 ⟨2⟩ hvisible (by decide)
  exact ⟨reachable_twoMaps, hunit, hvisible, hname ▸ h.1⟩

/-- Something stands against the short name of a class. -/
def Blocked (m : Model) (t c : ClassId) : Prop :=
  (∃ d, d ≠ c ∧ (m.usages t).Records (m.entry c).name d) ∨
    (m.usages t).RecordsIdentifier (m.entry c).name ∨ m.Shadowed t c ∨ ¬ m.EmbedsOuterNames c ∨
    ∃ d, d ≠ c ∧ (m.entry d).name = (m.entry c).name ∧
      (d ∈ (m.resolve t).visible ∨ d = t ∨ (m.entry d).outer = some t)

theorem fits_iff (hm : m.WellFormed) {c : ClassId} : (m.scene t).Fits c ↔
    (∀ d, (m.usages t).Records (m.entry c).name d → d = c) ∧
      ¬ (m.usages t).RecordsIdentifier (m.entry c).name ∧ ¬ m.Shadowed t c ∧ m.EmbedsOuterNames c := by
  rw [Scene.Fits, shouldBeImported_iff hm, ← shadowsBuiltin_iff hm, Bool.not_eq_true]
  constructor
  · rintro ⟨h, he⟩
    exact ⟨h.sole, h.not_identifier, h.not_shadowed, he⟩
  · rintro ⟨hsole, hidentifier, hshadow, he⟩
    exact ⟨⟨hsole, hidentifier, hshadow⟩, he⟩

/-- A class that the unit names goes by its short name exactly if the name stands for nothing else there, is
not hidden, and says where the class comes from. Otherwise something stands against the short name of every
enclosing class up to the nearest visible one, or of all of them when none is visible. -/
theorem visible_iff_and_blocked (hm : m.Reachable) (ht : m.IsUnit t) {c : ClassId}
    (hc : (m.usages t).Records (m.entry c).name c) :
    (c ∈ (m.resolve t).visible ↔ c = t ∨
      ((∀ d, (m.usages t).Records (m.entry c).name d → d = c) ∧
        ¬ (m.usages t).RecordsIdentifier (m.entry c).name ∧ ¬ m.Shadowed t c ∧
        m.EmbedsOuterNames c)) ∧
    (c ∉ (m.resolve t).visible → ∀ pre o post, m.outers c = pre ++ o :: post →
      (∀ d ∈ pre, d ∉ (m.resolve t).visible) → o ∉ (m.resolve t).visible → m.Blocked t o) := by
  have hwf := hm.wellFormed
  have hs := coherent_scene hwf ht
  rw [← fits_iff hwf, visible_resolve]
  refine ⟨Scene.mem_visible_iff_of_recorded hs hc, fun hhidden pre o post houters hpre ho ↦ ?_⟩
  have htaken := Scene.taken_of_not_mem_visible hs hc hhidden houters hpre ho
  rw [fits_iff hwf] at htaken
  by_contra hfree
  simp only [Blocked, not_or, not_exists, not_and, not_not] at hfree
  obtain ⟨hsole, hidentifier, hshadowed, hembeds, hname⟩ := hfree
  obtain ⟨d, hd, hne, hdname⟩ := htaken
    ⟨fun d hd ↦ by_contra fun hne ↦ hsole d hne hd, hidentifier, hshadowed, hembeds⟩
  obtain ⟨hvisible, htarget, houter⟩ := hname d hne hdname
  rcases hd with hd | hd | hd
  · exact htarget hd
  · obtain ⟨name, hd⟩ := Table.mem_values.mp hd
    exact houter (hwf.of_mem_nested t name d hd).2.2.2.2
  · exact (visible_resolve m t ▸ hvisible) hd

set_option maxRecDepth 100000 in
theorem visible_iff_and_blocked_twoMaps :
    (initial.run twoMaps).Reachable ∧ (initial.run twoMaps).IsUnit ⟨1⟩ ∧
      ((initial.run twoMaps).usages ⟨1⟩).Records "Entry" ⟨5⟩ ∧
      ⟨5⟩ ∉ ((initial.run twoMaps).resolve ⟨1⟩).visible ∧ (initial.run twoMaps).Blocked ⟨1⟩ ⟨4⟩ := by
  have hunit : (initial.run twoMaps).IsUnit ⟨1⟩ := by decide +kernel
  have hname : ((initial.run twoMaps).entry ⟨5⟩).name = "Entry" := by decide +kernel
  have hrecords : ((initial.run twoMaps).usages ⟨1⟩).Records "Entry" ⟨5⟩ := by decide +kernel
  have hhidden : ⟨5⟩ ∉ ((initial.run twoMaps).resolve ⟨1⟩).visible := by decide +kernel
  have houters : (initial.run twoMaps).outers ⟨5⟩ = [] ++ ⟨4⟩ :: [] := by decide +kernel
  have houter : ⟨4⟩ ∉ ((initial.run twoMaps).resolve ⟨1⟩).visible := by decide +kernel
  have h := visible_iff_and_blocked reachable_twoMaps hunit (hname.symm ▸ hrecords)
  exact ⟨reachable_twoMaps, hunit, hrecords, hhidden, h.2 hhidden [] ⟨4⟩ [] houters (by simp) houter⟩

end Model
end JavaSource
