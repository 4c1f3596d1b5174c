import Mathlib.Data.List.Pairwise
import JavaSource.Proofs.CommandLine.Agreement
import JavaSource.Proofs.Rendering.ShortNames
import JavaSource.Proofs.Rendering.UnitPath

/-!
# Output files

The files of the top-level types lie below the directory that they are written to, and each has a place of its own,
if and only if the names of the packages see to it. Dotted names of identifiers do. A package of another name can
share a directory with a second one, so that one file is written over the other, or lead away from the root.
-/

namespace JavaSource

namespace Declarations

/-- What the packages must look like for each file to have a place of its own below the output directory. -/
structure HasOwnPlaces (d : Declarations) : Prop where
  relative : ∀ p ∈ d.packages, p.types ≠ [] → ∀ directory ∈ packageDirectories p.name, isRooted directory = false
  apart : ∀ p ∈ d.packages, ∀ q ∈ d.packages, p.name ≠ q.name → packageParts p.name = packageParts q.name →
    ∀ t ∈ p.types, ∀ u ∈ q.types, t.name ≠ u.name

/-- The class is that of a type directly in a package. -/
structure IsUnitOf (m : Model) (p : PackageDeclaration) (t : TypeDeclaration) (c : ClassId) : Prop where
  package : (m.packageEntry (m.entry c).package).name = p.name
  name : (m.entry c).name = t.name

variable {d : Declarations} {policy : UnresolvedPolicy} {m : Model} {classes : List ClassId}

/-! ## The units of a build -/

theorem mem_elements_of_mem_types {p : PackageDeclaration} (hp : p ∈ d.packages) {t : TypeDeclaration}
    (ht : t ∈ p.types) : ⟨p.name, [], t⟩ ∈ d.elements := by
  refine List.mem_flatMap.mpr ⟨p, hp, ?_⟩
  exact (TypeDeclaration.sublist_elementsAll p.name [] p.types).subset (List.mem_map_of_mem ht)

theorem exists_types_of_mem_elements {e : TypeElement} (he : e ∈ d.elements) (htop : e.enclosing = []) :
    ∃ p ∈ d.packages, e.package = p.name ∧ e.type ∈ p.types := by
  obtain ⟨p, hp, he⟩ := List.mem_flatMap.mp he
  obtain ⟨hpackage, ⟨-, htype⟩ | ⟨f, -, -, hchain, -⟩⟩ := TypeDeclaration.enclosing_of_mem_elementsAll he
  · exact ⟨p, hp, hpackage, htype⟩
  · rw [htop] at hchain
    cases hchain

theorem isUnitOf_of_carries {e : TypeElement} {c : ClassId} (h : m.Carries e c) {p : PackageDeclaration}
    (hpackage : e.package = p.name) : IsUnitOf m p e.type c :=
  ⟨h.package.trans hpackage, (List.forall₂_cons.mp h.chain).1.name⟩

theorem exists_isUnitOf_of_mem_types (h : d.build policy = .ok (m, classes)) {p : PackageDeclaration}
    (hp : p ∈ d.packages) {t : TypeDeclaration} (ht : t ∈ p.types) : ∃ c ∈ classes, IsUnitOf m p t c := by
  have hmem : ⟨p.name, [], t⟩ ∈ d.elements.filter (·.enclosing.isEmpty) :=
    List.mem_filter.mpr ⟨mem_elements_of_mem_types hp ht, rfl⟩
  obtain ⟨c, hc, hcarries⟩ := List.exists_mem_right_of_forall₂ (carries_of_build h).2.2.2 hmem
  exact ⟨c, hc, isUnitOf_of_carries hcarries rfl⟩

theorem exists_isUnitOf_of_mem_classes (h : d.build policy = .ok (m, classes)) {c : ClassId} (hc : c ∈ classes) :
    ∃ p ∈ d.packages, ∃ t ∈ p.types, IsUnitOf m p t c := by
  obtain ⟨e, he, hcarries⟩ := List.exists_mem_left_of_forall₂ (carries_of_build h).2.2.2 hc
  obtain ⟨he, htop⟩ := List.mem_filter.mp he
  obtain ⟨p, hp, hpackage, ht⟩ := exists_types_of_mem_elements he (List.isEmpty_iff.mp htop)
  exact ⟨p, hp, e.type, ht, isUnitOf_of_carries hcarries hpackage⟩

theorem isUnit_of_build (h : d.build policy = .ok (m, classes)) {c : ClassId} (hc : c ∈ classes) : m.IsUnit c :=
  Model.unitFault?_eq_none_iff.mp (unitFault?_of_build h hc)

theorem wellFormed_of_build (h : d.build policy = .ok (m, classes)) : m.WellFormed := by
  obtain ⟨t, ps, hassembled, rfl, -⟩ := assembled_of_build h
  exact hassembled.sound.wellFormed

theorem nameFault?_of_build (h : d.build policy = .ok (m, classes)) {c : ClassId} (hc : c ∈ classes) :
    nameFault? (m.entry c).name = none := by
  have hunit := isUnit_of_build h hc
  exact (wellFormed_of_build h).name_valid c hunit.knows (Or.inl hunit.1)

theorem nodup_of_build (h : d.build policy = .ok (m, classes)) : classes.Nodup := by
  obtain ⟨t, ps, hassembled, -, rfl⟩ := assembled_of_build h
  exact hassembled.nodup.sublist (List.filter_sublist.map _)

/-- A unit is known by its package and its name. -/
theorem eq_of_names_eq (h : d.build policy = .ok (m, classes)) {c c' : ClassId} (hc : c ∈ classes) (hc' : c' ∈ classes)
    (hpackage : (m.packageEntry (m.entry c).package).name = (m.packageEntry (m.entry c').package).name)
    (hname : (m.entry c).name = (m.entry c').name) : c = c' := by
  have hm := wellFormed_of_build h
  have hunit := isUnit_of_build h hc
  have hunit' := isUnit_of_build h hc'
  have hsame := hm.package_eq_of_name (hm.package_known c hunit.knows) (hm.package_known c' hunit'.knows) hpackage
  have hget := hm.listed_top c hunit.knows (Or.inl hunit.1) hunit.2
  have hget' := hm.listed_top c' hunit'.knows (Or.inl hunit'.1) hunit'.2
  rw [hsame, hname, hget'] at hget
  exact (Option.some.inj hget).symm

/-! ## The places of their files -/

theorem path_unitFile (m : Model) (layout : Layout) (c : ClassId) :
    (m.unitFile layout c).path = unitPath (m.packageEntry (m.entry c).package).name (m.entry c).name := rfl

theorem HasOwnPlaces.staysBelow (hd : d.HasOwnPlaces) (h : d.build policy = .ok (m, classes)) {c : ClassId}
    (hc : c ∈ classes) (layout : Layout) : StaysBelow (m.unitFile layout c).path := by
  obtain ⟨p, hp, t, ht, hunit⟩ := exists_isUnitOf_of_mem_classes h hc
  rw [path_unitFile, staysBelow_unitPath_iff (nameFault?_of_build h hc), hunit.package]
  exact hd.relative p hp (List.ne_nil_of_mem ht)

theorem HasOwnPlaces.eq_of_pathParts_eq (hd : d.HasOwnPlaces) (h : d.build policy = .ok (m, classes))
    {c c' : ClassId} (hc : c ∈ classes) (hc' : c' ∈ classes) {layout : Layout}
    (heq : pathParts (m.unitFile layout c).path = pathParts (m.unitFile layout c').path) : c = c' := by
  obtain ⟨p, hp, t, ht, hunit⟩ := exists_isUnitOf_of_mem_classes h hc
  obtain ⟨q, hq, u, hu, hunit'⟩ := exists_isUnitOf_of_mem_classes h hc'
  have hrelative := hd.relative p hp (List.ne_nil_of_mem ht)
  have hrelative' := hd.relative q hq (List.ne_nil_of_mem hu)
  rw [← hunit.package] at hrelative
  rw [← hunit'.package] at hrelative'
  obtain ⟨hparts, hname⟩ :=
    (pathParts_unitPath_eq_iff (nameFault?_of_build h hc) (nameFault?_of_build h hc') hrelative hrelative').mp heq
  refine eq_of_names_eq h hc hc' ?_ hname
  -- two packages with the same parts have no types of one name
  by_contra hpackage
  rw [hunit.package, hunit'.package] at hpackage hparts
  rw [hunit.name, hunit'.name] at hname
  exact hd.apart p hp q hq hpackage hparts t ht u hu hname

theorem hasOwnPlaces_of_files (h : d.build policy = .ok (m, classes)) {layout : Layout}
    (hbelow : ∀ c ∈ classes, StaysBelow (m.unitFile layout c).path)
    (hapart : classes.Pairwise fun c c' ↦
      pathParts (m.unitFile layout c).path ≠ pathParts (m.unitFile layout c').path) : d.HasOwnPlaces := by
  have hrelative : ∀ p ∈ d.packages, ∀ t ∈ p.types, ∀ directory ∈ packageDirectories p.name,
      isRooted directory = false := by
    intro p hp t ht
    obtain ⟨c, hc, hunit⟩ := exists_isUnitOf_of_mem_types h hp ht
    rw [← hunit.package]
    exact (staysBelow_unitPath_iff (nameFault?_of_build h hc)).mp (hbelow c hc)
  constructor
  case relative =>
    intro p hp htypes
    obtain ⟨t, ht⟩ := List.exists_mem_of_ne_nil _ htypes
    exact hrelative p hp t ht
  case apart =>
    intro p hp q hq hne hparts t ht u hu hname
    obtain ⟨c, hc, hunit⟩ := exists_isUnitOf_of_mem_types h hp ht
    obtain ⟨c', hc', hunit'⟩ := exists_isUnitOf_of_mem_types h hq hu
    have hdistinct : c ≠ c' := by
      rintro rfl
      exact hne (hunit.package.symm.trans hunit'.package)
    have hsymm : Std.Symm fun c c' ↦ pathParts (m.unitFile layout c).path ≠ pathParts (m.unitFile layout c').path :=
      ⟨fun _ _ ↦ Ne.symm⟩
    refine hapart.forall hc hc' hdistinct ?_
    rw [path_unitFile, path_unitFile]
    refine (pathParts_unitPath_eq_iff (nameFault?_of_build h hc) (nameFault?_of_build h hc') ?_ ?_).mpr ?_
    · rw [hunit.package]
      exact hrelative p hp t ht
    · rw [hunit'.package]
      exact hrelative q hq u hu
    · rw [hunit.package, hunit'.package, hunit.name, hunit'.name]
      exact ⟨hparts, hname⟩

/-- Every file lies below the output directory, and no two of them have one place, if and only if the packages see to
it. -/
theorem files_have_places_iff (h : d.build policy = .ok (m, classes)) (layout : Layout) :
    ∃ files, d.sourceFiles policy layout = .ok files ∧ files.length = classes.length ∧
      (((∀ f ∈ files, StaysBelow f.path) ∧ files.Pairwise fun f g ↦ pathParts f.path ≠ pathParts g.path) ↔
        d.HasOwnPlaces) := by
  refine ⟨_, sourceFiles_of_build h layout, List.length_map _, ?_⟩
  rw [List.forall_mem_map, List.pairwise_map]
  constructor
  · rintro ⟨hbelow, hapart⟩
    exact hasOwnPlaces_of_files h hbelow hapart
  · intro hd
    refine ⟨fun c hc ↦ hd.staysBelow h hc layout, ?_⟩
    refine (nodup_of_build h).imp_of_mem fun {c c'} hc hc' hne heq ↦ hne ?_
    exact hd.eq_of_pathParts_eq h hc hc' heq

/-- With dotted names for packages, all files have their places. -/
theorem hasOwnPlaces_of_isDotted (h : ∀ p ∈ d.packages, IsDotted p.name) : d.HasOwnPlaces where
  relative p hp _ directory hdirectory := by
    have hname := nameFault?_of_mem_packageDirectories (h p hp) hdirectory
    exact isRooted_of_notMem (slash_notMem_of_identifier hname)
  apart p hp q hq hne hparts := absurd (eq_of_packageParts_eq (h p hp) (h q hq) hparts) hne

/-- Classes of one name in the unnamed package, in a package, and in one whose name goes on. -/
def namesakes : Declarations where
  packages := ["", "p", "p.q"].map fun name ↦ { name, types := [{ name := "T", kind := .supported .plain }] }

theorem files_have_places_iff_namesakes :
    ∃ m classes, namesakes.build .fail = .ok (m, classes) ∧
      ∃ files, namesakes.sourceFiles .fail {} = .ok files ∧ files.length = 3 ∧
        (∀ f ∈ files, StaysBelow f.path) ∧ files.Pairwise fun f g ↦ pathParts f.path ≠ pathParts g.path := by
  have hlength : (namesakes.build .fail).toOption.map (·.2.length) = some 3 := by decide +kernel
  cases h : namesakes.build .fail with
  | error e =>
      rw [h] at hlength
      cases hlength
  | ok r =>
      rw [h] at hlength
      obtain ⟨files, hfiles, hcount, hiff⟩ := files_have_places_iff h {}
      have hplaces := hiff.mpr (hasOwnPlaces_of_isDotted (by decide +kernel))
      exact ⟨r.1, r.2, rfl, files, hfiles, hcount.trans (Option.some.inj hlength), hplaces⟩

/-- Two packages with a class of one name. The second has a name with an empty part, which makes no directory. -/
def sharedDirectory : Declarations where
  packages := ["a.b", "a..b"].map fun name ↦ { name, types := [{ name := "T", kind := .supported .plain }] }

/-- A class in a package whose name begins with a slash. -/
def rootedPackage : Declarations where
  packages := [{ name := "/a", types := [{ name := "T", kind := .supported .plain }] }]

/-- One file is written over the other, and a path can lead away from the output directory. -/
theorem sourceFiles_misplaced :
    (sharedDirectory.sourceFiles .fail {}).toOption.map (·.map (·.path)) = some ["a/b/T.java", "a/b/T.java"] ∧
      (rootedPackage.sourceFiles .fail {}).toOption.map (·.map (·.path)) = some ["/a/T.java"] ∧
      joinPath "out" "/a/T.java" = "/a/T.java" := by
  decide +kernel

end Declarations
end JavaSource
