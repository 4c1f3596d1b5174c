import Mathlib.Data.List.Basic
import JavaSource.Proofs.Text.Splitting
import JavaSource.Rendering.SourceFile

/-!
# Paths of units

A path is made of the parts between its slashes. Joined to a directory, a path that does not start from the root
leads to a place below it. The path of a unit has the parts of its package, which is cut at points and at slashes
alike, and the name of its file. Empty parts are dropped, so packages with different names can share a directory.
-/

namespace JavaSource

/-! ## Paths -/

/-- Whether a path starts from the root. -/
def isRooted (path : String) : Bool := path.toList.head? = some '/'

/-- The parts of a path. Any number of slashes stands between two parts. -/
def pathParts (path : String) : List String := (Text.splitString '/' path).filter (· ≠ "")

/-- Joined to any directory, the path leads to a place below it. -/
structure StaysBelow (path : String) : Prop where
  relative : isRooted path = false
  proper : pathParts path ≠ []
  plain : ∀ part ∈ pathParts path, part ≠ "." ∧ part ≠ ".."
  joined : ∀ directory, pathParts (joinPath directory path) = pathParts directory ++ pathParts path

theorem pathParts_append_slash {path front : String} (rest : String) (h : path.toList = front.toList ++ ['/']) :
    pathParts (path ++ rest) = pathParts front ++ pathParts rest := by
  have hsplit : Text.splitString '/' (path ++ rest) = Text.splitString '/' front ++ Text.splitString '/' rest := by
    rw [Text.splitString, String.toList_append, h, List.append_assoc, List.singleton_append,
      Text.splitAll_append_cons, List.map_append]
    rfl
  rw [pathParts, hsplit, List.filter_append]
  rfl

theorem pathParts_of_notMem {path : String} (hne : path ≠ "") (h : '/' ∉ path.toList) : pathParts path = [path] := by
  rw [pathParts, Text.splitString, Text.splitAll_of_notMem h, List.map_singleton, String.ofList_toList]
  exact List.filter_eq_self.mpr (by simpa using hne)

theorem pathParts_joinPath (base : String) {path : String} (h : isRooted path = false) :
    pathParts (joinPath base path) = pathParts base ++ pathParts path := by
  have hrelative : path.toList.head? ≠ some '/' := by simpa [isRooted] using h
  rw [joinPath, if_neg hrelative]
  by_cases hempty : base = ""
  · simp [hempty, pathParts, Text.splitString]
  · by_cases hslash : base.toList.getLast? = some '/'
    · -- the slash that ends the base is the one between the two
      obtain ⟨front, hfront⟩ := List.getLast?_eq_some_iff.mp hslash
      have hfront' : base.toList = (String.ofList front).toList ++ ['/'] := by rwa [String.toList_ofList]
      have hbase : pathParts base = pathParts (String.ofList front) := by
        have hnone : pathParts "" = [] := rfl
        have happend := pathParts_append_slash "" hfront'
        rwa [String.append_empty, hnone, List.append_nil] at happend
      rw [if_pos (by simp [hslash]), hbase]
      exact pathParts_append_slash path hfront'
    · rw [if_neg (by simp [hempty, hslash])]
      exact pathParts_append_slash path (by simp)

theorem isRooted_joinPath (base path : String) : isRooted (joinPath base path) = (isRooted base || isRooted path) := by
  unfold joinPath
  split
  · rename_i hpath
    simp [isRooted, hpath]
  · rename_i hpath
    have hrelative : isRooted path = false := by simpa [isRooted] using hpath
    rw [hrelative, Bool.or_false]
    cases hbase : base.toList with
    | nil =>
        obtain rfl : base = "" := String.toList_eq_nil_iff.mp hbase
        exact hrelative
    | cons c cs =>
        -- what comes behind the base does not matter
        split <;> simp [isRooted, hbase]

theorem isRooted_foldl_joinPath (paths : List String) (start : String) :
    isRooted (paths.foldl joinPath start) = (isRooted start || paths.any isRooted) := by
  induction paths generalizing start with
  | nil => simp
  | cons path paths ih => rw [List.foldl_cons, ih, isRooted_joinPath, List.any_cons, Bool.or_assoc]

theorem pathParts_foldl_joinPath {paths : List String} (h : ∀ path ∈ paths, isRooted path = false) (start : String) :
    pathParts (paths.foldl joinPath start) = pathParts start ++ paths.flatMap pathParts := by
  induction paths generalizing start with
  | nil => simp
  | cons path paths ih =>
      obtain ⟨hpath, hpaths⟩ := List.forall_mem_cons.mp h
      rw [List.foldl_cons, ih hpaths, pathParts_joinPath start hpath, List.append_assoc, List.flatMap_cons]

/-! ## Units -/

/-- The directories of a package, one in the other. -/
def packageDirectories (package : String) : List String := (Text.splitString '.' package).filter (· ≠ "")

/-- The parts of the path of a package. -/
def packageParts (package : String) : List String := (packageDirectories package).flatMap pathParts

variable {package name : String}

theorem unitPath_eq (package name : String) :
    unitPath package name = joinPath ((packageDirectories package).foldl joinPath "") (name ++ ".java") := rfl

theorem slash_notMem_of_identifier (h : nameFault? name = none) : '/' ∉ name.toList :=
  notMem_of_not_isIdentifierPart h (by decide +kernel)

theorem slash_notMem_fileName (h : nameFault? name = none) : '/' ∉ (name ++ ".java").toList := by
  rw [String.toList_append, List.mem_append, not_or]
  exact ⟨slash_notMem_of_identifier h, by decide⟩

theorem isRooted_of_notMem {path : String} (h : '/' ∉ path.toList) : isRooted path = false := by
  rw [isRooted, decide_eq_false_iff_not]
  exact fun hhead ↦ h (List.mem_of_mem_head? hhead)

theorem isRooted_unitPath (h : nameFault? name = none) :
    isRooted (unitPath package name) = (packageDirectories package).any isRooted := by
  have hstart : isRooted "" = false := rfl
  rw [unitPath_eq, isRooted_joinPath, isRooted_foldl_joinPath, hstart, Bool.false_or,
    isRooted_of_notMem (slash_notMem_fileName h), Bool.or_false]

theorem pathParts_unitPath (h : nameFault? name = none)
    (hpackage : ∀ directory ∈ packageDirectories package, isRooted directory = false) :
    pathParts (unitPath package name) = packageParts package ++ [name ++ ".java"] := by
  have hslash := slash_notMem_fileName h
  have hne : name ++ ".java" ≠ "" := by simp
  have hstart : pathParts "" = [] := rfl
  rw [unitPath_eq, pathParts_joinPath _ (isRooted_of_notMem hslash), pathParts_foldl_joinPath hpackage, hstart,
    List.nil_append, pathParts_of_notMem hne hslash]
  rfl

theorem point_notMem_of_mem_packageParts {part : String} (h : part ∈ packageParts package) : '.' ∉ part.toList := by
  intro hmem
  obtain ⟨directory, hdirectory, hpart⟩ := List.mem_flatMap.mp h
  have hchar := Text.mem_of_mem_splitString (List.mem_filter.mp hpart).1 hmem
  exact Text.notMem_of_mem_splitString (List.mem_filter.mp hdirectory).1 hchar

/-- The path of a unit leads below every directory, unless a slash begins the name of the package or follows a
point in it. -/
theorem staysBelow_unitPath_iff (h : nameFault? name = none) :
    StaysBelow (unitPath package name) ↔ ∀ directory ∈ packageDirectories package, isRooted directory = false := by
  constructor
  · intro hbelow directory hdirectory
    have hnone := hbelow.relative
    rw [isRooted_unitPath h, List.any_eq_false] at hnone
    simpa using hnone directory hdirectory
  · intro hpackage
    have hrelative : isRooted (unitPath package name) = false := by
      rw [isRooted_unitPath h, List.any_eq_false]
      simpa using hpackage
    have hparts := pathParts_unitPath h hpackage
    refine ⟨hrelative, by simp [hparts], ?_, fun directory ↦ pathParts_joinPath directory hrelative⟩
    intro part hpart
    rw [hparts, List.mem_append, List.mem_singleton] at hpart
    rcases hpart with hpart | rfl
    · -- a part of a package holds no point
      have hpoint := point_notMem_of_mem_packageParts hpart
      constructor <;> rintro rfl <;> exact hpoint (by decide)
    · -- the name of a file ends in a letter
      constructor <;> intro heq <;> simpa using congrArg (·.toList.getLast?) heq

/-- Units of one name have one place if their packages have the same parts. -/
theorem pathParts_unitPath_eq_iff {package' name' : String} (h : nameFault? name = none)
    (h' : nameFault? name' = none)
    (hpackage : ∀ directory ∈ packageDirectories package, isRooted directory = false)
    (hpackage' : ∀ directory ∈ packageDirectories package', isRooted directory = false) :
    pathParts (unitPath package name) = pathParts (unitPath package' name') ↔
      packageParts package = packageParts package' ∧ name = name' := by
  rw [pathParts_unitPath h hpackage, pathParts_unitPath h' hpackage']
  constructor
  · intro heq
    obtain ⟨hparts, hfile⟩ := List.append_inj' heq rfl
    have hchars := congrArg String.toList (List.singleton_inj.mp hfile)
    rw [String.toList_append, String.toList_append, List.append_cancel_right_eq] at hchars
    exact ⟨hparts, String.toList_inj.mp hchars⟩
  · rintro ⟨hparts, rfl⟩
    rw [hparts]

/-! ## Dotted names -/

/-- Whether a package has a name of identifiers with points between them. The unnamed package has none of them. -/
def IsDotted (package : String) : Prop :=
  package = "" ∨ ∀ part ∈ Text.splitString '.' package, nameFault? part = none

instance (package : String) : Decidable (IsDotted package) := inferInstanceAs (Decidable (_ ∨ _))

theorem ne_empty_of_nameFault? (h : nameFault? name = none) : name ≠ "" := by
  rintro rfl
  exact absurd h (by decide)

theorem packageDirectories_of_isDotted (h : IsDotted package) :
    packageDirectories package = if package = "" then [] else Text.splitString '.' package := by
  split
  · rename_i hempty
    rw [hempty]
    rfl
  · rename_i hempty
    refine List.filter_eq_self.mpr fun part hpart ↦ ?_
    simpa using ne_empty_of_nameFault? (h.resolve_left hempty part hpart)

theorem nameFault?_of_mem_packageDirectories (h : IsDotted package) {directory : String}
    (hdirectory : directory ∈ packageDirectories package) : nameFault? directory = none := by
  rw [packageDirectories_of_isDotted h] at hdirectory
  split at hdirectory
  · cases hdirectory
  · rename_i hempty
    exact h.resolve_left hempty directory hdirectory

theorem packageParts_of_isDotted (h : IsDotted package) : packageParts package = packageDirectories package := by
  have hparts : ∀ directory ∈ packageDirectories package, pathParts directory = [directory] := by
    intro directory hdirectory
    have hname := nameFault?_of_mem_packageDirectories h hdirectory
    exact pathParts_of_notMem (ne_empty_of_nameFault? hname) (slash_notMem_of_identifier hname)
  rw [packageParts, List.flatMap_congr hparts]
  exact List.flatMap_singleton' _

/-- Packages with dotted names do not share their directories. -/
theorem eq_of_packageParts_eq {package' : String} (h : IsDotted package) (h' : IsDotted package')
    (heq : packageParts package = packageParts package') : package = package' := by
  rw [packageParts_of_isDotted h, packageParts_of_isDotted h', packageDirectories_of_isDotted h,
    packageDirectories_of_isDotted h'] at heq
  have hne : ∀ s : String, Text.splitString '.' s ≠ [] := fun s ↦ by simp [Text.splitString, Text.splitAll_ne_nil]
  split at heq
  · rename_i hempty
    split at heq
    · rename_i hempty'
      rw [hempty, hempty']
    · exact absurd heq.symm (hne package')
  · split at heq
    · exact absurd heq (hne package)
    · have hpieces : Text.splitAll '.' package.toList = Text.splitAll '.' package'.toList :=
        List.map_injective_iff.mpr (fun _ _ hchars ↦ String.ofList_injective hchars) heq
      refine String.toList_inj.mp ?_
      rw [← Text.joinAll_splitAll '.' package.toList, hpieces, Text.joinAll_splitAll]

end JavaSource
