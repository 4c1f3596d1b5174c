import Mathlib.Logic.Relation
import JavaSource.Proofs.Model.Enclosing
import JavaSource.Proofs.Model.Operation

/-!
# How a model grows

All that an operation can do to packages and class entries is to add one package or one class at a time, or to
change the members of one class. Here are the additions, each with what it asks for, and the entries that they
leave behind.
-/

namespace JavaSource

namespace Model

/-! ## Entries after a change -/

theorem entry_of_not_knows {m : Model} {c : ClassId} (h : ¬ m.Knows c) : m.entry c = default := by
  simp [entry, List.getElem?_eq_none (Nat.le_of_not_lt h)]

theorem entry_of_forall {m : Model} {P : ClassEntry → Prop} (hdefault : P default)
    (h : ∀ e ∈ m.classes, P e) (c : ClassId) : P (m.entry c) := by
  unfold entry
  cases he : m.classes[c.index]? with
  | none => exact hdefault
  | some e => exact h e (List.mem_of_getElem? he)

theorem packageEntry_of_not_knows {m : Model} {p : PackageId} (h : ¬ m.KnowsPackage p) :
    m.packageEntry p = default := by
  simp [packageEntry, List.getElem?_eq_none (Nat.le_of_not_lt h)]

theorem entry_pushClass (m : Model) (e : ClassEntry) (c : ClassId) :
    (m.pushClass e).entry c = if c = m.nextClass then e else m.entry c := by
  split
  · rename_i hc
    simp [hc, entry, pushClass, nextClass]
  · rename_i hc
    have hne : c.index ≠ m.classes.length := fun h ↦ hc (ClassId.eq_of_index_eq h)
    rcases Nat.lt_or_gt_of_ne hne with h | h
    · simp [entry, pushClass, List.getElem?_append_left h]
    · have h₁ : m.classes.length ≤ c.index := by omega
      have h₂ : (m.classes ++ [e]).length ≤ c.index := by simp; omega
      simp [entry, pushClass, List.getElem?_eq_none h₁, List.getElem?_eq_none h₂]

theorem entry_modifyClass (m : Model) (c : ClassId) (f : ClassEntry → ClassEntry) (d : ClassId) :
    (m.modifyClass c f).entry d = if d = c ∧ m.Knows c then f (m.entry d) else m.entry d := by
  split
  · rename_i h
    obtain ⟨rfl, hd⟩ := h
    simp [entry, modifyClass, List.getElem?_eq_getElem (show d.index < m.classes.length from hd)]
  · rename_i h
    by_cases hdc : d = c
    · subst hdc
      have hd : ¬ m.Knows d := fun hd ↦ h ⟨rfl, hd⟩
      have hd' : ¬ (m.modifyClass d f).Knows d := by simpa [Knows] using hd
      rw [entry_of_not_knows hd, entry_of_not_knows hd']
    · exact entry_modifyClass_ne m (Ne.symm hdc) f

theorem packageEntry_pushPackage (m : Model) (name : String) (p : PackageId) :
    (m.pushPackage name).packageEntry p =
      if p = m.nextPackage then Package.mk name {} else m.packageEntry p := by
  split
  · rename_i hp
    simp [hp, packageEntry, pushPackage, nextPackage]
  · rename_i hp
    have hne : p.index ≠ m.packages.length := fun h ↦ hp (PackageId.eq_of_index_eq h)
    rcases Nat.lt_or_gt_of_ne hne with h | h
    · simp [packageEntry, pushPackage, List.getElem?_append_left h]
    · have h₁ : m.packages.length ≤ p.index := by omega
      have h₂ : (m.packages ++ [Package.mk name {}]).length ≤ p.index := by simp; omega
      simp [packageEntry, pushPackage, List.getElem?_eq_none h₁, List.getElem?_eq_none h₂]

/-! ## Additions -/

def addAnonymous (m : Model) (base : ClassType) : Model :=
  m.pushClass
    { id := m.nextClass, name := (m.entry base.basis).name, kind := .plain, origin := .anonymous,
      package := (m.entry base.basis).package, outer := none, superclass := some base }

def addPlaceholder (m : Model) (name : String) : Model :=
  { m.pushClass
      { id := m.nextClass, name, kind := .plain, origin := .placeholder, package := rootPackage,
        outer := none } with
    placeholders := m.placeholders.insert name m.nextClass }

section Entries

variable (m : Model) (p : PackageId) (o : ClassId) (base : ClassType) (name : String) (kind : ClassKind)
  (origin : Origin) (mods : Modifiers)

@[simp] theorem length_classes_addTopLevel :
    (m.addTopLevel p name kind origin mods).classes.length = m.classes.length + 1 := by
  simp [addTopLevel, pushClass]

@[simp] theorem length_classes_addNested :
    (m.addNested o name kind origin mods).classes.length = m.classes.length + 1 := by
  simp [addNested, pushClass]

@[simp] theorem length_classes_addAnonymous :
    (m.addAnonymous base).classes.length = m.classes.length + 1 := by
  simp [addAnonymous, pushClass]

@[simp] theorem length_classes_addPlaceholder :
    (m.addPlaceholder name).classes.length = m.classes.length + 1 := by
  simp [addPlaceholder, pushClass]

@[simp] theorem length_packages_pushPackage :
    (m.pushPackage name).packages.length = m.packages.length + 1 := by
  simp [pushPackage]

@[simp] theorem length_packages_addTopLevel :
    (m.addTopLevel p name kind origin mods).packages.length = m.packages.length := by
  simp [addTopLevel, pushClass]

@[simp] theorem packages_addNested :
    (m.addNested o name kind origin mods).packages = m.packages := rfl

@[simp] theorem packages_addAnonymous : (m.addAnonymous base).packages = m.packages := rfl

@[simp] theorem packages_addPlaceholder : (m.addPlaceholder name).packages = m.packages := rfl

@[simp] theorem entry_pushPackage (c : ClassId) : (m.pushPackage name).entry c = m.entry c := rfl

theorem entry_addTopLevel (c : ClassId) :
    (m.addTopLevel p name kind origin mods).entry c =
      if c = m.nextClass then
        { id := m.nextClass, name, kind, origin, package := p, outer := none, mods }
      else m.entry c :=
  entry_pushClass m _ c

theorem entry_addAnonymous (c : ClassId) :
    (m.addAnonymous base).entry c =
      if c = m.nextClass then
        { id := m.nextClass, name := (m.entry base.basis).name, kind := .plain,
          origin := .anonymous, package := (m.entry base.basis).package, outer := none,
          superclass := some base }
      else m.entry c :=
  entry_pushClass m _ c

theorem entry_addPlaceholder (c : ClassId) :
    (m.addPlaceholder name).entry c =
      if c = m.nextClass then
        { id := m.nextClass, name, kind := .plain, origin := .placeholder, package := rootPackage,
          outer := none }
      else m.entry c :=
  entry_pushClass m _ c

theorem entry_addNested (ho : m.Knows o) (c : ClassId) :
    (m.addNested o name kind origin mods).entry c =
      if c = m.nextClass then
        { id := m.nextClass, name, kind, origin, package := (m.entry o).package, outer := some o, mods }
      else if c = o then { m.entry o with nested := (m.entry o).nested.insert name m.nextClass }
      else m.entry c := by
  have hne : o ≠ m.nextClass := by
    rintro rfl
    exact Nat.lt_irrefl _ ho
  have ho' : ∀ e, (m.pushClass e).Knows o := fun e ↦ by
    simpa [Knows, pushClass] using Nat.lt_succ_of_lt ho
  simp only [addNested, entry_modifyClass, entry_pushClass, ho', and_true]
  by_cases hc : c = o
  · simp [hc, hne]
  · simp [hc]

theorem packageEntry_addTopLevel (hp : m.KnowsPackage p) (q : PackageId) :
    (m.addTopLevel p name kind origin mods).packageEntry q =
      if q = p then
        { m.packageEntry q with classes := (m.packageEntry q).classes.insert name m.nextClass }
      else m.packageEntry q := by
  by_cases hq : q = p
  · subst hq
    simp [packageEntry, addTopLevel, pushClass,
      List.getElem?_eq_getElem (show q.index < m.packages.length from hp)]
  · have hne : p.index ≠ q.index := fun h ↦ hq (PackageId.eq_of_index_eq h.symm)
    simp [packageEntry, addTopLevel, pushClass, hq, hne]

end Entries

end Model

/-- Whether an entry stands in the table of its package or of the class around it. -/
def ClassEntry.IsListed (e : ClassEntry) : Prop := e.origin = .defined ∨ e.origin = .external

/-- Two entries of one class at different times: what was settled when the class was made is the same. -/
structure ClassEntry.SameOrigin (e f : ClassEntry) : Prop where
  id : f.id = e.id
  name : f.name = e.name
  kind : f.kind = e.kind
  origin : f.origin = e.origin
  package : f.package = e.package
  outer : f.outer = e.outer

theorem ClassEntry.SameOrigin.refl (e : ClassEntry) : e.SameOrigin e := ⟨rfl, rfl, rfl, rfl, rfl, rfl⟩

theorem ClassEntry.SameOrigin.isListed_iff {e f : ClassEntry} (h : e.SameOrigin f) :
    f.IsListed ↔ e.IsListed := by
  rw [IsListed, IsListed, h.origin]

theorem ClassEntry.SameOrigin.trans {e f g : ClassEntry} (h : e.SameOrigin f) (k : f.SameOrigin g) :
    e.SameOrigin g :=
  ⟨k.id.trans h.id, k.name.trans h.name, k.kind.trans h.kind, k.origin.trans h.origin,
    k.package.trans h.package, k.outer.trans h.outer⟩

/-- An entry without members and annotations. -/
structure ClassEntry.IsBare (e : ClassEntry) : Prop where
  fields : e.fields = []
  methods : e.methods = []
  annotations : e.annotations = []

namespace Model

/-- The entry of a class is the same in two models, but for the classes that were entered inside it. -/
def SameMembers (m n : Model) (c : ClassId) : Prop := ∃ nested, n.entry c = { m.entry c with nested }

/-- What a new entry has to meet. -/
structure Enterable (m : Model) (e : ClassEntry) : Prop where
  id_eq : e.id = m.nextClass
  nested_eq : e.nested = {}
  package_known : m.KnowsPackage e.package
  package_placeholder : e.origin = .placeholder → e.package = rootPackage
  mentions_known : ∀ x ∈ e.mentions, ∀ c ∈ x.classes, m.Knows c
  bare : e.IsBare
  name_valid : e.IsListed → nameFault? e.name = none
  top_free : e.IsListed → e.outer = none → (m.packageEntry e.package).classes.get? e.name = none
  inner_listed : ∀ o, e.outer = some o → e.IsListed
  inner_free : ∀ o, e.outer = some o → m.Knows o ∧ (m.entry o).nested.get? e.name = none
  inner_package : ∀ o, e.outer = some o → e.package = (m.entry o).package
  inner_defined : ∀ o, e.outer = some o → (e.origin = .defined ↔ (m.entry o).origin = .defined)
  inner_apart : ∀ o, e.outer = some o → e.origin = .defined →
    ∀ d ∈ o :: m.outers o, (m.entry d).name ≠ e.name

/-- The model `n` is `m` with one more entry, put into the table where it belongs. -/
structure Entered (m : Model) (e : ClassEntry) (n : Model) : Prop where
  length_classes : n.classes.length = m.classes.length + 1
  length_packages : n.packages.length = m.packages.length
  entry_new : n.entry m.nextClass = e
  entry_old : ∀ c, m.Knows c → n.entry c = { m.entry c with
    nested := if e.outer = some c then (m.entry c).nested.insert e.name m.nextClass
      else (m.entry c).nested }
  packageNames : n.packages.map (·.name) = m.packages.map (·.name)
  package_other : ∀ p, ¬ (e.IsListed ∧ e.outer = none ∧ p = e.package) →
    (n.packageEntry p).classes = (m.packageEntry p).classes
  package_own : e.IsListed → e.outer = none →
    (n.packageEntry e.package).classes = (m.packageEntry e.package).classes.insert e.name m.nextClass

/-- Where new classes may go: inside certain classes, in certain packages when they are defined there at the top
level, and in bodies of instance creations. -/
structure Sites where
  inner : ClassId → Prop
  top : PackageId → Prop
  bodies : Prop

/-- A new entry is at one of the sites. External classes take classes from anywhere. -/
structure Sites.Take (s : Sites) (m : Model) (e : ClassEntry) : Prop where
  inner : ∀ o, e.outer = some o → s.inner o ∨ (m.entry o).origin = .external
  top : e.origin = .defined → e.outer = none → s.top e.package
  bodies : e.origin = .anonymous → s.bodies

/-- One addition to a model. -/
inductive Addition (s : Sites) (m : Model) : Model → Prop
  | package {name : String} (hfree : m.findPackage? name = none) : Addition s m (m.pushPackage name)
  | class {e : ClassEntry} {n : Model} (he : m.Enterable e) (hn : m.Entered e n) (hs : s.Take m e) :
      Addition s m n

theorem ne_nextClass_of_knows {m : Model} {c : ClassId} (hc : m.Knows c) : c ≠ m.nextClass := by
  rintro rfl
  exact Nat.lt_irrefl _ hc

namespace Entered

variable {m n : Model} {e : ClassEntry}

theorem knows_iff (h : m.Entered e n) {c : ClassId} : n.Knows c ↔ m.Knows c ∨ c = m.nextClass := by
  have heq : c = m.nextClass ↔ c.index = m.classes.length :=
    ⟨fun hc ↦ hc ▸ rfl, fun hc ↦ ClassId.eq_of_index_eq hc⟩
  simp only [Knows, h.length_classes, heq]
  omega

theorem knows_new (h : m.Entered e n) : n.Knows m.nextClass := h.knows_iff.mpr (Or.inr rfl)

theorem knowsPackage_iff (h : m.Entered e n) {p : PackageId} : n.KnowsPackage p ↔ m.KnowsPackage p := by
  simp [KnowsPackage, h.length_packages]

theorem sameOrigin (h : m.Entered e n) {c : ClassId} (hc : m.Knows c) :
    (m.entry c).SameOrigin (n.entry c) := by
  rw [h.entry_old c hc]
  exact ⟨rfl, rfl, rfl, rfl, rfl, rfl⟩

theorem mentions_old (h : m.Entered e n) {c : ClassId} (hc : m.Knows c) :
    (n.entry c).mentions = (m.entry c).mentions := by
  rw [h.entry_old c hc]
  rfl

theorem packageName (h : m.Entered e n) (p : PackageId) :
    (n.packageEntry p).name = (m.packageEntry p).name := by
  have hp : (n.packages.map (·.name))[p.index]? = (m.packages.map (·.name))[p.index]? := by
    rw [h.packageNames]
  simp only [List.getElem?_map] at hp
  simp only [packageEntry]
  cases hn : n.packages[p.index]? <;> cases hm : m.packages[p.index]? <;> simp_all

end Entered

theorem entered_addTopLevel {m : Model} {p : PackageId} (hp : m.KnowsPackage p) (name : String)
    (kind : ClassKind) {origin : Origin} (horigin : origin = .defined ∨ origin = .external)
    (mods : Modifiers) :
    m.Entered { id := m.nextClass, name, kind, origin, package := p, outer := none, mods }
      (m.addTopLevel p name kind origin mods) where
  length_classes := by simp
  length_packages := by simp
  entry_new := by simp [entry_addTopLevel]
  entry_old c hc := by simp [entry_addTopLevel, ne_nextClass_of_knows hc]
  packageNames := by
    refine List.ext_getElem? fun i ↦ ?_
    simp only [addTopLevel, pushClass, List.getElem?_map, List.getElem?_modify]
    cases m.packages[i]? <;> simp [apply_ite Package.name]
  package_other q hq := by
    have hne : q ≠ p := fun h ↦ hq ⟨horigin, rfl, h⟩
    simp [packageEntry_addTopLevel m p name kind origin mods hp, hne]
  package_own _ _ := by simp [packageEntry_addTopLevel m p name kind origin mods hp]

theorem entered_addNested {m : Model} {o : ClassId} (ho : m.Knows o) (name : String) (kind : ClassKind)
    (origin : Origin) (mods : Modifiers) :
    m.Entered
      { id := m.nextClass, name, kind, origin, package := (m.entry o).package, outer := some o, mods }
      (m.addNested o name kind origin mods) where
  length_classes := by simp
  length_packages := by simp
  entry_new := by simp [entry_addNested m o name kind origin mods ho]
  entry_old c hc := by
    simp only [entry_addNested m o name kind origin mods ho, ne_nextClass_of_knows hc, if_false,
      Option.some.injEq, eq_comm (a := o)]
    split
    · rename_i h
      simp [h]
    · rfl
  packageNames := rfl
  package_other _ _ := rfl
  package_own _ h := by simp at h

theorem entered_addAnonymous (m : Model) (base : ClassType) :
    m.Entered
      { id := m.nextClass, name := (m.entry base.basis).name, kind := .plain, origin := .anonymous,
        package := (m.entry base.basis).package, outer := none, superclass := some base }
      (m.addAnonymous base) where
  length_classes := by simp
  length_packages := by simp
  entry_new := by simp [entry_addAnonymous]
  entry_old c hc := by simp [entry_addAnonymous, ne_nextClass_of_knows hc]
  packageNames := rfl
  package_other _ _ := rfl
  package_own h _ := by simp [ClassEntry.IsListed] at h

theorem entered_addPlaceholder (m : Model) (name : String) :
    m.Entered
      { id := m.nextClass, name, kind := .plain, origin := .placeholder, package := rootPackage,
        outer := none }
      (m.addPlaceholder name) where
  length_classes := by simp
  length_packages := by simp
  entry_new := by simp [entry_addPlaceholder]
  entry_old c hc := by simp [entry_addPlaceholder, ne_nextClass_of_knows hc]
  packageNames := rfl
  package_other _ _ := rfl
  package_own h _ := by simp [ClassEntry.IsListed] at h

end Model
end JavaSource
