import JavaSource.Proofs.Model.Frame

/-!
# Names and the classes they lead to

A name that has been looked up leads to a class, and it leads to that class in every later model: tables only
hold what the entries say, and a later model keeps names and places of entries.
-/

namespace JavaSource

theorem Build.exec_bind_eq_ok {α β : Type} {b : Build α} {f : α → Build β} {m n : Model} {v : β} :
    (b >>= f).exec m = (.ok v, n) ↔ ∃ a k, b.exec m = (.ok a, k) ∧ (f a).exec k = (.ok v, n) := by
  rw [exec_bind]
  rcases b.exec m with ⟨_ | a, k⟩ <;> simp

namespace Model

variable {m n : Model}

theorem findPackage?_eq_some_iff (hm : m.WellFormed) {name : String} {p : PackageId} :
    m.findPackage? name = some p ↔ m.KnowsPackage p ∧ (m.packageEntry p).name = name := by
  constructor
  · intro h
    refine ⟨knowsPackage_of_findPackage? h, ?_⟩
    obtain ⟨i, hi, rfl⟩ := Option.map_eq_some_iff.mp h
    obtain ⟨hlt, hname, -⟩ := List.findIdx?_eq_some_iff_getElem.mp hi
    simpa [packageEntry, List.getElem?_eq_getElem hlt] using hname
  · rintro ⟨hp, hname⟩
    have hp' : p.index < m.packages.length := hp
    have hget : (m.packageEntry p).name = m.packages[p.index].name := by
      simp [packageEntry, List.getElem?_eq_getElem hp']
    rw [findPackage?, Option.map_eq_some_iff]
    refine ⟨p.index, List.findIdx?_eq_some_iff_getElem.mpr ⟨hp', by simp [← hget, hname], ?_⟩, rfl⟩
    intro j hj hjname
    have hj' : j < (m.packages.map (·.name)).length := by
      rw [List.length_map]
      omega
    have hi' : p.index < (m.packages.map (·.name)).length := by rwa [List.length_map]
    have hsame : (m.packages.map (·.name)).get ⟨j, hj'⟩ = (m.packages.map (·.name)).get ⟨p.index, hi'⟩ := by
      simpa [← hget, hname] using hjname
    have heq := (List.Nodup.get_inj_iff hm.packageNames).mp hsame
    rw [Fin.mk.injEq] at heq
    omega

theorem get?_classes_eq_some_iff (hm : m.WellFormed) {p : PackageId} {name : String} {c : ClassId} :
    (m.packageEntry p).classes.get? name = some c ↔
      m.Knows c ∧ (m.entry c).IsListed ∧ (m.entry c).name = name ∧ (m.entry c).package = p ∧
        (m.entry c).outer = none := by
  constructor
  · exact fun h ↦ hm.of_mem_classes p name c (Table.mem_entries_of_get? h)
  · rintro ⟨hc, hlisted, rfl, rfl, houter⟩
    exact hm.listed_top c hc hlisted houter

theorem get?_nested_eq_some_iff (hm : m.WellFormed) {o : ClassId} {name : String} {c : ClassId} :
    (m.entry o).nested.get? name = some c ↔ (m.entry c).outer = some o ∧ (m.entry c).name = name := by
  constructor
  · intro h
    obtain ⟨-, -, hname, -, houter⟩ := hm.of_mem_nested o name c (Table.mem_entries_of_get? h)
    exact ⟨houter, hname⟩
  · rintro ⟨houter, rfl⟩
    exact (hm.listed_inner c o houter).2

theorem mem_nested_values_iff (hm : m.WellFormed) {o c : ClassId} :
    c ∈ (m.entry o).nested.values ↔ (m.entry c).outer = some o := by
  rw [Table.mem_values]
  constructor
  · rintro ⟨name, hc⟩
    exact (hm.of_mem_nested o name c hc).2.2.2.2
  · intro ho
    exact ⟨_, Table.mem_entries_of_get? (hm.listed_inner c o ho).2⟩

/-! ## Later models -/

section Later

variable (h : m.Extends n) (hm : m.WellFormed) (hn : n.WellFormed)
include h hm hn

theorem Extends.findPackage? {name : String} {p : PackageId} (hp : m.findPackage? name = some p) :
    n.findPackage? name = some p := by
  obtain ⟨hknown, hname⟩ := (findPackage?_eq_some_iff hm).mp hp
  exact (findPackage?_eq_some_iff hn).mpr ⟨h.knowsPackage hknown, (h.packageName p hknown).trans hname⟩

theorem Extends.get?_classes {p : PackageId} {name : String} {c : ClassId}
    (hc : (m.packageEntry p).classes.get? name = some c) :
    (n.packageEntry p).classes.get? name = some c := by
  obtain ⟨hknown, hlisted, hname, hpackage, houter⟩ := (get?_classes_eq_some_iff hm).mp hc
  have hsame := h.sameOrigin c hknown
  exact (get?_classes_eq_some_iff hn).mpr ⟨h.knows hknown, hsame.isListed_iff.mpr hlisted,
    hsame.name.trans hname, hsame.package.trans hpackage, hsame.outer.trans houter⟩

theorem Extends.get?_nested {o : ClassId} {name : String} {c : ClassId}
    (hc : (m.entry o).nested.get? name = some c) : (n.entry o).nested.get? name = some c := by
  obtain ⟨houter, hname⟩ := (get?_nested_eq_some_iff hm).mp hc
  have hsame := h.sameOrigin c (hm.knows_of_outer houter).1
  exact (get?_nested_eq_some_iff hn).mpr ⟨hsame.outer.trans houter, hsame.name.trans hname⟩

theorem Extends.lookupNested {c d : ClassId} {path : List String} (hd : m.lookupNested c path = some d) :
    n.lookupNested c path = some d := by
  induction path generalizing c with
  | nil => exact hd
  | cons name rest ih =>
      rw [Model.lookupNested] at hd ⊢
      split at hd
      · rename_i e he
        rw [h.get?_nested hm hn he]
        exact ih hd
      · cases hd

theorem Extends.lookup {q : String} {c : ClassId} (hc : m.lookup q = some c) : n.lookup q = some c := by
  unfold Model.lookup at hc ⊢
  simp only at hc ⊢
  split at hc
  · cases hc
  · rename_i p hp
    rw [h.findPackage? hm hn hp]
    split at hc
    · cases hc
    · rename_i top htop
      simp only [h.get?_classes hm hn htop]
      exact h.lookupNested hm hn hc

end Later

/-! ## References -/

/-- The sites of names. They enter classes in external classes only, and define none. -/
def nowhere : Sites := ⟨fun _ ↦ False, fun _ ↦ False, False⟩

theorem origin_ne_defined_of_new (hm : m.WellFormed) (h : Relation.ReflTransGen (Addition nowhere) m n)
    {d : ClassId} (hd : n.Knows d) (hnew : ¬ m.Knows d) : (n.entry d).origin ≠ .defined := by
  intro hdefined
  have htake := take_of_grown hm h hd hnew
  cases ho : (n.entry d).outer with
  | none => exact htake.top hdefined ho
  | some o =>
      have hexternal := (htake.inner o ho).resolve_left id
      have houter := ((hm.grow h).outer_defined d o ho).mp hdefined
      rw [hexternal] at houter
      cases houter

theorem entry_eq_of_defined (hm : m.WellFormed) (h : Relation.ReflTransGen (Addition nowhere) m n)
    {c : ClassId} (hc : m.Knows c) (hdefined : (m.entry c).origin = .defined) :
    n.entry c = m.entry c := by
  refine entry_eq_of_grown h hc fun d hd hnew ho ↦ ?_
  have hexternal := ((take_of_grown hm h hd hnew).inner c ho).resolve_left id
  rw [((extends_of_grown h).sameOrigin c hc).origin, hdefined] at hexternal
  cases hexternal

theorem findPackage?_of_package (hm : m.WellFormed) {name : String} {p : PackageId}
    (h : (package name).exec m = (.ok p, n)) : n.findPackage? name = some p := by
  unfold package at h
  rw [Build.exec_bind, Build.exec_get] at h
  simp only at h
  split at h
  · rename_i q hq
    obtain ⟨hp, rfl⟩ := Prod.mk.inj h
    cases hp
    exact hq
  · rename_i hfree
    obtain ⟨hp, rfl⟩ := Prod.mk.inj h
    cases hp
    rw [findPackage?_eq_some_iff (hm.pushPackage hfree)]
    refine ⟨?_, by simp [packageEntry_pushPackage]⟩
    show m.packages.length < (m.pushPackage name).packages.length
    simp

theorem get?_classes_of_referenceIn {p : PackageId} (hp : m.KnowsPackage p) {name : String} {c : ClassId}
    (h : (referenceIn p name).exec m = (.ok c, n)) :
    (n.packageEntry p).classes.get? name = some c := by
  unfold referenceIn at h
  rw [Build.exec_bind, Build.exec_get] at h
  simp only at h
  split at h
  · rename_i d hd
    obtain ⟨hc, rfl⟩ := Prod.mk.inj h
    cases hc
    exact hd
  · rw [Build.exec_bind, Build.exec_liftExcept] at h
    cases hname : checkName .type name with
    | error e => simp [hname] at h
    | ok u =>
        rw [hname] at h
        obtain ⟨hc, rfl⟩ := Prod.mk.inj h
        cases hc
        simp [packageEntry_addTopLevel m p name .plain .external .none hp]

theorem get?_nested_of_referenceNested {o : ClassId} (ho : m.Knows o) {name : String} {c : ClassId}
    (h : (referenceNested o name).exec m = (.ok c, n)) : (n.entry o).nested.get? name = some c := by
  unfold referenceNested at h
  rw [Build.exec_bind, Build.exec_get] at h
  simp only at h
  split at h
  · rename_i d hd
    obtain ⟨hc, rfl⟩ := Prod.mk.inj h
    cases hc
    exact hd
  · split at h
    · cases h
    · rw [Build.exec_bind, Build.exec_liftExcept] at h
      cases hname : checkName .type name with
      | error e => simp [hname] at h
      | ok u =>
          rw [hname] at h
          obtain ⟨hc, rfl⟩ := Prod.mk.inj h
          cases hc
          simp [entry_addNested m o name .plain .external .none ho, ne_nextClass_of_knows ho]

theorem lookupNested_of_referencePath {c d : ClassId} (hm : m.WellFormed)
    (hc : m.Knows c ∧ (m.entry c).IsListed) {path : List String}
    (h : (referencePath c path).exec m = (.ok d, n)) : n.lookupNested c path = some d := by
  induction path generalizing m c with
  | nil =>
      cases h
      rfl
  | cons name rest ih =>
      rw [referencePath, Build.exec_bind_eq_ok] at h
      obtain ⟨e, k, hfirst, hrest⟩ := h
      have hstep := growing_referenceNested (s := nowhere) hm hc.1 (Or.inr hc.2) name
      rw [hfirst] at hstep
      have hk := hm.grow hstep.grown
      have hpath := growing_referencePath (s := nowhere) hk (hstep.answer e rfl) rest
      rw [hrest] at hpath
      have hget := get?_nested_of_referenceNested hc.1 hfirst
      have hlater := (extends_of_grown hpath.grown).get?_nested hk (hk.grow hpath.grown) hget
      rw [lookupNested, hlater]
      exact ih hk (hstep.answer e rfl) hrest

/-- What a name refers to is found under the name from then on. -/
theorem lookup_of_reference (hm : m.WellFormed) {q : String} {c : ClassId}
    (h : (reference q).exec m = (.ok c, n)) : n.lookup q = some c := by
  unfold reference at h
  rw [Build.exec_bind, Build.exec_get] at h
  simp only at h
  split at h
  · cases h
  · rw [Build.exec_bind_eq_ok] at h
    obtain ⟨p, k, hpackage, h⟩ := h
    rw [Build.exec_bind_eq_ok] at h
    obtain ⟨top, l, htop, hpath⟩ := h
    have hgrown₁ := growing_package (s := nowhere) (m := m) (BinaryName.ofString q).package
    rw [hpackage] at hgrown₁
    have hk := hm.grow hgrown₁.grown
    have hp := hgrown₁.answer p rfl
    have hgrown₂ := growing_referenceIn (s := nowhere) hk hp (BinaryName.ofString q).top
    rw [htop] at hgrown₂
    have hl := hk.grow hgrown₂.grown
    have hgrown₃ := growing_referencePath (s := nowhere) hl (hgrown₂.answer top rfl)
      (BinaryName.ofString q).nested
    rw [hpath] at hgrown₃
    have hn := hl.grow hgrown₃.grown
    have hlast := extends_of_grown hgrown₃.grown
    have hfind := ((extends_of_grown hgrown₂.grown).trans hlast).findPackage? hk hn
      (findPackage?_of_package hm hpackage)
    have hget := hlast.get?_classes hl hn (get?_classes_of_referenceIn hp htop)
    simp only [lookup, hfind, hget]
    exact lookupNested_of_referencePath hl (hgrown₂.answer top rfl) hpath

/-! ## Names that are known -/

theorem exec_package_of_findPackage? {name : String} {p : PackageId} (h : m.findPackage? name = some p) :
    (package name).exec m = (.ok p, m) := by
  rw [package, Build.exec_bind, Build.exec_get]
  simp only [h]
  rfl

theorem exec_referenceIn_of_get? {p : PackageId} {name : String} {c : ClassId}
    (h : (m.packageEntry p).classes.get? name = some c) : (referenceIn p name).exec m = (.ok c, m) := by
  rw [referenceIn, Build.exec_bind, Build.exec_get]
  simp only [h]
  rfl

theorem exec_referenceNested_of_get? {o c : ClassId} {name : String}
    (h : (m.entry o).nested.get? name = some c) : (referenceNested o name).exec m = (.ok c, m) := by
  rw [referenceNested, Build.exec_bind, Build.exec_get]
  simp only [h]
  rfl

theorem nestedFault?_of_lookupNested {c d : ClassId} {path : List String}
    (h : m.lookupNested c path = some d) : m.nestedFault? (some c) path = none := by
  induction path generalizing c with
  | nil => rfl
  | cons name rest ih =>
      rw [lookupNested] at h
      split at h
      · rename_i e he
        rw [nestedFault?, he]
        exact ih h
      · cases h

theorem referencePath_of_lookupNested {c d : ClassId} {path : List String}
    (h : m.lookupNested c path = some d) : (referencePath c path).exec m = (.ok d, m) := by
  induction path generalizing c with
  | nil =>
      cases h
      rfl
  | cons name rest ih =>
      rw [lookupNested] at h
      split at h
      · rename_i e he
        rw [referencePath, Build.exec_bind_eq_ok]
        exact ⟨e, m, exec_referenceNested_of_get? he, ih h⟩
      · cases h

/-- To refer to a class that is found changes nothing. -/
theorem reference_of_lookup {q : String} {c : ClassId} (h : m.lookup q = some c) :
    (reference q).exec m = (.ok c, m) := by
  unfold lookup at h
  simp only at h
  split at h
  · cases h
  · rename_i p hp
    split at h
    · cases h
    · rename_i top htop
      have hfault : m.referenceFault? (BinaryName.ofString q) = none := by
        simp only [referenceFault?, hp, Option.bind_some, htop]
        exact nestedFault?_of_lookupNested h
      unfold reference
      rw [Build.exec_bind, Build.exec_get]
      simp only [hfault, Build.exec_bind, exec_package_of_findPackage? hp, exec_referenceIn_of_get? htop]
      exact referencePath_of_lookupNested h

/-! ## Models that have not grown -/

theorem Addition.lt {s : Sites} (h : Addition s m n) :
    m.classes.length + m.packages.length < n.classes.length + n.packages.length := by
  cases h with
  | package _ => simp [pushPackage]
  | «class» _ hn _ =>
      rw [hn.length_classes, hn.length_packages]
      omega

theorem eq_of_grown {s : Sites} (h : Relation.ReflTransGen (Addition s) m n)
    (hclasses : n.classes.length ≤ m.classes.length) (hpackages : n.packages.length ≤ m.packages.length) :
    n = m := by
  cases h with
  | refl => rfl
  | tail hmid hlast =>
      have hextends := extends_of_grown hmid
      have hlt := hlast.lt
      have hle₁ := hextends.classes
      have hle₂ := hextends.packages
      omega

end Model
end JavaSource
