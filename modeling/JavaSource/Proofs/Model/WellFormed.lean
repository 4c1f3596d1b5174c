import Mathlib.Data.List.Nodup
import JavaSource.Proofs.Model.Growth
import JavaSource.Proofs.Model.MemberStep

/-!
# Well-formed models

Handles and tables agree in both directions: an entry stands where its handle says, every class of a table
knows that it is in there, and every class that ought to be in a table is in it under its name. Entries
mention no class that the model does not have.
-/

namespace JavaSource

namespace Model

/-- Everything that holds between the entries and the tables of a model. -/
structure WellFormed (m : Model) : Prop where
  startPackages : ["", builtinName] <+: m.packages.map (·.name)
  knows_object : m.Knows object
  id_eq : ∀ c, m.Knows c → (m.entry c).id = c
  package_known : ∀ c, m.Knows c → m.KnowsPackage (m.entry c).package
  package_placeholder : ∀ c, (m.entry c).origin = .placeholder → (m.entry c).package = rootPackage
  mentions_known : ∀ c, ∀ x ∈ (m.entry c).mentions, ∀ d ∈ x.classes, m.Knows d
  packageNames : (m.packages.map (·.name)).Nodup
  classKeys : ∀ p, (m.packageEntry p).classes.keys.Nodup
  nestedKeys : ∀ o, (m.entry o).nested.keys.Nodup
  /-- What stands in the table of a package. -/
  of_mem_classes : ∀ p n c, (n, c) ∈ (m.packageEntry p).classes.entries →
    m.Knows c ∧ (m.entry c).IsListed ∧ (m.entry c).name = n ∧ (m.entry c).package = p ∧
      (m.entry c).outer = none
  /-- What stands in the table of a class. -/
  of_mem_nested : ∀ o n c, (n, c) ∈ (m.entry o).nested.entries →
    m.Knows c ∧ (m.entry c).IsListed ∧ (m.entry c).name = n ∧
      (m.entry c).package = (m.entry o).package ∧ (m.entry c).outer = some o
  listed_top : ∀ c, m.Knows c → (m.entry c).IsListed → (m.entry c).outer = none →
    (m.packageEntry (m.entry c).package).classes.get? (m.entry c).name = some c
  listed_inner : ∀ c o, (m.entry c).outer = some o →
    (m.entry c).IsListed ∧ (m.entry o).nested.get? (m.entry c).name = some c
  outer_below : m.OutersBelow
  outer_defined : ∀ c o, (m.entry c).outer = some o →
    ((m.entry c).origin = .defined ↔ (m.entry o).origin = .defined)
  name_valid : ∀ c, m.Knows c → (m.entry c).IsListed → nameFault? (m.entry c).name = none
  /-- A defined class has the name of none of its enclosing classes. -/
  apart : ∀ c, (m.entry c).origin = .defined → ∀ d ∈ m.outers c, (m.entry d).name ≠ (m.entry c).name

/-! ## The start -/

theorem knows_initial_iff {c : ClassId} : initial.Knows c ↔ c = object := by
  have hlen : initial.classes.length = 1 := rfl
  constructor
  · intro hc
    exact ClassId.eq_of_index_eq (Nat.lt_one_iff.mp (hlen ▸ hc))
  · rintro rfl
    exact Nat.zero_lt_one

theorem entry_initial (c : ClassId) :
    initial.entry c = initial.entry object ∨ initial.entry c = default := by
  by_cases hc : initial.Knows c
  · exact Or.inl (congrArg _ (knows_initial_iff.mp hc))
  · exact Or.inr (entry_of_not_knows hc)

theorem mem_classes_initial {p : PackageId} {x : String × ClassId}
    (hx : x ∈ (initial.packageEntry p).classes.entries) :
    p = builtinPackage ∧ x = ("Object", object) := by
  obtain ⟨_ | _ | i⟩ := p
  · simp [packageEntry, initial] at hx
  · exact ⟨rfl, by simpa [packageEntry, initial] using hx⟩
  · simp [packageEntry, initial, default] at hx

theorem wellFormed_initial : initial.WellFormed := by
  have houter : ∀ c, (initial.entry c).outer = none := fun c ↦ by
    rcases entry_initial c with h | h <;> rw [h] <;> rfl
  have hnested : ∀ c, (initial.entry c).nested.entries = [] := fun c ↦ by
    rcases entry_initial c with h | h <;> rw [h] <;> rfl
  constructor
  case startPackages => exact List.prefix_refl _
  case knows_object => exact knows_initial_iff.mpr rfl
  case id_eq =>
    intro c hc
    rw [knows_initial_iff.mp hc]
    rfl
  case package_known =>
    intro c hc
    rw [knows_initial_iff.mp hc]
    exact Nat.one_lt_two
  case package_placeholder =>
    intro c hc
    rcases entry_initial c with h | h <;> rw [h] at hc <;> cases hc
  case mentions_known =>
    intro c x hx
    rcases entry_initial c with h | h <;> rw [h] at hx <;> cases hx
  case packageNames => decide
  case classKeys =>
    rintro ⟨_ | _ | i⟩ <;> simp [packageEntry, initial, Table.keys, default]
  case nestedKeys =>
    intro o
    rw [Table.keys, hnested]
    exact List.nodup_nil
  case of_mem_classes =>
    intro p n c hx
    obtain ⟨rfl, hobject⟩ := mem_classes_initial hx
    obtain ⟨rfl, rfl⟩ := Prod.mk.inj hobject
    exact ⟨knows_initial_iff.mpr rfl, Or.inr rfl, rfl, rfl, rfl⟩
  case of_mem_nested =>
    intro o n c hx
    rw [hnested] at hx
    cases hx
  case listed_top =>
    intro c hc _ _
    rw [knows_initial_iff.mp hc]
    rfl
  case listed_inner =>
    intro c o ho
    rw [houter] at ho
    cases ho
  case outer_below =>
    intro c o ho
    rw [houter] at ho
    cases ho
  case outer_defined =>
    intro c o ho
    rw [houter] at ho
    cases ho
  case name_valid =>
    intro c hc _
    rw [knows_initial_iff.mp hc]
    decide
  case apart =>
    intro c _ d hd
    rw [outers_of_outer_eq_none (houter c)] at hd
    cases hd

/-! ## Adding an entry -/

section Enter

variable {m n : Model} {e : ClassEntry}

theorem Entered.outer_cases (hn : m.Entered e n) {c o : ClassId} (ho : (n.entry c).outer = some o) :
    (c = m.nextClass ∧ e.outer = some o) ∨ (m.Knows c ∧ (m.entry c).outer = some o) := by
  by_cases hc : n.Knows c
  · rcases hn.knows_iff.mp hc with hc | rfl
    · exact Or.inr ⟨hc, (hn.sameOrigin hc).outer ▸ ho⟩
    · exact Or.inl ⟨rfl, hn.entry_new ▸ ho⟩
  · simp [entry_of_not_knows hc, default] at ho

theorem WellFormed.knows_of_outer (hm : m.WellFormed) {c o : ClassId}
    (ho : (m.entry c).outer = some o) : m.Knows c ∧ m.Knows o := by
  have hc : m.Knows c := by
    by_contra hc
    simp [entry_of_not_knows hc, default] at ho
  exact ⟨hc, Nat.lt_trans (hm.outer_below c o ho) hc⟩

/-- A table of a package is as it was, or has gained the new class. -/
theorem Entered.mem_classes_cases (he : m.Enterable e) (hn : m.Entered e n) {p : PackageId}
    {x : String × ClassId} (hx : x ∈ (n.packageEntry p).classes.entries) :
    x ∈ (m.packageEntry p).classes.entries ∨
      (e.IsListed ∧ e.outer = none ∧ p = e.package ∧ x = (e.name, m.nextClass)) := by
  by_cases h : e.IsListed ∧ e.outer = none ∧ p = e.package
  · obtain ⟨hl, ho, rfl⟩ := h
    rw [hn.package_own hl ho, Table.mem_entries_insert_of_get?_eq_none (he.top_free hl ho)] at hx
    rcases hx with hx | hx
    · exact Or.inl hx
    · exact Or.inr ⟨hl, ho, rfl, hx⟩
  · exact Or.inl (hn.package_other p h ▸ hx)

theorem Entered.mem_nested_cases (he : m.Enterable e) (hn : m.Entered e n) {o : ClassId}
    {x : String × ClassId} (hx : x ∈ (n.entry o).nested.entries) :
    (m.Knows o ∧ x ∈ (m.entry o).nested.entries) ∨
      (e.outer = some o ∧ x = (e.name, m.nextClass)) := by
  by_cases hk : n.Knows o
  · rcases hn.knows_iff.mp hk with hk | rfl
    · rw [hn.entry_old o hk] at hx
      by_cases ho : e.outer = some o
      · simp only [ho, if_true] at hx
        rw [Table.mem_entries_insert_of_get?_eq_none (he.inner_free o ho).2] at hx
        rcases hx with hx | hx
        · exact Or.inl ⟨hk, hx⟩
        · exact Or.inr ⟨ho, hx⟩
      · simp only [ho, if_false] at hx
        exact Or.inl ⟨hk, hx⟩
    · simp [hn.entry_new, he.nested_eq] at hx
  · simp [entry_of_not_knows hk, default] at hx

theorem Entered.outers_old (hm : m.WellFormed) (hn : m.Entered e n) {c : ClassId} (hc : m.Knows c) :
    n.outers c = m.outers c :=
  outers_congr m.Knows (fun _ _ _ ho ↦ (hm.knows_of_outer ho).2)
    (fun _ hd ↦ (hn.sameOrigin hd).outer) hc

theorem Entered.outersBelow (hm : m.WellFormed) (he : m.Enterable e) (hn : m.Entered e n) :
    n.OutersBelow := by
  intro c o ho
  rcases hn.outer_cases ho with ⟨rfl, hnew⟩ | ⟨_, hold⟩
  · exact (he.inner_free o hnew).1
  · exact hm.outer_below c o hold

theorem WellFormed.knows_of_mem_outers (hm : m.WellFormed) {c d : ClassId} (hd : d ∈ m.outers c) :
    m.Knows d := by
  have hc : m.Knows c := by
    by_contra hc
    rw [outers_of_outer_eq_none (by simp [entry_of_not_knows hc, default])] at hd
    simp at hd
  exact Nat.lt_trans (index_lt_of_mem_outers hm.outer_below hd) hc

/-- What is inside a defined class is defined, and the other way round. -/
theorem WellFormed.defined_iff_of_mem_outers (hm : m.WellFormed) {c o : ClassId} (ho : o ∈ m.outers c) :
    (m.entry c).origin = .defined ↔ (m.entry o).origin = .defined := by
  induction c using outer_induction hm.outer_below with
  | top c hc =>
      rw [outers_of_outer_eq_none hc] at ho
      cases ho
  | inner c d hd ih =>
      rw [outers_of_outer_eq_some hm.outer_below hd] at ho
      rw [hm.outer_defined c d hd]
      rcases List.mem_cons.mp ho with rfl | ho
      · rfl
      · exact ih ho

/-- Of a class that was there, an addition keeps what the class around it and its package hold of it. -/
theorem WellFormed.listed_old (hm : m.WellFormed) (he : m.Enterable e) (hn : m.Entered e n)
    {c : ClassId} (hc : m.Knows c) (hl : (m.entry c).IsListed) :
    ((m.entry c).outer = none →
      (n.packageEntry (m.entry c).package).classes.get? (m.entry c).name = some c) ∧
    ∀ o, (m.entry c).outer = some o → (n.entry o).nested.get? (m.entry c).name = some c := by
  constructor
  · intro ho
    have hget := hm.listed_top c hc hl ho
    by_cases h : e.IsListed ∧ e.outer = none ∧ (m.entry c).package = e.package
    · obtain ⟨hel, heo, hp⟩ := h
      have hne : e.name ≠ (m.entry c).name := by
        intro hname
        have hfree := he.top_free hel heo
        rw [← hp, hname, hget] at hfree
        cases hfree
      rw [hp, hn.package_own hel heo, Table.get?_insert, if_neg hne, ← hp, hget]
    · rw [hn.package_other _ h, hget]
  · intro o ho
    have hget := (hm.listed_inner c o ho).2
    rw [hn.entry_old o (hm.knows_of_outer ho).2]
    by_cases h : e.outer = some o
    · have hne : e.name ≠ (m.entry c).name := by
        intro hname
        have hfree := (he.inner_free o h).2
        rw [hname, hget] at hfree
        cases hfree
      simp only [h, if_true, Table.get?_insert, if_neg hne, hget]
    · simp only [h, if_false, hget]

theorem Entered.isListed_iff (hn : m.Entered e n) {c : ClassId} (hc : m.Knows c) :
    (n.entry c).IsListed ↔ (m.entry c).IsListed :=
  (hn.sameOrigin hc).isListed_iff

theorem WellFormed.of_mem_classes_enter (hm : m.WellFormed) (he : m.Enterable e) (hn : m.Entered e n)
    {p : PackageId} {name : String} {c : ClassId} (hc : (name, c) ∈ (n.packageEntry p).classes.entries) :
    n.Knows c ∧ (n.entry c).IsListed ∧ (n.entry c).name = name ∧ (n.entry c).package = p ∧
      (n.entry c).outer = none := by
  rcases hn.mem_classes_cases he hc with hc | ⟨hl, ho, rfl, hnew⟩
  · obtain ⟨hk, hl, hname, hp, ho⟩ := hm.of_mem_classes p name c hc
    have hs := hn.sameOrigin hk
    exact ⟨hn.knows_iff.mpr (Or.inl hk), (hn.isListed_iff hk).mpr hl, hs.name.trans hname,
      hs.package.trans hp, hs.outer.trans ho⟩
  · obtain ⟨rfl, rfl⟩ := Prod.mk.inj hnew
    rw [hn.entry_new]
    exact ⟨hn.knows_new, hl, rfl, rfl, ho⟩

theorem WellFormed.of_mem_nested_enter (hm : m.WellFormed) (he : m.Enterable e) (hn : m.Entered e n)
    {o : ClassId} {name : String} {c : ClassId} (hc : (name, c) ∈ (n.entry o).nested.entries) :
    n.Knows c ∧ (n.entry c).IsListed ∧ (n.entry c).name = name ∧
      (n.entry c).package = (n.entry o).package ∧ (n.entry c).outer = some o := by
  rcases hn.mem_nested_cases he hc with ⟨hko, hc⟩ | ⟨ho, hnew⟩
  · obtain ⟨hk, hl, hname, hp, ho⟩ := hm.of_mem_nested o name c hc
    have hs := hn.sameOrigin hk
    refine ⟨hn.knows_iff.mpr (Or.inl hk), (hn.isListed_iff hk).mpr hl, hs.name.trans hname, ?_,
      hs.outer.trans ho⟩
    rw [hs.package, hp, (hn.sameOrigin hko).package]
  · obtain ⟨rfl, rfl⟩ := Prod.mk.inj hnew
    rw [hn.entry_new]
    refine ⟨hn.knows_new, he.inner_listed o ho, rfl, ?_, ho⟩
    rw [he.inner_package o ho, (hn.sameOrigin (he.inner_free o ho).1).package]

theorem WellFormed.mem_outers_new (hm : m.WellFormed) (he : m.Enterable e) (hn : m.Entered e n)
    {d : ClassId} (hd : d ∈ n.outers m.nextClass) :
    ∃ o, e.outer = some o ∧ d ∈ o :: m.outers o ∧ m.Knows d := by
  cases ho : e.outer with
  | none =>
      rw [outers_of_outer_eq_none (by rw [hn.entry_new, ho])] at hd
      cases hd
  | some o =>
      have hko := (he.inner_free o ho).1
      have houters := outers_of_outer_eq_some (hn.outersBelow hm he) (by rw [hn.entry_new, ho])
      rw [houters, hn.outers_old hm hko] at hd
      refine ⟨o, rfl, hd, ?_⟩
      rcases List.mem_cons.mp hd with rfl | hd
      · exact hko
      · exact hm.knows_of_mem_outers hd

theorem WellFormed.apart_enter (hm : m.WellFormed) (he : m.Enterable e) (hn : m.Entered e n) {c d : ClassId}
    (hc : (n.entry c).origin = .defined) (hd : d ∈ n.outers c) : (n.entry d).name ≠ (n.entry c).name := by
  by_cases hk : n.Knows c
  · rcases hn.knows_iff.mp hk with hk | rfl
    · rw [hn.outers_old hm hk] at hd
      have hs := hn.sameOrigin hk
      rw [hs.name, (hn.sameOrigin (hm.knows_of_mem_outers hd)).name]
      exact hm.apart c (hs.origin ▸ hc) d hd
    · rw [hn.entry_new] at hc ⊢
      obtain ⟨o, ho, hmem, hkd⟩ := hm.mem_outers_new he hn hd
      rw [(hn.sameOrigin hkd).name]
      exact he.inner_apart o ho hc d hmem
  · rw [entry_of_not_knows hk] at hc
    cases hc

theorem WellFormed.enter (hm : m.WellFormed) (he : m.Enterable e) (hn : m.Entered e n) :
    n.WellFormed := by
  have hmono : ∀ {c}, m.Knows c → n.Knows c := fun hc ↦ hn.knows_iff.mpr (Or.inl hc)
  constructor
  case startPackages => exact hn.packageNames ▸ hm.startPackages
  case knows_object => exact hmono hm.knows_object
  case outer_below => exact hn.outersBelow hm he
  case id_eq =>
    intro c hc
    rcases hn.knows_iff.mp hc with hc | rfl
    · rw [(hn.sameOrigin hc).id, hm.id_eq c hc]
    · rw [hn.entry_new, he.id_eq]
  case package_known =>
    intro c hc
    rw [hn.knowsPackage_iff]
    rcases hn.knows_iff.mp hc with hc | rfl
    · exact (hn.sameOrigin hc).package ▸ hm.package_known c hc
    · exact hn.entry_new ▸ he.package_known
  case package_placeholder =>
    intro c hc
    by_cases hk : n.Knows c
    · rcases hn.knows_iff.mp hk with hk | rfl
      · rw [(hn.sameOrigin hk).origin] at hc
        rw [(hn.sameOrigin hk).package, hm.package_placeholder c hc]
      · rw [hn.entry_new] at hc ⊢
        exact he.package_placeholder hc
    · rw [entry_of_not_knows hk] at hc
      cases hc
  case mentions_known =>
    intro c x hx d hd
    apply hmono
    by_cases hk : n.Knows c
    · rcases hn.knows_iff.mp hk with hk | rfl
      · exact hm.mentions_known c x (hn.mentions_old hk ▸ hx) d hd
      · exact he.mentions_known x (hn.entry_new ▸ hx) d hd
    · rw [entry_of_not_knows hk] at hx
      cases hx
  case packageNames => exact hn.packageNames ▸ hm.packageNames
  case classKeys =>
    intro p
    by_cases h : e.IsListed ∧ e.outer = none ∧ p = e.package
    · obtain ⟨hl, ho, rfl⟩ := h
      rw [hn.package_own hl ho]
      exact Table.nodup_keys_insert (hm.classKeys _)
    · exact hn.package_other p h ▸ hm.classKeys p
  case nestedKeys =>
    intro o
    by_cases hk : n.Knows o
    · rcases hn.knows_iff.mp hk with hk | rfl
      · rw [hn.entry_old o hk]
        by_cases ho : e.outer = some o
        · simpa only [ho, if_true] using
            Table.nodup_keys_insert (hm.nestedKeys o)
        · simpa only [ho, if_false] using hm.nestedKeys o
      · rw [hn.entry_new, he.nested_eq]
        exact List.nodup_nil
    · rw [entry_of_not_knows hk]
      exact List.nodup_nil
  case of_mem_classes => exact fun _ _ _ hc ↦ hm.of_mem_classes_enter he hn hc
  case of_mem_nested => exact fun _ _ _ hc ↦ hm.of_mem_nested_enter he hn hc
  case listed_top =>
    intro c hc hl ho
    rcases hn.knows_iff.mp hc with hk | rfl
    · have hs := hn.sameOrigin hk
      rw [hs.package, hs.name]
      exact (hm.listed_old he hn hk ((hn.isListed_iff hk).mp hl)).1 (hs.outer ▸ ho)
    · rw [hn.entry_new] at hl ho ⊢
      rw [hn.package_own hl ho, Table.get?_insert, if_pos rfl]
  case listed_inner =>
    intro c o ho
    rcases hn.outer_cases ho with ⟨rfl, hnew⟩ | ⟨hk, hold⟩
    · rw [hn.entry_new, hn.entry_old o (he.inner_free o hnew).1]
      refine ⟨he.inner_listed o hnew, ?_⟩
      simp only [hnew, if_true, Table.get?_insert]
    · have hl := (hm.listed_inner c o hold).1
      rw [(hn.sameOrigin hk).name]
      exact ⟨(hn.isListed_iff hk).mpr hl, (hm.listed_old he hn hk hl).2 o hold⟩
  case outer_defined =>
    intro c o ho
    rcases hn.outer_cases ho with ⟨rfl, hnew⟩ | ⟨hk, hold⟩
    · rw [hn.entry_new, (hn.sameOrigin (he.inner_free o hnew).1).origin]
      exact he.inner_defined o hnew
    · rw [(hn.sameOrigin hk).origin, (hn.sameOrigin (hm.knows_of_outer hold).2).origin]
      exact hm.outer_defined c o hold
  case name_valid =>
    intro c hc hl
    rcases hn.knows_iff.mp hc with hk | rfl
    · rw [(hn.sameOrigin hk).name]
      exact hm.name_valid c hk ((hn.isListed_iff hk).mp hl)
    · rw [hn.entry_new] at hl ⊢
      exact he.name_valid hl
  case apart => exact fun _ hc _ hd ↦ hm.apart_enter he hn hc hd

end Enter

/-! ## Other changes -/

theorem findPackage?_eq_none_iff {m : Model} {name : String} :
    m.findPackage? name = none ↔ name ∉ m.packages.map (·.name) := by
  simp [findPackage?, List.findIdx?_eq_none_iff]

theorem classes_pushPackage (m : Model) (name : String) (p : PackageId) :
    ((m.pushPackage name).packageEntry p).classes = (m.packageEntry p).classes := by
  rw [packageEntry_pushPackage]
  split
  · rename_i hp
    rw [packageEntry_of_not_knows (hp ▸ Nat.lt_irrefl _)]
    rfl
  · rfl

theorem WellFormed.pushPackage {m : Model} (hm : m.WellFormed) {name : String}
    (hfree : m.findPackage? name = none) : (m.pushPackage name).WellFormed where
  startPackages := by
    refine hm.startPackages.trans ?_
    simp [Model.pushPackage]
  knows_object := hm.knows_object
  id_eq := hm.id_eq
  package_known c hc := by
    have := hm.package_known c hc
    simp only [KnowsPackage, length_packages_pushPackage, entry_pushPackage] at this ⊢
    omega
  package_placeholder := hm.package_placeholder
  mentions_known := hm.mentions_known
  packageNames := by
    have hnew := findPackage?_eq_none_iff.mp hfree
    simp only [Model.pushPackage, List.map_append, List.map_cons, List.map_nil]
    refine List.nodup_append.mpr ⟨hm.packageNames, List.nodup_singleton _, ?_⟩
    rintro a ha b hb rfl
    exact hnew (List.mem_singleton.mp hb ▸ ha)
  classKeys p := classes_pushPackage m name p ▸ hm.classKeys p
  nestedKeys := hm.nestedKeys
  of_mem_classes p n c hx := hm.of_mem_classes p n c (classes_pushPackage m name p ▸ hx)
  of_mem_nested := hm.of_mem_nested
  listed_top c hc hl ho := by
    rw [classes_pushPackage]
    exact hm.listed_top c hc hl ho
  listed_inner := hm.listed_inner
  outer_below := hm.outer_below
  outer_defined := hm.outer_defined
  name_valid := hm.name_valid
  apart c hc d hd := by
    have houters : (m.pushPackage name).outers c = m.outers c :=
      outers_congr (m := m) (n := m.pushPackage name) (fun _ ↦ True) (fun _ _ _ _ ↦ trivial)
        (fun _ _ ↦ rfl) trivial
    exact hm.apart c hc d (houters ▸ hd)

theorem WellFormed.rework {m : Model} (hm : m.WellFormed) {c : ClassId} {e : ClassEntry}
    {added : List Mention} (he : (m.entry c).Reworked added e)
    (hadded : ∀ x ∈ added, ∀ d ∈ x.classes, m.Knows d) : (m.modifyClass c fun _ ↦ e).WellFormed := by
  have hentry : ∀ d, (m.entry d).Reworked added ((m.modifyClass c fun _ ↦ e).entry d) := by
    intro d
    rw [entry_modifyClass]
    split
    · rename_i h
      exact h.1 ▸ he
    · exact ⟨.refl _, rfl, List.subset_append_left _ _⟩
  have hknows : ∀ d, (m.modifyClass c fun _ ↦ e).Knows d ↔ m.Knows d := fun d ↦ by
    simp only [Knows, length_classes_modifyClass]
  have hlisted : ∀ d, ((m.modifyClass c fun _ ↦ e).entry d).IsListed ↔ (m.entry d).IsListed :=
    fun d ↦ (hentry d).sameOrigin.isListed_iff
  have houters : ∀ d, (m.modifyClass c fun _ ↦ e).outers d = m.outers d := fun d ↦
    outers_congr (fun _ ↦ True) (fun _ _ _ _ ↦ trivial) (fun x _ ↦ (hentry x).sameOrigin.outer)
      trivial
  constructor
  case startPackages => exact hm.startPackages
  case knows_object => exact (hknows _).mpr hm.knows_object
  case packageNames => exact hm.packageNames
  case classKeys => exact hm.classKeys
  case package_placeholder =>
    intro d hd
    rw [(hentry d).sameOrigin.origin] at hd
    rw [(hentry d).sameOrigin.package, hm.package_placeholder d hd]
  case mentions_known =>
    intro d x hx y hy
    rw [hknows]
    rcases List.mem_append.mp ((hentry d).mentions hx) with hx | hx
    · exact hm.mentions_known d x hx y hy
    · exact hadded x hx y hy
  case id_eq =>
    intro d hd
    rw [(hentry d).sameOrigin.id, hm.id_eq d ((hknows d).mp hd)]
  case package_known =>
    intro d hd
    rw [(hentry d).sameOrigin.package]
    exact hm.package_known d ((hknows d).mp hd)
  case nestedKeys =>
    intro o
    rw [(hentry o).nested]
    exact hm.nestedKeys o
  case of_mem_classes =>
    intro p n d hx
    rw [hknows, hlisted, (hentry d).sameOrigin.name, (hentry d).sameOrigin.package,
      (hentry d).sameOrigin.outer]
    exact hm.of_mem_classes p n d hx
  case of_mem_nested =>
    intro o n d hx
    rw [(hentry o).nested] at hx
    rw [hknows, hlisted, (hentry d).sameOrigin.name, (hentry d).sameOrigin.package,
      (hentry d).sameOrigin.outer, (hentry o).sameOrigin.package]
    exact hm.of_mem_nested o n d hx
  case listed_top =>
    intro d hd hl ho
    rw [(hentry d).sameOrigin.outer] at ho
    rw [(hentry d).sameOrigin.package, (hentry d).sameOrigin.name]
    exact hm.listed_top d ((hknows d).mp hd) ((hlisted d).mp hl) ho
  case listed_inner =>
    intro d o ho
    rw [(hentry d).sameOrigin.outer] at ho
    rw [hlisted, (hentry o).nested, (hentry d).sameOrigin.name]
    exact hm.listed_inner d o ho
  case outer_below =>
    intro d o ho
    rw [(hentry d).sameOrigin.outer] at ho
    exact hm.outer_below d o ho
  case outer_defined =>
    intro d o ho
    rw [(hentry d).sameOrigin.outer] at ho
    rw [(hentry d).sameOrigin.origin, (hentry o).sameOrigin.origin]
    exact hm.outer_defined d o ho
  case name_valid =>
    intro d hd hl
    rw [(hentry d).sameOrigin.name]
    exact hm.name_valid d ((hknows d).mp hd) ((hlisted d).mp hl)
  case apart =>
    intro d hd x hx
    rw [(hentry d).sameOrigin.origin] at hd
    rw [houters] at hx
    rw [(hentry d).sameOrigin.name, (hentry x).sameOrigin.name]
    exact hm.apart d hd x hx

end Model
end JavaSource
