import JavaSource.Proofs.Model.Placeholder

/-!
# Addresses of classes

A class is known by its package and by its name and the names of the classes around it, each with where it comes
from. But for anonymous classes, two classes that are known by the same are one. So an address tells which class
is meant in another model, where handles may be others.
-/

namespace JavaSource

/-- What a class is known by: its package, and the classes from itself outwards. -/
structure Address where
  package : String
  chain : List (String × Origin)
  deriving DecidableEq

namespace Model

def address (m : Model) (c : ClassId) : Address where
  package := (m.packageEntry (m.entry c).package).name
  chain := (c :: m.outers c).map fun d ↦ ((m.entry d).name, (m.entry d).origin)

variable {m n : Model} {c d o : ClassId}

theorem WellFormed.package_of_outer (hm : m.WellFormed) (ho : (m.entry c).outer = some o) :
    (m.entry c).package = (m.entry o).package :=
  (hm.of_mem_nested o _ c (Table.mem_entries_of_get? (hm.listed_inner c o ho).2)).2.2.2.1

theorem WellFormed.package_eq_of_name (hm : m.WellFormed) {p q : PackageId} (hp : m.KnowsPackage p)
    (hq : m.KnowsPackage q) (h : (m.packageEntry p).name = (m.packageEntry q).name) : p = q := by
  have hp' := (findPackage?_eq_some_iff hm).mpr ⟨hp, h⟩
  have hq' := (findPackage?_eq_some_iff hm).mpr ⟨hq, rfl⟩
  exact Option.some.inj (hp'.symm.trans hq')

theorem WellFormed.knows_builtinPackage (hm : m.WellFormed) :
    m.KnowsPackage builtinPackage ∧ (m.packageEntry builtinPackage).name = builtinName := by
  obtain ⟨rest, hrest⟩ := hm.startPackages
  have hsecond : (m.packages.map (·.name))[1]? = some builtinName := by rw [← hrest]; rfl
  obtain ⟨p, hp, hname⟩ := Option.map_eq_some_iff.mp (List.getElem?_map .. ▸ hsecond)
  exact ⟨(List.getElem?_eq_some_iff.mp hp).1, by simp [packageEntry, builtinPackage, hp, hname]⟩

theorem WellFormed.name_rootPackage (hm : m.WellFormed) : (m.packageEntry rootPackage).name = "" := by
  obtain ⟨rest, hrest⟩ := hm.startPackages
  have hfirst : (m.packages.map (·.name))[0]? = some "" := by rw [← hrest]; rfl
  obtain ⟨p, hp, hname⟩ := Option.map_eq_some_iff.mp (List.getElem?_map .. ▸ hfirst)
  simp [packageEntry, rootPackage, hp, hname]

theorem address_of_outer_eq_none (ho : (m.entry c).outer = none) :
    m.address c = ⟨(m.packageEntry (m.entry c).package).name, [((m.entry c).name, (m.entry c).origin)]⟩ := by
  simp [address, outers_of_outer_eq_none ho]

theorem WellFormed.address_of_outer_eq_some (hm : m.WellFormed) (ho : (m.entry c).outer = some o) :
    m.address c =
      ⟨(m.address o).package, ((m.entry c).name, (m.entry c).origin) :: (m.address o).chain⟩ := by
  simp [address, outers_of_outer_eq_some hm.outer_below ho, hm.package_of_outer ho]

/-- Classes with the same address are the same. -/
theorem WellFormed.eq_of_address_eq (hm : m.WellFormed) (hp : m.Orderly) (hc : m.Knows c) (hd : m.Knows d)
    (hnamed : ∀ x ∈ (m.address c).chain, x.2 ≠ .anonymous) (h : m.address c = m.address d) : c = d := by
  induction c using outer_induction hm.outer_below generalizing d with
  | top c ho =>
      rw [address_of_outer_eq_none ho] at h hnamed
      cases ho' : (m.entry d).outer with
      | none =>
          rw [address_of_outer_eq_none ho'] at h
          obtain ⟨hpackage, hchain⟩ := Address.mk.inj h
          obtain ⟨hname, horigin⟩ := Prod.mk.inj (List.singleton_inj.mp hchain)
          have hpackage := hm.package_eq_of_name (hm.package_known c hc) (hm.package_known d hd) hpackage
          have hlisted : (m.entry c).IsListed → c = d := fun hlisted ↦ by
            have hcget := hm.listed_top c hc hlisted ho
            have hdget := hm.listed_top d hd (by rwa [ClassEntry.IsListed, ← horigin]) ho'
            rw [hpackage, hname, hdget] at hcget
            exact (Option.some.inj hcget).symm
          cases hown : (m.entry c).origin with
          | defined => exact hlisted (Or.inl hown)
          | external => exact hlisted (Or.inr hown)
          | placeholder =>
              have hcget := (hp.get?_placeholders (m.entry c).name c).mpr ⟨hown, rfl⟩
              have hdget := (hp.get?_placeholders (m.entry d).name d).mpr ⟨horigin ▸ hown, rfl⟩
              rw [hname, hdget] at hcget
              exact (Option.some.inj hcget).symm
          | anonymous => exact absurd hown (hnamed _ (List.mem_singleton_self _))
      | some o =>
          rw [hm.address_of_outer_eq_some ho'] at h
          simp [address] at h
  | inner c o ho ih =>
      rw [hm.address_of_outer_eq_some ho] at h hnamed
      cases ho' : (m.entry d).outer with
      | none =>
          rw [address_of_outer_eq_none ho'] at h
          simp [address] at h
      | some o' =>
          rw [hm.address_of_outer_eq_some ho'] at h
          obtain ⟨hpackage, hchain⟩ := Address.mk.inj h
          obtain ⟨hhead, hchain⟩ := List.cons.inj hchain
          obtain rfl := ih (hm.knows_of_outer ho).2 (hm.knows_of_outer ho').2
            (fun x hx ↦ hnamed x (List.mem_cons_of_mem _ hx)) (congrArg₂ Address.mk hpackage hchain)
          have hcget := (hm.listed_inner c o ho).2
          have hdget := (hm.listed_inner d o ho').2
          rw [(Prod.mk.inj hhead).1, hdget] at hcget
          exact (Option.some.inj hcget).symm

theorem Extends.outers_eq (h : m.Extends n) (hm : m.WellFormed) (hc : m.Knows c) : n.outers c = m.outers c :=
  outers_congr m.Knows (fun _ _ _ ho ↦ (hm.knows_of_outer ho).2) (fun d hd ↦ (h.sameOrigin d hd).outer) hc

/-- A class keeps its address. -/
theorem Extends.address_eq (h : m.Extends n) (hm : m.WellFormed) (hc : m.Knows c) : n.address c = m.address c := by
  have hknown : ∀ d ∈ c :: m.outers c, m.Knows d :=
    List.forall_mem_cons.mpr ⟨hc, fun d hd ↦ hm.knows_of_mem_outers hd⟩
  have hchain : (c :: m.outers c).map (fun d ↦ ((n.entry d).name, (n.entry d).origin)) =
      (c :: m.outers c).map fun d ↦ ((m.entry d).name, (m.entry d).origin) :=
    List.map_congr_left fun d hd ↦ by
      have hsame := h.sameOrigin d (hknown d hd)
      rw [hsame.name, hsame.origin]
  rw [address, h.outers_eq hm hc, hchain, (h.sameOrigin c hc).package,
    h.packageName _ (hm.package_known c hc), address]

/-! ## Names that lead to addresses -/

theorem address_of_lookupNested (hm : m.WellFormed) {o : Origin} {package : String} {names path : List String}
    (hc : (m.entry c).origin = o) (hlisted : o = .defined ∨ o = .external)
    (haddress : m.address c = ⟨package, names.map (·, o)⟩) (h : m.lookupNested c path = some d) :
    m.address d = ⟨package, (path.reverse ++ names).map (·, o)⟩ := by
  induction path generalizing c names with
  | nil =>
      cases h
      exact haddress
  | cons name rest ih =>
      rw [lookupNested] at h
      split at h
      · rename_i e he
        obtain ⟨houter, hname⟩ := (get?_nested_eq_some_iff hm).mp he
        have horigin : (m.entry e).origin = o := by
          have hdefined := hm.outer_defined e c houter
          rw [hc] at hdefined
          have hown : (m.entry e).IsListed := (hm.listed_inner e c houter).1
          rcases hlisted with rfl | rfl
          · exact hdefined.mpr rfl
          · exact hown.resolve_left fun hown ↦ Origin.noConfusion (hdefined.mp hown)
        have hnext : m.address e = ⟨package, (name :: names).map (·, o)⟩ := by
          rw [hm.address_of_outer_eq_some houter, haddress, hname, horigin]
          rfl
        rw [ih horigin hnext h, List.reverse_cons, List.append_assoc]
        rfl
      · cases h

/-- A name that is found leads through classes that are all defined or all external. -/
theorem address_of_lookup (hm : m.WellFormed) {name : String} (h : m.lookup name = some c) :
    ∃ top, m.Knows top ∧ (m.entry top).IsListed ∧ (m.entry top).outer = none ∧
      (m.entry top).name = (BinaryName.ofString name).top ∧
      (m.packageEntry (m.entry top).package).name = (BinaryName.ofString name).package ∧
      m.address c = ⟨(BinaryName.ofString name).package,
        ((BinaryName.ofString name).nested.reverse ++ [(BinaryName.ofString name).top]).map
          (·, (m.entry top).origin)⟩ := by
  unfold lookup at h
  simp only at h
  split at h
  · cases h
  · rename_i p hp
    split at h
    · cases h
    · rename_i top htop
      obtain ⟨hknows, hlisted, hname, hpackage, houter⟩ := (get?_classes_eq_some_iff hm).mp htop
      obtain ⟨-, hpackageName⟩ := (findPackage?_eq_some_iff hm).mp hp
      rw [← hpackage] at hpackageName
      refine ⟨top, hknows, hlisted, houter, hname, hpackageName, address_of_lookupNested hm rfl hlisted ?_ h⟩
      rw [address_of_outer_eq_none houter, hpackageName, hname]
      rfl

end Model
end JavaSource
