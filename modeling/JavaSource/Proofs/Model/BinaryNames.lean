import JavaSource.Proofs.Model.Address
import JavaSource.Proofs.Model.Naming
import JavaSource.Proofs.Text.Splitting

/-!
# Binary names

The binary name of a class runs from its package through the classes around it, with dollar signs between them.
A dollar sign may also stand in the name of a class. Binary names are cut at all of them, so a name leads back to
its class exactly when no class on the way has one in its own name.
-/

namespace JavaSource.Model

variable {m : Model} {c d o : ClassId}

/-- A known class that is defined or external, like all classes around it. -/
structure IsPlaced (m : Model) (c : ClassId) : Prop where
  knows : m.Knows c
  listed : ∀ d ∈ c :: m.outers c, (m.entry d).IsListed

/-- The names of the classes around a class and of the class, from the outside in. -/
def simpleNames (m : Model) (c : ClassId) : List String :=
  ((c :: m.outers c).map fun d ↦ (m.entry d).name).reverse

/-- Neither the class nor one around it has the separator of binary names in its own name. -/
def SparesSeparator (m : Model) (c : ClassId) : Prop := ∀ d ∈ c :: m.outers c, '$' ∉ (m.entry d).name.toList

/-! ## Names along a chain -/

theorem simpleNames_of_outer_eq_none (ho : (m.entry c).outer = none) : m.simpleNames c = [(m.entry c).name] := by
  simp [simpleNames, outers_of_outer_eq_none ho]

theorem simpleNames_of_outer_eq_some (hm : m.WellFormed) (ho : (m.entry c).outer = some o) :
    m.simpleNames c = m.simpleNames o ++ [(m.entry c).name] := by
  simp [simpleNames, outers_of_outer_eq_some hm.outer_below ho]

theorem mem_simpleNames {name : String} :
    name ∈ m.simpleNames c ↔ ∃ d ∈ c :: m.outers c, (m.entry d).name = name := by
  rw [simpleNames, List.mem_reverse, List.mem_map]

theorem simpleNames_ne_nil (m : Model) (c : ClassId) : m.simpleNames c ≠ [] := by
  simp [simpleNames]

theorem IsPlaced.outer (hm : m.WellFormed) (hc : m.IsPlaced c) (ho : (m.entry c).outer = some o) : m.IsPlaced o where
  knows := (hm.knows_of_outer ho).2
  listed d hd := hc.listed d (by
    rw [outers_of_outer_eq_some hm.outer_below ho]
    exact List.mem_cons_of_mem c hd)

theorem nameSource?_of_isListed (hc : (m.entry c).IsListed) : m.nameSource? c = (m.entry c).outer := by
  simp only [nameSource?]
  rcases hc with hc | hc <;> rw [hc]

theorem nameStep_of_isListed {separator : String} {f : ClassId → String} (hc : (m.entry c).IsListed) :
    m.nameStep separator f c =
      match (m.entry c).outer with
      | some o => f o ++ separator ++ (m.entry c).name
      | none => m.packaged (m.entry c).package (m.entry c).name := by
  simp only [nameStep]
  rcases hc with hc | hc <;> rw [hc] <;> cases (m.entry c).outer <;> rfl

theorem IsPlaced.hasNameEnd (hm : m.WellFormed) (hc : m.IsPlaced c) : m.HasNameEnd c := by
  induction c using outer_induction hm.outer_below with
  | top c ho =>
      refine Acc.intro c fun d hd ↦ ?_
      rw [NamedAfter, nameSource?_of_isListed (hc.listed c List.mem_cons_self), ho] at hd
      cases hd
  | inner c o ho ih =>
      refine Acc.intro c fun d hd ↦ ?_
      rw [NamedAfter, nameSource?_of_isListed (hc.listed c List.mem_cons_self), ho] at hd
      cases hd
      exact ih (hc.outer hm ho)

/-! ## The name and its pieces -/

theorem packaged_append (m : Model) (p : PackageId) (s t : String) :
    m.packaged p s ++ t = m.packaged p (s ++ t) := by
  simp only [packaged]
  split
  · rfl
  · simp only [String.append_assoc]

/-- The names of a chain with the separator between them. -/
def chainName (m : Model) (c : ClassId) : String :=
  String.ofList (Text.joinAll '$' ((m.simpleNames c).map String.toList))

theorem chainName_of_outer_eq_none (ho : (m.entry c).outer = none) : m.chainName c = (m.entry c).name := by
  rw [chainName, simpleNames_of_outer_eq_none ho]
  exact String.ofList_toList

theorem chainName_of_outer_eq_some (hm : m.WellFormed) (ho : (m.entry c).outer = some o) :
    m.chainName c = m.chainName o ++ "$" ++ (m.entry c).name := by
  have hne : (m.simpleNames o).map String.toList ≠ [] := by simp [simpleNames_ne_nil]
  rw [chainName, simpleNames_of_outer_eq_some hm ho, List.map_append, List.map_singleton, Text.joinAll_concat hne]
  apply String.toList_inj.mp
  simp [chainName]

theorem IsPlaced.binaryName_eq (hm : m.WellFormed) (hc : m.IsPlaced c) :
    m.binaryName c = m.packaged (m.entry c).package (m.chainName c) := by
  induction c using outer_induction hm.outer_below with
  | top c ho =>
      rw [binaryName, (hc.hasNameEnd hm).qualifiedName_eq hm hc.knows,
        nameStep_of_isListed (hc.listed c List.mem_cons_self), ho, chainName_of_outer_eq_none ho]
  | inner c o ho ih =>
      have hrest : m.qualifiedName "$" o = m.packaged (m.entry o).package (m.chainName o) := ih (hc.outer hm ho)
      rw [binaryName, (hc.hasNameEnd hm).qualifiedName_eq hm hc.knows,
        nameStep_of_isListed (hc.listed c List.mem_cons_self), ho]
      simp only
      rw [hrest, packaged_append, packaged_append, ← chainName_of_outer_eq_some hm ho, hm.package_of_outer ho]

theorem IsPlaced.point_notMem_chainName (hm : m.WellFormed) (hc : m.IsPlaced c) : '.' ∉ (m.chainName c).toList := by
  rw [chainName, String.toList_ofList]
  intro hmem
  rcases Text.exists_of_mem_joinAll hmem with h | ⟨piece, hpiece, h⟩
  · exact absurd h (by decide)
  · obtain ⟨name, hname, rfl⟩ := List.mem_map.mp hpiece
    obtain ⟨d, hd, rfl⟩ := mem_simpleNames.mp hname
    have hknown : m.Knows d := by
      rcases List.mem_cons.mp hd with rfl | hd
      · exact hc.knows
      · exact hm.knows_of_mem_outers hd
    exact point_notMem_of_identifier (hm.name_valid d hknown (hc.listed d hd)) h

/-- A binary name is cut into the name of the package and the pieces between the dollar signs. -/
theorem IsPlaced.ofString_binaryName (hm : m.WellFormed) (hc : m.IsPlaced c) :
    ∃ top nested, Text.splitString '$' (m.chainName c) = top :: nested ∧
      BinaryName.ofString (m.binaryName c) = ⟨(m.packageEntry (m.entry c).package).name, top, nested⟩ := by
  have hpoint := hc.point_notMem_chainName hm
  have hlast : ∃ front, Text.splitLast '.' (m.binaryName c) = (front, m.chainName c) ∧
      front.getD "" = (m.packageEntry (m.entry c).package).name := by
    rw [hc.binaryName_eq hm, packaged]
    split
    · rename_i hunnamed
      exact ⟨none, Text.splitLast_of_notMem hpoint, by simpa [Package.isUnnamed] using hunnamed.symm⟩
    · exact ⟨some _, Text.splitLast_append hpoint _, rfl⟩
  obtain ⟨front, hlast, hfront⟩ := hlast
  have hpieces : Text.splitString '$' (m.chainName c) ≠ [] := by
    simp [Text.splitString, Text.splitAll_ne_nil]
  obtain ⟨top, nested, hcons⟩ := List.exists_cons_of_ne_nil hpieces
  refine ⟨top, nested, hcons, ?_⟩
  simp only [BinaryName.ofString, hlast, hcons, hfront]

/-- Where the names spare the separator, they are the pieces. -/
theorem SparesSeparator.splitString_chainName (h : m.SparesSeparator c) :
    Text.splitString '$' (m.chainName c) = m.simpleNames c := by
  have hne : (m.simpleNames c).map String.toList ≠ [] := by simp [simpleNames_ne_nil]
  have hspare : ∀ piece ∈ (m.simpleNames c).map String.toList, '$' ∉ piece := by
    intro piece hpiece
    obtain ⟨name, hname, rfl⟩ := List.mem_map.mp hpiece
    obtain ⟨d, hd, rfl⟩ := mem_simpleNames.mp hname
    exact h d hd
  rw [Text.splitString, chainName, String.toList_ofList, Text.splitAll_joinAll hne hspare, List.map_map]
  simp [Function.comp_def]

/-! ## From the name to the class -/

theorem lookupNested_append (m : Model) (c : ClassId) (path : List String) (name : String) :
    m.lookupNested c (path ++ [name]) =
      (m.lookupNested c path).bind fun d ↦ (m.entry d).nested.get? name := by
  induction path generalizing c with
  | nil =>
      rw [List.nil_append, lookupNested, lookupNested, Option.bind_some]
      cases (m.entry c).nested.get? name <;> rfl
  | cons first rest ih =>
      rw [List.cons_append, lookupNested, lookupNested]
      cases (m.entry c).nested.get? first with
      | none => rfl
      | some d => exact ih d

/-- The names of its chain lead to a class. -/
theorem IsPlaced.lookupNested_simpleNames (hm : m.WellFormed) (hc : m.IsPlaced c) {top : String}
    {nested : List String} (h : m.simpleNames c = top :: nested) :
    ∃ t, (m.packageEntry (m.entry c).package).classes.get? top = some t ∧ m.lookupNested t nested = some c := by
  induction c using outer_induction hm.outer_below generalizing nested with
  | top c ho =>
      rw [simpleNames_of_outer_eq_none ho] at h
      obtain ⟨rfl, rfl⟩ := List.cons.inj h
      exact ⟨c, hm.listed_top c hc.knows (hc.listed c List.mem_cons_self) ho, rfl⟩
  | inner c o ho ih =>
      rw [simpleNames_of_outer_eq_some hm ho] at h
      obtain ⟨top', nested', hcons⟩ := List.exists_cons_of_ne_nil (simpleNames_ne_nil m o)
      rw [hcons, List.cons_append] at h
      obtain ⟨rfl, rfl⟩ := List.cons.inj h
      obtain ⟨t, ht, hnested⟩ := ih (hc.outer hm ho) hcons
      refine ⟨t, hm.package_of_outer ho ▸ ht, ?_⟩
      rw [lookupNested_append, hnested, Option.bind_some, (hm.listed_inner c o ho).2]

theorem simpleNames_eq_of_address_eq {package : String} {names : List String} {origin : Origin}
    (h : m.address c = ⟨package, names.map (·, origin)⟩) : m.simpleNames c = names.reverse := by
  have hchain := congrArg (fun a ↦ a.chain.map Prod.fst) h
  simp only [address, List.map_map, Function.comp_def, List.map_id'] at hchain
  rw [simpleNames, hchain]

/-- A binary name leads to its class exactly when no name on the way has the separator in it. -/
theorem IsPlaced.lookup_binaryName_iff (hm : m.WellFormed) (hc : m.IsPlaced c) :
    m.lookup (m.binaryName c) = some c ↔ m.SparesSeparator c := by
  obtain ⟨top, nested, hpieces, hname⟩ := hc.ofString_binaryName hm
  constructor
  · -- The names around what is found are the pieces, and no piece has the separator in it.
    intro h d hd
    obtain ⟨_, _, _, _, _, _, haddress⟩ := address_of_lookup hm h
    have hsimple := simpleNames_eq_of_address_eq haddress
    rw [hname, List.reverse_append, List.reverse_reverse, List.reverse_singleton, List.singleton_append,
      ← hpieces] at hsimple
    exact Text.notMem_of_mem_splitString (hsimple ▸ mem_simpleNames.mpr ⟨d, hd, rfl⟩)
  · intro hspare
    rw [hspare.splitString_chainName] at hpieces
    obtain ⟨t, ht, hnested⟩ := hc.lookupNested_simpleNames hm hpieces
    have hpackage := (findPackage?_eq_some_iff hm).mpr ⟨hm.package_known c hc.knows, rfl⟩
    simp only [lookup, hname, hpackage, ht, hnested]

theorem IsPlaced.reference_binaryName_iff (hm : m.WellFormed) (hc : m.IsPlaced c) :
    (reference (m.binaryName c)).exec m = (.ok c, m) ↔ m.SparesSeparator c := by
  rw [← hc.lookup_binaryName_iff hm]
  exact ⟨lookup_of_reference hm, reference_of_lookup⟩

/-- Binary names identify the classes whose names spare the separator, and no others. -/
theorem binaryName_identifies (hm : m.Reachable) :
    (∀ c, m.IsPlaced c → (m.lookup (m.binaryName c) = some c ↔ m.SparesSeparator c) ∧
      ((reference (m.binaryName c)).exec m = (.ok c, m) ↔ m.SparesSeparator c)) ∧
    ∀ c d, m.IsPlaced c → m.IsPlaced d → m.SparesSeparator c → m.SparesSeparator d →
      m.binaryName c = m.binaryName d → c = d := by
  have hwf := hm.wellFormed
  refine ⟨fun c hc ↦ ⟨hc.lookup_binaryName_iff hwf, hc.reference_binaryName_iff hwf⟩, ?_⟩
  intro c d hc hd hsparec hspared h
  have hcfound := (hc.lookup_binaryName_iff hwf).mpr hsparec
  have hdfound := (hd.lookup_binaryName_iff hwf).mpr hspared
  rw [h, hdfound] at hcfound
  exact (Option.some.inj hcfound).symm

/-- A class with a dollar sign in its name beside a nested class of the same binary name. -/
def dollarNames : List Operation :=
  [.package "p", .define (.package ⟨2⟩) .none "T" .plain, .define (.class ⟨1⟩) .none "U" .plain,
    .define (.package ⟨2⟩) .none "T$U" .plain]

theorem binaryName_identifies_dollarNames :
    (initial.run dollarNames).Reachable ∧ (initial.run dollarNames).IsPlaced ⟨2⟩ ∧
      (initial.run dollarNames).IsPlaced ⟨3⟩ ∧
      (initial.run dollarNames).lookup ((initial.run dollarNames).binaryName ⟨2⟩) = some ⟨2⟩ ∧
      (initial.run dollarNames).lookup ((initial.run dollarNames).binaryName ⟨3⟩) ≠ some ⟨3⟩ := by
  have hreachable : (initial.run dollarNames).Reachable := .run .initial (by decide +kernel)
  have hinner : (initial.run dollarNames).IsPlaced ⟨2⟩ := ⟨by decide +kernel, by
    unfold ClassEntry.IsListed
    decide +kernel⟩
  have htop : (initial.run dollarNames).IsPlaced ⟨3⟩ := ⟨by decide +kernel, by
    unfold ClassEntry.IsListed
    decide +kernel⟩
  have hspare : (initial.run dollarNames).SparesSeparator ⟨2⟩ := by
    unfold SparesSeparator
    decide +kernel
  have hnot : ¬ (initial.run dollarNames).SparesSeparator ⟨3⟩ := by
    unfold SparesSeparator
    decide +kernel
  have hidentifies := (binaryName_identifies hreachable).1
  exact ⟨hreachable, hinner, htop, (hidentifies ⟨2⟩ hinner).1.mpr hspare,
    mt (hidentifies ⟨3⟩ htop).1.mp hnot⟩

end JavaSource.Model
