import JavaSource.Proofs.Model.Address
import JavaSource.Proofs.Model.Failing
import JavaSource.Proofs.Model.Tables

/-!
# What referring to a class enters

To look a binary name up, to check it and to enter it are three walks over one name. Here they are kept in step:
what is entered is found from then on, all that is entered lies on the way from the class outwards, and a name is
refused for its first segment that is not known and cannot be entered, or for an ill-formed one behind it.
-/

namespace JavaSource

/-- The simple names in a binary name, from the outside in. -/
def BinaryName.segments (n : BinaryName) : List String := n.top :: n.nested

namespace Model

variable {m n : Model} {c d : ClassId}

/-- The class that the first segment of a name leads to. -/
def topClass? (m : Model) (b : BinaryName) : Option ClassId :=
  (m.findPackage? b.package).bind fun p ↦ (m.packageEntry p).classes.get? b.top

/-- The class that names of nested classes lead to from a class that may not be known itself. -/
def nestedFrom? (m : Model) (known : Option ClassId) (path : List String) : Option ClassId :=
  known.bind fun c ↦ m.lookupNested c path

/-- The class that the segments of a name lead to, up to the one at a position. -/
def classAt? (m : Model) (b : BinaryName) (i : Nat) : Option ClassId :=
  m.nestedFrom? (m.topClass? b) (b.nested.take i)

/-- The segment at a position is not known yet, and it is ill-formed or its class would have to be created inside a
class that the model defines. -/
def RefusesSegment (m : Model) (b : BinaryName) (i : Nat) : Prop :=
  ∃ name, b.segments[i]? = some name ∧ m.classAt? b i = none ∧
    (nameFault? name ≠ none ∨ ∃ j o, i = j + 1 ∧ m.classAt? b j = some o ∧ (m.entry o).origin = .defined)

/-! ## Names that are refused -/

theorem nestedFrom?_cons (known : Option ClassId) (name : String) (path : List String) :
    m.nestedFrom? known (name :: path) =
      m.nestedFrom? (known.bind fun c ↦ (m.entry c).nested.get? name) path := by
  cases known with
  | none => rfl
  | some c =>
      simp only [nestedFrom?, Option.bind_some, lookupNested]
      cases (m.entry c).nested.get? name <;> rfl

@[simp] theorem nestedFrom?_nil (known : Option ClassId) : m.nestedFrom? known [] = known := by
  cases known <;> rfl

/-- What the walk through nested names objects to at a position. -/
def RefusesNested (m : Model) (known : Option ClassId) (path : List String) (i : Nat) : Prop :=
  ∃ name, path[i]? = some name ∧ m.nestedFrom? known (path.take (i + 1)) = none ∧
    (nameFault? name ≠ none ∨ ∃ o, m.nestedFrom? known (path.take i) = some o ∧ (m.entry o).origin = .defined)

theorem refusesNested_cons_succ (known : Option ClassId) (name : String) (path : List String) (i : Nat) :
    m.RefusesNested known (name :: path) (i + 1) ↔
      m.RefusesNested (known.bind fun c ↦ (m.entry c).nested.get? name) path i := by
  simp only [RefusesNested, List.getElem?_cons_succ, List.take_succ_cons, nestedFrom?_cons]

theorem refusesNested_cons_zero (known : Option ClassId) (name : String) (path : List String) :
    m.RefusesNested known (name :: path) 0 ↔
      (known.bind fun c ↦ (m.entry c).nested.get? name) = none ∧
        (nameFault? name ≠ none ∨ ∃ o, known = some o ∧ (m.entry o).origin = .defined) := by
  simp only [RefusesNested, List.getElem?_cons_zero, Option.some.injEq, Nat.zero_add, List.take_succ_cons,
    List.take_zero, nestedFrom?_cons, nestedFrom?_nil, exists_eq_left']

/-- Where the walk through nested names goes on to after a name, if it does. -/
theorem nestedFault?_cons_eq_none_iff (known : Option ClassId) (name : String) (path : List String) :
    m.nestedFault? known (name :: path) = none ↔
      ¬ m.RefusesNested known (name :: path) 0 ∧
        m.nestedFault? (known.bind fun c ↦ (m.entry c).nested.get? name) path = none := by
  rw [refusesNested_cons_zero]
  cases known with
  | none =>
      rw [nestedFault?]
      cases hname : nameFault? name <;> simp [checkName, hname]
  | some c =>
      rw [nestedFault?]
      cases hget : (m.entry c).nested.get? name with
      | some d => simp [hget]
      | none =>
          cases hname : nameFault? name <;> by_cases hdefined : (m.entry c).origin = .defined <;>
            simp [checkName, ClassEntry.isDefined, hget, hname, hdefined]

/-- The walk through nested names passes them when there is none to object to. -/
theorem nestedFault?_eq_none_iff (known : Option ClassId) (path : List String) :
    m.nestedFault? known path = none ↔ ∀ i, ¬ m.RefusesNested known path i := by
  induction path generalizing known with
  | nil => simp [nestedFault?, RefusesNested]
  | cons name path ih =>
      rw [nestedFault?_cons_eq_none_iff, ih]
      simp only [← refusesNested_cons_succ known name path]
      exact Nat.and_forall_add_one (p := fun i ↦ ¬ m.RefusesNested known (name :: path) i)

theorem refusesSegment_zero (b : BinaryName) :
    m.RefusesSegment b 0 ↔ m.topClass? b = none ∧ nameFault? b.top ≠ none := by
  simp [RefusesSegment, BinaryName.segments, classAt?, nestedFrom?_nil]

theorem refusesSegment_succ (b : BinaryName) (i : Nat) :
    m.RefusesSegment b (i + 1) ↔ m.RefusesNested (m.topClass? b) b.nested i := by
  simp [RefusesSegment, RefusesNested, BinaryName.segments, classAt?]

theorem referenceFault?_eq_none_iff (b : BinaryName) :
    m.referenceFault? b = none ↔ ∀ i, ¬ m.RefusesSegment b i := by
  have hwalk : m.referenceFault? b = none ↔
      ¬ (m.topClass? b = none ∧ nameFault? b.top ≠ none) ∧ m.nestedFault? (m.topClass? b) b.nested = none := by
    simp only [referenceFault?, ← topClass?.eq_def]
    cases m.topClass? b <;> cases hname : nameFault? b.top <;> simp [checkName, hname]
  rw [hwalk, ← refusesSegment_zero, nestedFault?_eq_none_iff]
  simp only [← refusesSegment_succ]
  exact Nat.and_forall_add_one (p := fun i ↦ ¬ m.RefusesSegment b i)

/-- A name is refused exactly when one of its segments is. -/
theorem reference_fails_iff (q : String) :
    (∃ e, ((reference q).exec m).1 = .error e) ↔ ∃ i, m.RefusesSegment (BinaryName.ofString q) i := by
  cases hfault : m.referenceFault? (BinaryName.ofString q) with
  | some fault =>
      refine iff_of_true ⟨fault, by rw [exec_reference_of_fault hfault]⟩ ?_
      by_contra hnone
      have hpass := (referenceFault?_eq_none_iff _).mpr fun i hi ↦ hnone ⟨i, hi⟩
      rw [hfault] at hpass
      cases hpass
  | none =>
      obtain ⟨c, hc⟩ := exists_reference hfault
      refine iff_of_false ?_ fun ⟨i, hi⟩ ↦ (referenceFault?_eq_none_iff _).mp hfault i hi
      rintro ⟨e, he⟩
      rw [he] at hc
      cases hc

/-! ## Classes that are entered -/

/-- Between the two models no package is new, and every new class is external and lies on the way from the class
outwards. -/
structure EntersAlong (m n : Model) (c : ClassId) : Prop where
  packages : n.packages.length = m.packages.length
  external : ∀ d, n.Knows d → ¬ m.Knows d → (n.entry d).origin = .external
  along : ∀ d, n.Knows d → ¬ m.Knows d → d ∈ c :: n.outers c

theorem EntersAlong.refl (m : Model) (c : ClassId) : m.EntersAlong m c where
  packages := rfl
  external _ hd hnew := absurd hd hnew
  along _ hd hnew := absurd hd hnew

theorem Entered.entersAlong {e : ClassEntry} (hn : m.Entered e n) (he : e.origin = .external) :
    m.EntersAlong n m.nextClass where
  packages := hn.length_packages
  external d hd hnew := by
    obtain rfl := (hn.knows_iff.mp hd).resolve_left hnew
    rw [hn.entry_new, he]
  along d hd hnew := by
    obtain rfl := (hn.knows_iff.mp hd).resolve_left hnew
    exact List.mem_cons_self

theorem mem_outers_trans (h : n.OutersBelow) {o : ClassId} (hc : c ∈ d :: n.outers d) (ho : o ∈ c :: n.outers c) :
    o ∈ d :: n.outers d := by
  rcases List.mem_cons.mp ho with rfl | ho
  · exact hc
  · rcases List.mem_cons.mp hc with rfl | hc
    · exact List.mem_cons_of_mem _ ho
    · obtain ⟨inner, hinner⟩ := outers_eq_append_of_mem h hc
      rw [hinner]
      exact List.mem_cons_of_mem _ (List.mem_append_right _ (List.mem_cons_of_mem _ ho))

/-- What has been entered on the way to a class is on the way to a class inside it. -/
theorem EntersAlong.trans {k : Model} (h : m.EntersAlong k c) (hk : k.EntersAlong n d) (hext : k.Extends n)
    (hwell : k.WellFormed) (hbelow : n.OutersBelow) (hknown : k.Knows c) (hc : c ∈ d :: n.outers d) :
    m.EntersAlong n d where
  packages := hk.packages.trans h.packages
  external e he hnew := by
    by_cases hke : k.Knows e
    · exact (hext.sameOrigin e hke).origin.trans (h.external e hke hnew)
    · exact hk.external e he hke
  along e he hnew := by
    by_cases hke : k.Knows e
    · refine mem_outers_trans hbelow hc ?_
      rw [hext.outers_eq hwell hknown]
      exact h.along e hke hnew
    · exact hk.along e he hke

theorem entersAlong_of_referenceIn {p : PackageId} (hp : m.KnowsPackage p) {name : String}
    (h : (referenceIn p name).exec m = (.ok c, n)) : m.EntersAlong n c := by
  cases hget : (m.packageEntry p).classes.get? name with
  | some d =>
      rw [exec_referenceIn_of_get? hget] at h
      cases h
      exact .refl m c
  | none =>
      cases hname : nameFault? name with
      | none =>
          rw [exec_referenceIn_of_get?_eq_none hget hname] at h
          cases h
          exact (entered_addTopLevel hp name .plain (Or.inr rfl) .none).entersAlong rfl
      | some fault =>
          rw [referenceIn, Build.exec_bind, Build.exec_get] at h
          simp [hget, Build.exec_bind, Build.exec_liftExcept, checkName, hname] at h

theorem entersAlong_of_referenceNested {o : ClassId} (ho : m.Knows o) {name : String}
    (h : (referenceNested o name).exec m = (.ok c, n)) : m.EntersAlong n c := by
  unfold referenceNested at h
  rw [Build.exec_bind, Build.exec_get] at h
  simp only at h
  split at h
  · cases h
    exact .refl m c
  · split at h
    · cases h
    · rw [Build.exec_bind, Build.exec_liftExcept] at h
      cases hname : checkName .type name with
      | error e => simp [hname] at h
      | ok u =>
          rw [hname] at h
          cases h
          exact (entered_addNested ho name .plain .external .none).entersAlong rfl

/-- From class to class, a path enters nothing but classes on the way from its end outwards. -/
theorem entersAlong_of_referencePath (hm : m.WellFormed) (hc : m.Knows c ∧ (m.entry c).IsListed)
    {path : List String} (h : (referencePath c path).exec m = (.ok d, n)) :
    c ∈ d :: n.outers d ∧ m.EntersAlong n d := by
  induction path generalizing m c with
  | nil =>
      cases h
      exact ⟨List.mem_cons_self, .refl _ _⟩
  | cons name rest ih =>
      rw [referencePath, Build.exec_bind_eq_ok] at h
      obtain ⟨e, k, hfirst, hrest⟩ := h
      have hstep := growing_referenceNested (s := nowhere) hm hc.1 (Or.inr hc.2) name
      rw [hfirst] at hstep
      have hk := hm.grow hstep.grown
      have hknown := hstep.answer e rfl
      have hpath := growing_referencePath (s := nowhere) hk hknown rest
      rw [hrest] at hpath
      have hn := hk.grow hpath.grown
      have hext := extends_of_grown hpath.grown
      obtain ⟨hmem, halong⟩ := ih hk hknown hrest
      have houter : (n.entry e).outer = some c := by
        rw [(hext.sameOrigin e hknown.1).outer]
        exact ((get?_nested_eq_some_iff hk).mp (get?_nested_of_referenceNested hc.1 hfirst)).1
      have hc' : c ∈ e :: n.outers e := by
        rw [outers_of_outer_eq_some hn.outer_below houter]
        exact List.mem_cons_of_mem _ List.mem_cons_self
      refine ⟨mem_outers_trans hn.outer_below hmem hc', ?_⟩
      exact (entersAlong_of_referenceNested hc.1 hfirst).trans halong hext hk hn.outer_below hknown.1 hmem

theorem reference_eq_ok {q : String} (h : (reference q).exec m = (.ok c, n)) :
    ∃ p k top l, (package (BinaryName.ofString q).package).exec m = (.ok p, k) ∧
      (referenceIn p (BinaryName.ofString q).top).exec k = (.ok top, l) ∧
      (referencePath top (BinaryName.ofString q).nested).exec l = (.ok c, n) := by
  rw [reference, Build.exec_bind, Build.exec_get] at h
  simp only at h
  split at h
  · cases h
  · rw [Build.exec_bind_eq_ok] at h
    obtain ⟨p, k, hpackage, h⟩ := h
    rw [Build.exec_bind_eq_ok] at h
    obtain ⟨top, l, htop, hpath⟩ := h
    exact ⟨p, k, top, l, hpackage, htop, hpath⟩

theorem of_package {name : String} {p : PackageId} (h : (package name).exec m = (.ok p, n)) :
    n.classes = m.classes ∧ n.packages.length ≤ m.packages.length + 1 := by
  cases hfind : m.findPackage? name with
  | some p =>
      rw [exec_package_of_findPackage? hfind] at h
      cases h
      exact ⟨rfl, Nat.le_succ _⟩
  | none =>
      rw [exec_package_of_findPackage?_eq_none hfind] at h
      cases h
      exact ⟨rfl, by simp⟩

/-- What a reference enters: external classes from the class that it gives outwards, and one package at most. -/
theorem entered_of_reference (hm : m.WellFormed) {q : String} (h : (reference q).exec m = (.ok c, n)) :
    (∀ d, n.Knows d → ¬ m.Knows d → (n.entry d).origin = .external ∧ d ∈ c :: n.outers c) ∧
      n.packages.length ≤ m.packages.length + 1 := by
  obtain ⟨p, k, top, l, hpackage, htop, hpath⟩ := reference_eq_ok h
  have hgrown₁ := growing_package (s := nowhere) (m := m) (BinaryName.ofString q).package
  rw [hpackage] at hgrown₁
  have hk := hm.grow hgrown₁.grown
  have hp := hgrown₁.answer p rfl
  have hgrown₂ := growing_referenceIn (s := nowhere) hk hp (BinaryName.ofString q).top
  rw [htop] at hgrown₂
  have hl := hk.grow hgrown₂.grown
  have hknown := hgrown₂.answer top rfl
  have hgrown₃ := growing_referencePath (s := nowhere) hl hknown (BinaryName.ofString q).nested
  rw [hpath] at hgrown₃
  have hn := hl.grow hgrown₃.grown
  obtain ⟨hmem, halong⟩ := entersAlong_of_referencePath hl hknown hpath
  have hall := (entersAlong_of_referenceIn hp htop).trans halong (extends_of_grown hgrown₃.grown) hl hn.outer_below
    hknown.1 hmem
  obtain ⟨hclasses, hpackages⟩ := of_package hpackage
  refine ⟨fun d hd hnew ↦ ?_, hall.packages ▸ hpackages⟩
  have hnew' : ¬ k.Knows d := by rwa [Knows, hclasses]
  exact ⟨hall.external d hd hnew', hall.along d hd hnew'⟩

/-- A name that is found is referred to without a change. A name that is referred to is found from then on, and a
second reference changes nothing; what is new is one package at most and external classes from the class outwards.
A name is refused, and nothing changes, exactly when one of its segments is not known and is ill-formed or would
have to be created inside a class that the model defines. -/
theorem reference_agrees_with_lookup (hm : m.Reachable) (q : String) :
    (∀ c, m.lookup q = some c → (reference q).exec m = (.ok c, m)) ∧
    (∀ c n, (reference q).exec m = (.ok c, n) →
      n.lookup q = some c ∧ (reference q).exec n = (.ok c, n) ∧
        (∀ d, n.Knows d → ¬ m.Knows d → (n.entry d).origin = .external ∧ d ∈ c :: n.outers c) ∧
        n.packages.length ≤ m.packages.length + 1) ∧
    ((∃ e, ((reference q).exec m).1 = .error e) ↔ ∃ i, m.RefusesSegment (BinaryName.ofString q) i) ∧
    ∀ e n, (reference q).exec m = (.error e, n) → n = m := by
  refine ⟨fun c ↦ reference_of_lookup, fun c n h ↦ ?_, reference_fails_iff q, fun e n h ↦ ?_⟩
  · have hlookup := lookup_of_reference hm.wellFormed h
    exact ⟨hlookup, reference_of_lookup hlookup, entered_of_reference hm.wellFormed h⟩
  · have hsame := isAtomic_reference q m e (by rw [h])
    rwa [h] at hsame

/-- A class that is known, one that is entered with its package and the class around it, and one that is refused
inside a defined class. -/
theorem reference_agrees_with_lookup_nestedEverywhere :
    (initial.run nestedEverywhere).Reachable ∧
      ((initial.run nestedEverywhere).lookup "q.C$D" = some ⟨4⟩ ∧
        (reference "q.C$D").exec (initial.run nestedEverywhere) = (.ok ⟨4⟩, initial.run nestedEverywhere)) ∧
      (∃ n, (reference "r.E$F").exec (initial.run nestedEverywhere) = (.ok ⟨10⟩, n) ∧
        n.lookup "r.E$F" = some ⟨10⟩ ∧ (reference "r.E$F").exec n = (.ok ⟨10⟩, n) ∧ ⟨9⟩ ∈ n.outers ⟨10⟩) ∧
      ∃ e, ((reference "p.T$V$W").exec (initial.run nestedEverywhere)).1 = .error e := by
  have hreachable : (initial.run nestedEverywhere).Reachable := .run .initial (by decide +kernel)
  have hlookup : (initial.run nestedEverywhere).lookup "q.C$D" = some ⟨4⟩ := by decide +kernel
  have hnew : ((reference "r.E$F").exec (initial.run nestedEverywhere)).1 = .ok ⟨10⟩ := by decide +kernel
  obtain ⟨hfound, hagain, hentered, -⟩ := (reference_agrees_with_lookup hreachable "r.E$F").2.1 ⟨10⟩ _
    (Prod.ext hnew rfl)
  refine ⟨hreachable, ⟨hlookup, (reference_agrees_with_lookup hreachable "q.C$D").1 ⟨4⟩ hlookup⟩,
    ⟨_, Prod.ext hnew rfl, hfound, hagain, ?_⟩, ?_⟩
  · have hmem := (hentered ⟨9⟩ (by decide +kernel) (by decide +kernel)).2
    exact (List.mem_cons.mp hmem).resolve_left (by decide)
  · refine (reference_agrees_with_lookup hreachable "p.T$V$W").2.2.1.mpr ⟨1, "V", rfl, by decide +kernel, ?_⟩
    exact Or.inr ⟨0, ⟨1⟩, rfl, by decide +kernel, by decide +kernel⟩

end Model
end JavaSource
