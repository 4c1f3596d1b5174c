import JavaSource.Proofs.Model.Address
import JavaSource.Proofs.Rendering.Isolation

/-!
# Corresponding classes of two models

Two models can hold the same classes under different handles. Where classes correspond in name, origin and
place, they have the same full names, and packages are shared in both or in neither.
-/

namespace JavaSource.Model

/-- Under `f`, the classes in `S` are in the same places of both models, and so are the classes around them. -/
structure Corresponds (m n : Model) (f : ClassId → ClassId) (S : ClassId → Prop) : Prop where
  injective : Function.Injective f
  object_eq : f object = object
  knows : ∀ c, S c → m.Knows c
  knows' : ∀ c, S c → n.Knows (f c)
  named : ∀ c, S c → (m.entry c).origin ≠ .anonymous
  name_eq : ∀ c, S c → (n.entry (f c)).name = (m.entry c).name
  kind_eq : ∀ c, S c → (n.entry (f c)).kind = (m.entry c).kind
  origin_eq : ∀ c, S c → (n.entry (f c)).origin = (m.entry c).origin
  packageName_eq : ∀ c, S c →
    (n.packageEntry (n.entry (f c)).package).name = (m.packageEntry (m.entry c).package).name
  outer_eq : ∀ c, S c → (n.entry (f c)).outer = (m.entry c).outer.map f
  outer_mem : ∀ c o, S c → (m.entry c).outer = some o → S o

variable {m n : Model} {f : ClassId → ClassId} {S : ClassId → Prop} {c d o : ClassId}

namespace Corresponds

theorem mem_of_mem_outers (h : m.Corresponds n f S) (hm : m.WellFormed) (hc : S c) (ho : o ∈ m.outers c) : S o := by
  induction c using outer_induction hm.outer_below with
  | top c houter =>
      rw [outers_of_outer_eq_none houter] at ho
      cases ho
  | inner c p houter ih =>
      rw [outers_of_outer_eq_some hm.outer_below houter] at ho
      rcases List.mem_cons.mp ho with rfl | ho
      · exact h.outer_mem c _ hc houter
      · exact ih (h.outer_mem c p hc houter) ho

theorem outers_eq (h : m.Corresponds n f S) (hm : m.WellFormed) (hn : n.WellFormed) (hc : S c) :
    n.outers (f c) = (m.outers c).map f := by
  induction c using outer_induction hm.outer_below with
  | top c houter =>
      have houter' := h.outer_eq c hc
      rw [houter, Option.map_none] at houter'
      rw [outers_of_outer_eq_none houter, outers_of_outer_eq_none houter', List.map_nil]
  | inner c o houter ih =>
      have houter' := h.outer_eq c hc
      rw [houter, Option.map_some] at houter'
      rw [outers_of_outer_eq_some hm.outer_below houter, outers_of_outer_eq_some hn.outer_below houter',
        List.map_cons, ih (h.outer_mem c o hc houter)]

theorem outermost_eq (h : m.Corresponds n f S) (hm : m.WellFormed) (hn : n.WellFormed) (hc : S c) :
    n.outermost (f c) = f (m.outermost c) := by
  rw [outermost, outermost, h.outers_eq hm hn hc, List.getLast?_map]
  cases (m.outers c).getLast? <;> rfl

theorem nameStep_eq (h : m.Corresponds n f S) {separator : String} {g g' : ClassId → String}
    (hg : ∀ d, S d → g d = g' (f d)) (hc : S c) : m.nameStep separator g c = n.nameStep separator g' (f c) := by
  unfold nameStep
  simp only [h.origin_eq c hc, h.outer_eq c hc, h.name_eq c hc]
  have hpackaged : n.packaged (n.entry (f c)).package (m.entry c).name =
      m.packaged (m.entry c).package (m.entry c).name := by
    have hname := h.packageName_eq c hc
    simp only [packaged, Package.isUnnamed_congr hname, hname]
  cases horigin : (m.entry c).origin with
  | placeholder => rfl
  | anonymous => exact absurd horigin (h.named c hc)
  | defined | external =>
      cases ho : (m.entry c).outer with
      | none => exact hpackaged.symm
      | some o => simp only [Option.map_some, hg o (h.outer_mem c o hc ho)]

theorem fullName_eq (h : m.Corresponds n f S) (hc : S c) : n.fullName (f c) = m.fullName c := by
  refine (descend_rel_map (R := Eq) h.injective S (fun d hd ↦ h.knows d hd) (fun d hd ↦ h.knows' d hd)
    (fun d hd ↦ (h.name_eq d hd).symm) ?_ List.nodup_nil (List.forall_mem_nil _) (Nat.le_refl _) (Nat.le_refl _)
    hc).symm
  exact fun d g g' hd hg ↦ h.nameStep_eq hg hd

theorem package_eq_iff (h : m.Corresponds n f S) (hm : m.WellFormed) (hn : n.WellFormed) (hc : S c)
    {p p' : PackageId} (hp : m.KnowsPackage p) (hp' : n.KnowsPackage p')
    (hname : (n.packageEntry p').name = (m.packageEntry p).name) :
    (n.entry (f c)).package = p' ↔ (m.entry c).package = p := by
  have hknown := hm.package_known c (h.knows c hc)
  have hknown' := hn.package_known _ (h.knows' c hc)
  constructor
  · intro heq
    refine hm.package_eq_of_name hknown hp ?_
    rw [← h.packageName_eq c hc, heq, hname]
  · intro heq
    refine hn.package_eq_of_name hknown' hp' ?_
    rw [h.packageName_eq c hc, heq, hname]

theorem package_eq_builtin_iff (h : m.Corresponds n f S) (hm : m.WellFormed) (hn : n.WellFormed) (hc : S c) :
    (n.entry (f c)).package = builtinPackage ↔ (m.entry c).package = builtinPackage := by
  obtain ⟨hknown, hname⟩ := hm.knows_builtinPackage
  obtain ⟨hknown', hname'⟩ := hn.knows_builtinPackage
  exact h.package_eq_iff hm hn hc hknown hknown' (hname'.trans hname.symm)

theorem package_eq_root_iff (h : m.Corresponds n f S) (hm : m.WellFormed) (hn : n.WellFormed) (hc : S c) :
    (n.entry (f c)).package = rootPackage ↔ (m.entry c).package = rootPackage :=
  h.package_eq_iff hm hn hc hm.knows_rootPackage hn.knows_rootPackage
    (hn.name_rootPackage.trans hm.name_rootPackage.symm)

theorem package_eq_package_iff (h : m.Corresponds n f S) (hm : m.WellFormed) (hn : n.WellFormed) (hc : S c)
    (hd : S d) : (n.entry (f c)).package = (n.entry (f d)).package ↔ (m.entry c).package = (m.entry d).package :=
  h.package_eq_iff hm hn hc (hm.package_known d (h.knows d hd)) (hn.package_known _ (h.knows' d hd))
    (h.packageName_eq d hd)

/-- What corresponds in later models corresponds in the earlier ones as far as it is there. -/
theorem earlier {m₀ n₀ : Model} (h : m.Corresponds n f S) (hm : m₀.Extends m) (hn : n₀.Extends n)
    (hm₀ : m₀.WellFormed) (hn₀ : n₀.WellFormed) :
    m₀.Corresponds n₀ f fun c ↦ S c ∧ m₀.Knows c ∧ n₀.Knows (f c) where
  injective := h.injective
  object_eq := h.object_eq
  knows c hc := hc.2.1
  knows' c hc := hc.2.2
  named c hc := (hm.sameOrigin c hc.2.1).origin ▸ h.named c hc.1
  name_eq c hc := by
    rw [← (hn.sameOrigin _ hc.2.2).name, ← (hm.sameOrigin c hc.2.1).name, h.name_eq c hc.1]
  kind_eq c hc := by
    rw [← (hn.sameOrigin _ hc.2.2).kind, ← (hm.sameOrigin c hc.2.1).kind, h.kind_eq c hc.1]
  origin_eq c hc := by
    rw [← (hn.sameOrigin _ hc.2.2).origin, ← (hm.sameOrigin c hc.2.1).origin, h.origin_eq c hc.1]
  packageName_eq c hc := by
    rw [← hn.packageName _ (hn₀.package_known _ hc.2.2), ← hm.packageName _ (hm₀.package_known c hc.2.1),
      ← (hn.sameOrigin _ hc.2.2).package, ← (hm.sameOrigin c hc.2.1).package, h.packageName_eq c hc.1]
  outer_eq c hc := by
    rw [← (hn.sameOrigin _ hc.2.2).outer, ← (hm.sameOrigin c hc.2.1).outer, h.outer_eq c hc.1]
  outer_mem c o hc ho := by
    have houter := (hm.sameOrigin c hc.2.1).outer.trans ho
    have houter' := h.outer_eq c hc.1
    rw [houter, (hn.sameOrigin _ hc.2.2).outer, Option.map_some] at houter'
    exact ⟨h.outer_mem c o hc.1 houter, (hm₀.knows_of_outer ho).2, (hn₀.knows_of_outer houter').2⟩

end Corresponds
end JavaSource.Model
