import JavaSource.Proofs.Model.Address
import JavaSource.Proofs.Model.Descent
import JavaSource.Proofs.Model.Tables

/-!
# What handles are good for

A caller holds on to the handles of packages and classes while building goes on. A handle keeps leading to the
same package or class under the same name, and the tables behind it only get new entries after the old ones.
The full name of a class is the same later on as well, unless its chain of enclosing classes begins at the body
of an instance creation, which may be given another base.
-/

namespace JavaSource

theorem Table.prefix_insert {α : Type} {t : Table α} {name : String} {a : α} (h : t.get? name = none) :
    t.entries <+: (t.insert name a).entries := by
  rw [entries_insert_of_notMem (get?_eq_none_iff.mp h)]
  exact List.prefix_append _ _

theorem Package.isUnnamed_congr {p q : Package} (h : p.name = q.name) : p.isUnnamed = q.isUnnamed := by
  simp [isUnnamed, h]

namespace Model

variable {s : Sites} {m n : Model} {c : ClassId}

/-! ## Tables -/

/-- The tables of packages and classes of the model `m` have grown at their ends. -/
structure TablesGrow (m n : Model) : Prop where
  classes : ∀ p, m.KnowsPackage p → (m.packageEntry p).classes.entries <+: (n.packageEntry p).classes.entries
  nested : ∀ c, m.Knows c → (m.entry c).nested.entries <+: (n.entry c).nested.entries

theorem TablesGrow.refl (m : Model) : m.TablesGrow m := ⟨fun _ _ ↦ List.prefix_rfl, fun _ _ ↦ List.prefix_rfl⟩

theorem TablesGrow.trans {k : Model} (hext : m.Extends k) (h : m.TablesGrow k) (hk : k.TablesGrow n) :
    m.TablesGrow n where
  classes p hp := (h.classes p hp).trans (hk.classes p (hext.knowsPackage hp))
  nested c hc := (h.nested c hc).trans (hk.nested c (hext.knows hc))

/-- A new class is put into a table that has nothing under its name. -/
theorem Entered.tablesGrow {e : ClassEntry} (he : m.Enterable e) (hn : m.Entered e n) : m.TablesGrow n where
  classes p _ := by
    by_cases hp : e.IsListed ∧ e.outer = none ∧ p = e.package
    · obtain ⟨hlisted, houter, rfl⟩ := hp
      rw [hn.package_own hlisted houter]
      exact Table.prefix_insert (he.top_free hlisted houter)
    · simp only [hn.package_other p hp, List.prefix_rfl]
  nested c hc := by
    rw [hn.entry_old c hc]
    by_cases ho : e.outer = some c
    · simp only [ho, if_true]
      exact Table.prefix_insert (he.inner_free c ho).2
    · simp only [ho, if_false, List.prefix_rfl]

theorem Addition.tablesGrow (h : Addition s m n) : m.TablesGrow n := by
  cases h with
  | @package name hfree =>
      refine ⟨fun p hp ↦ ?_, fun _ _ ↦ List.prefix_rfl⟩
      have hne : p ≠ m.nextPackage := by
        rintro rfl
        exact Nat.lt_irrefl _ hp
      simp only [packageEntry_pushPackage, if_neg hne, List.prefix_rfl]
  | «class» he hn _ => exact hn.tablesGrow he

theorem tablesGrow_of_grown (h : Relation.ReflTransGen (Addition s) m n) : m.TablesGrow n := by
  induction h with
  | refl => exact .refl m
  | tail hmid h ih => exact .trans (extends_of_grown hmid) ih h.tablesGrow

theorem tablesGrow_step (hm : m.WellFormed) {o : Operation} (ho : m.Admits o) : m.TablesGrow (o.step m) := by
  rcases step_cases hm ho with ⟨c, s, e, rfl, he, hstep⟩ | hgrown
  · rw [hstep]
    refine ⟨fun _ _ ↦ List.prefix_rfl, fun d _ ↦ ?_⟩
    have hnested : e.nested = (m.entry c).nested := (MemberStep.reworked he).nested
    by_cases hd : d = c ∧ m.Knows c
    · obtain ⟨rfl, hc⟩ := hd
      simp [entry_modifyClass, hc, hnested]
    · simp [entry_modifyClass, hd]
  · exact tablesGrow_of_grown hgrown

/-! ## Names -/

theorem packaged_congr {p : PackageId} (h : (n.packageEntry p).name = (m.packageEntry p).name)
    (name : String) : n.packaged p name = m.packaged p name := by
  simp only [packaged, Package.isUnnamed_congr h, h]

/-- A step of a name comes out the same in a later model when the names that it takes do. -/
theorem Extends.nameStep_eq (h : m.Extends n) (hm : m.WellFormed) (hc : m.Knows c) {separator : String}
    {f g : ClassId → String}
    (hsuper : (m.entry c).origin = .anonymous → (n.entry c).superclass = (m.entry c).superclass)
    (hbase : ∀ base, (m.entry c).origin = .anonymous → (m.entry c).superclass = some base →
      f base.basis = g base.basis)
    (houter : ∀ o, (m.entry c).outer = some o → f o = g o) :
    m.nameStep separator f c = n.nameStep separator g c := by
  have hsame := h.sameOrigin c hc
  have hpackaged := packaged_congr (h.packageName _ (hm.package_known c hc)) (m.entry c).name
  unfold nameStep
  simp only [hsame.origin, hsame.outer, hsame.name, hsame.package, hpackaged]
  cases horigin : (m.entry c).origin with
  | placeholder => rfl
  | anonymous =>
      rw [hsuper horigin]
      cases hs : (m.entry c).superclass with
      | some base => exact hbase base horigin hs
      | none =>
          cases ho : (m.entry c).outer with
          | some o => simp only [houter o ho]
          | none => rfl
  | defined | external =>
      cases ho : (m.entry c).outer with
      | some o => simp only [houter o ho]
      | none => rfl

/-- Names stay as they are in a set of classes that holds all classes their names run through, when the bodies
of instance creations among them keep their bases. -/
theorem Extends.qualifiedName_eq (h : m.Extends n) (hm : m.WellFormed) (known : ClassId → Prop)
    (hknown : ∀ d, known d → m.Knows d)
    (hsuper : ∀ d, known d → (m.entry d).origin = .anonymous →
      (n.entry d).superclass = (m.entry d).superclass)
    (hbase : ∀ d base, known d → (m.entry d).origin = .anonymous → (m.entry d).superclass = some base →
      known base.basis)
    (houter : ∀ d o, known d → (m.entry d).outer = some o → known o) (separator : String) (hc : known c) :
    n.qualifiedName separator c = m.qualifiedName separator c := by
  refine (descend_rel (R := Eq) known hknown (fun d hd ↦ ((h.sameOrigin d (hknown d hd)).name).symm) ?_
    List.nodup_nil (by simp) (Nat.le_refl _) h.classes hc).symm
  exact fun d f g hd hfg ↦ h.nameStep_eq hm (hknown d hd) (hsuper d hd)
    (fun base horigin hs ↦ hfg _ (hbase d base hd horigin hs)) fun o ho ↦ hfg o (houter d o hd ho)

/-- Where neither the class nor one around it is the body of an instance creation, the name is settled. -/
theorem Extends.qualifiedName_eq_of_named (h : m.Extends n) (hm : m.WellFormed) (separator : String)
    (hc : m.Knows c) (hnamed : ∀ d ∈ c :: m.outers c, (m.entry d).origin ≠ .anonymous) :
    n.qualifiedName separator c = m.qualifiedName separator c := by
  refine h.qualifiedName_eq hm (fun d ↦ m.Knows d ∧ ∀ e ∈ d :: m.outers d, (m.entry e).origin ≠ .anonymous)
    (fun d hd ↦ hd.1) (fun d hd horigin ↦ ?_) (fun d _ hd horigin _ ↦ ?_) (fun d o hd ho ↦ ?_) separator
    ⟨hc, hnamed⟩
  · exact absurd horigin (hd.2 d (List.mem_cons_self ..))
  · exact absurd horigin (hd.2 d (List.mem_cons_self ..))
  · rw [outers_of_outer_eq_some hm.outer_below ho] at hd
    exact ⟨(hm.knows_of_outer ho).2, fun e he ↦ hd.2 e (List.mem_cons_of_mem _ he)⟩

/-! ## Whole runs -/

/-- Everything that the handles of the model `m` are good for is the same in the model `n`. -/
structure KeepsHandles (m n : Model) : Prop where
  /-- Classes keep their name, kind, origin, package and outer class, packages their name. -/
  kept : m.Extends n
  tables : m.TablesGrow n
  outermost : ∀ c, m.Knows c → n.outermost c = m.outermost c
  names : ∀ c, m.Knows c → (∀ d ∈ c :: m.outers c, (m.entry d).origin ≠ .anonymous) →
    n.fullName c = m.fullName c ∧ n.binaryName c = m.binaryName c

theorem kept_run (hm : m.WellFormed) {os : List Operation} (hos : m.AdmitsAll os) :
    m.Extends (m.run os) ∧ m.TablesGrow (m.run os) := by
  induction os generalizing m with
  | nil => exact ⟨.refl m, .refl m⟩
  | cons o os ih =>
      have hext := extends_step hm hos.1
      obtain ⟨hlater, htables⟩ := ih (hm.step hos.1) hos.2
      exact ⟨hext.trans hlater, .trans hext (tablesGrow_step hm hos.1) htables⟩

/-- Handles stay good, whatever is built next. -/
theorem keepsHandles_run (hm : m.Reachable) {os : List Operation} (hos : m.AdmitsAll os) :
    m.KeepsHandles (m.run os) := by
  have hm := hm.wellFormed
  obtain ⟨hext, htables⟩ := kept_run hm hos
  refine ⟨hext, htables, fun c hc ↦ ?_, fun c hc hnamed ↦ ?_⟩
  · simp only [outermost, hext.outers_eq hm hc]
  · exact ⟨hext.qualifiedName_eq_of_named hm "." hc hnamed, hext.qualifiedName_eq_of_named hm "$" hc hnamed⟩

/-- Classes beside and inside those of `nestedEverywhere`, and another base for the body of an instance creation. -/
def laterEverywhere : List Operation :=
  [.define (.class ⟨1⟩) .none "V" .plain, .reference "q.C$E", .define (.package ⟨2⟩) .none "T" .plain,
    .member ⟨5⟩ (.superclass (.reference ⟨4⟩)), .member ⟨1⟩ (.field .none (.reference ⟨2⟩) "f")]

theorem keepsHandles_laterEverywhere :
    (initial.run nestedEverywhere).Reachable ∧ (initial.run nestedEverywhere).AdmitsAll laterEverywhere ∧
      (initial.run nestedEverywhere).KeepsHandles ((initial.run nestedEverywhere).run laterEverywhere) ∧
      ((initial.run nestedEverywhere).run laterEverywhere).fullName ⟨4⟩ = "q.C.D" := by
  have hreachable : (initial.run nestedEverywhere).Reachable := .run .initial (by decide +kernel)
  have hadmits : (initial.run nestedEverywhere).AdmitsAll laterEverywhere := by decide +kernel
  have hkeeps := keepsHandles_run hreachable hadmits
  have hname : (initial.run nestedEverywhere).fullName ⟨4⟩ = "q.C.D" := by decide +kernel
  exact ⟨hreachable, hadmits, hkeeps,
    (hkeeps.names ⟨4⟩ (by decide +kernel) (by decide +kernel)).1.trans hname⟩

/-- A class inside the body of an instance creation goes by the base of that. -/
example :
    (initial.run nestedEverywhere).fullName ⟨6⟩ = "p.T.X" ∧
      ((initial.run nestedEverywhere).run laterEverywhere).fullName ⟨6⟩ = "q.C.D.X" := by
  decide +kernel

end Model
end JavaSource
