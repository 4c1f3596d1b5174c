import JavaSource.Proofs.Model.Step

/-!
# What operations leave alone

A later model has all classes and packages of an earlier one, under the same names and in the same places. The
entry of a class only changes when an operation is about its members or enters a class inside it.
-/

namespace JavaSource.Model

/-- What a model keeps of an earlier one, whatever has been done in between. -/
structure Extends (m n : Model) : Prop where
  classes : m.classes.length ≤ n.classes.length
  packages : m.packages.length ≤ n.packages.length
  sameOrigin : ∀ c, m.Knows c → (m.entry c).SameOrigin (n.entry c)
  packageName : ∀ p, m.KnowsPackage p → (n.packageEntry p).name = (m.packageEntry p).name

/-- No class is new in the model `n` directly inside the class. -/
def NothingNewIn (m n : Model) (c : ClassId) : Prop :=
  ∀ d, n.Knows d → ¬ m.Knows d → (n.entry d).outer ≠ some c

variable {s : Sites} {m n : Model}

theorem Extends.refl (m : Model) : m.Extends m where
  classes := Nat.le_refl _
  packages := Nat.le_refl _
  sameOrigin _ _ := .refl _
  packageName _ _ := rfl

theorem Extends.knows (h : m.Extends n) {c : ClassId} (hc : m.Knows c) : n.Knows c :=
  Nat.lt_of_lt_of_le hc h.classes

theorem Extends.knowsPackage (h : m.Extends n) {p : PackageId} (hp : m.KnowsPackage p) :
    n.KnowsPackage p :=
  Nat.lt_of_lt_of_le hp h.packages

theorem Extends.trans {k : Model} (h : m.Extends k) (hk : k.Extends n) : m.Extends n where
  classes := Nat.le_trans h.classes hk.classes
  packages := Nat.le_trans h.packages hk.packages
  sameOrigin c hc := (h.sameOrigin c hc).trans (hk.sameOrigin c (h.knows hc))
  packageName p hp := (hk.packageName p (h.knowsPackage hp)).trans (h.packageName p hp)

/-! ## Additions -/

theorem Addition.extends (h : Addition s m n) : m.Extends n := by
  cases h with
  | @package name hfree =>
      refine ⟨Nat.le_refl _, ?_, fun _ _ ↦ .refl _, fun p hp ↦ ?_⟩
      · rw [length_packages_pushPackage]
        exact Nat.le_succ _
      · have hne : p ≠ m.nextPackage := by
          rintro rfl
          exact Nat.lt_irrefl _ hp
        rw [packageEntry_pushPackage, if_neg hne]
  | «class» _ hn _ =>
      exact ⟨hn.length_classes ▸ Nat.le_succ _, Nat.le_of_eq hn.length_packages.symm,
        fun c hc ↦ hn.sameOrigin hc, fun p _ ↦ hn.packageName p⟩

theorem Addition.sameMembers (h : Addition s m n) {c : ClassId} (hc : m.Knows c) : m.SameMembers n c := by
  cases h with
  | package _ => exact ⟨_, rfl⟩
  | «class» _ hn _ => exact ⟨_, hn.entry_old c hc⟩

theorem Addition.entry_eq (h : Addition s m n) {c : ClassId} (hc : m.Knows c) (hnew : m.NothingNewIn n c) :
    n.entry c = m.entry c := by
  cases h with
  | package _ => rfl
  | @«class» e _ _ hn _ =>
      have houter : e.outer ≠ some c := by
        have hnext := hnew m.nextClass (hn.knows_iff.mpr (Or.inr rfl)) (Nat.lt_irrefl _)
        rwa [hn.entry_new] at hnext
      rw [hn.entry_old c hc]
      simp only [houter, if_false]

/-- Only defined classes have members and annotations, and no class is the body of an instance creation. -/
structure Declarative (m : Model) : Prop where
  bare : ∀ c, (m.entry c).origin ≠ .defined → (m.entry c).IsBare
  named : ∀ c, (m.entry c).origin ≠ .anonymous

theorem declarative_initial : initial.Declarative where
  bare c _ := by rcases entry_initial c with h | h <;> rw [h] <;> exact ⟨rfl, rfl, rfl⟩
  named c := by rcases entry_initial c with h | h <;> rw [h] <;> exact nofun

theorem declarative_of_forall (hnamed : ∀ e ∈ m.classes, e.origin ≠ .anonymous)
    (hbare : ∀ e ∈ m.classes, e.origin ≠ .defined → e.fields = [] ∧ e.methods = [] ∧ e.annotations = []) :
    m.Declarative where
  bare c hc := by
    obtain ⟨hfields, hmethods, hannotations⟩ := entry_of_forall
      (P := fun e ↦ e.origin ≠ .defined → e.fields = [] ∧ e.methods = [] ∧ e.annotations = [])
      (fun _ ↦ ⟨rfl, rfl, rfl⟩) hbare c hc
    exact ⟨hfields, hmethods, hannotations⟩
  named := entry_of_forall (P := fun e ↦ e.origin ≠ .anonymous) nofun hnamed

theorem Declarative.enter (hm : m.Declarative) {e : ClassEntry} (he : m.Enterable e) (hn : m.Entered e n)
    (hnamed : e.origin ≠ .anonymous) : n.Declarative := by
  constructor
  · intro c hc
    by_cases hold : m.Knows c
    · rw [hn.entry_old c hold] at hc ⊢
      have hbare := hm.bare c hc
      exact ⟨hbare.fields, hbare.methods, hbare.annotations⟩
    · by_cases hnew : c = m.nextClass
      · rw [hnew, hn.entry_new]
        exact he.bare
      · rw [entry_of_not_knows fun h ↦ (hn.knows_iff.mp h).elim hold hnew]
        exact ⟨rfl, rfl, rfl⟩
  · intro c
    by_cases hold : m.Knows c
    · rw [hn.entry_old c hold]
      exact hm.named c
    · by_cases hnew : c = m.nextClass
      · rw [hnew, hn.entry_new]
        exact hnamed
      · rw [entry_of_not_knows fun h ↦ (hn.knows_iff.mp h).elim hold hnew]
        exact nofun

theorem Declarative.grow (hm : m.Declarative) (hs : ¬ s.bodies) (h : Relation.ReflTransGen (Addition s) m n) :
    n.Declarative := by
  induction h with
  | refl => exact hm
  | tail _ h ih =>
      cases h with
      | package _ => exact ⟨ih.bare, ih.named⟩
      | «class» he hn htake => exact ih.enter he hn fun horigin ↦ hs (htake.bodies horigin)

theorem extends_of_grown (h : Relation.ReflTransGen (Addition s) m n) : m.Extends n := by
  induction h with
  | refl => exact .refl m
  | tail _ h ih => exact ih.trans h.extends

theorem sameMembers_of_grown (h : Relation.ReflTransGen (Addition s) m n) {c : ClassId} (hc : m.Knows c) :
    m.SameMembers n c := by
  induction h with
  | refl => exact ⟨_, rfl⟩
  | tail hmid h ih =>
      obtain ⟨nested, hentry⟩ := ih
      obtain ⟨nested', hentry'⟩ := h.sameMembers ((extends_of_grown hmid).knows hc)
      exact ⟨nested', by rw [hentry', hentry]⟩

theorem entry_eq_of_grown (h : Relation.ReflTransGen (Addition s) m n) {c : ClassId} (hc : m.Knows c)
    (hnew : m.NothingNewIn n c) : n.entry c = m.entry c := by
  induction h with
  | refl => rfl
  | @tail k n hmid h ih =>
      have hext := extends_of_grown hmid
      rw [h.entry_eq (hext.knows hc) fun d hd hdk ↦ hnew d hd fun hdm ↦ hdk (hext.knows hdm)]
      refine ih fun d hd hdm ↦ ?_
      have hsame := h.extends.sameOrigin d hd
      rw [← hsame.outer]
      exact hnew d (h.extends.knows hd) hdm

theorem Sites.Take.later {e f : ClassEntry} (h : s.Take m e) (hsame : e.SameOrigin f) (hext : m.Extends n)
    (hknown : ∀ o, e.outer = some o → m.Knows o) : s.Take n f where
  inner o ho := by
    rw [hsame.outer] at ho
    rw [(hext.sameOrigin o (hknown o ho)).origin]
    exact h.inner o ho
  top horigin houter := by
    rw [hsame.package]
    exact h.top (hsame.origin ▸ horigin) (hsame.outer ▸ houter)
  bodies horigin := h.bodies (hsame.origin ▸ horigin)

theorem take_of_grown (hm : m.WellFormed) (h : Relation.ReflTransGen (Addition s) m n) {d : ClassId}
    (hd : n.Knows d) (hnew : ¬ m.Knows d) : s.Take n (n.entry d) := by
  induction h with
  | refl => exact absurd hd hnew
  | @tail k n hmid h ih =>
      have hk := hm.grow hmid
      by_cases hdk : k.Knows d
      · exact (ih hdk).later (h.extends.sameOrigin d hdk) h.extends fun o ho ↦ (hk.knows_of_outer ho).2
      · cases h with
        | package hfree => exact absurd hd hdk
        | @«class» e _ he hn hs =>
            obtain rfl : d = k.nextClass := (hn.knows_iff.mp hd).resolve_left hdk
            rw [hn.entry_new]
            exact hs.later (.refl e) (Addition.class he hn hs).extends fun o ho ↦
              (he.inner_free o ho).1

/-! ## Operations -/

theorem entry_modifyClass_of_reworked {c : ClassId} {e : ClassEntry} {added : List Mention}
    (he : (m.entry c).Reworked added e) (d : ClassId) :
    (m.entry d).SameOrigin ((m.modifyClass c fun _ ↦ e).entry d) := by
  rw [entry_modifyClass]
  split
  · rename_i h
    exact h.1 ▸ he.sameOrigin
  · exact .refl _

theorem extends_step (hm : m.WellFormed) {o : Operation} (ho : m.Admits o) : m.Extends (o.step m) := by
  rcases step_cases hm ho with ⟨c, s, e, rfl, he, hstep⟩ | hgrown
  · rw [hstep]
    exact ⟨by simp, Nat.le_refl _,
      fun d _ ↦ entry_modifyClass_of_reworked (MemberStep.reworked he) d, fun _ _ ↦ rfl⟩
  · exact extends_of_grown hgrown

/-- An operation leaves the entry of a class alone, but for classes inside it, unless it is about members of
the class. -/
theorem sameMembers_step (hm : m.WellFormed) {o : Operation} (ho : m.Admits o) {c : ClassId}
    (hc : m.Knows c) (hother : ∀ s, o ≠ .member c s) : m.SameMembers (o.step m) c := by
  rcases step_cases hm ho with ⟨d, s, e, rfl, -, hstep⟩ | hgrown
  · have hne : d ≠ c := by
      rintro rfl
      exact hother s rfl
    exact ⟨_, by rw [hstep, entry_modifyClass_ne m hne]⟩
  · exact sameMembers_of_grown hgrown hc

/-- An operation leaves the entry of a class alone unless it is about members of the class or enters a class
inside it. -/
theorem entry_step_eq (hm : m.WellFormed) {o : Operation} (ho : m.Admits o) {c : ClassId}
    (hc : m.Knows c) (hother : ∀ s, o ≠ .member c s) (hnew : m.NothingNewIn (o.step m) c) :
    (o.step m).entry c = m.entry c := by
  rcases step_cases hm ho with ⟨d, s, e, rfl, -, hstep⟩ | hgrown
  · have hne : d ≠ c := by
      rintro rfl
      exact hother s rfl
    rw [hstep, entry_modifyClass_ne m hne]
  · exact entry_eq_of_grown hgrown hc hnew

/-- What an operation enters is at its sites. -/
theorem take_of_step (hm : m.WellFormed) {o : Operation} (ho : m.Admits o) {d : ClassId}
    (hd : (o.step m).Knows d) (hnew : ¬ m.Knows d) : o.sites.Take (o.step m) ((o.step m).entry d) := by
  rcases step_cases hm ho with ⟨c, s, e, rfl, -, hstep⟩ | hgrown
  · rw [hstep] at hd
    exact absurd (by simpa [Knows] using hd) hnew
  · exact take_of_grown hm hgrown hd hnew

end JavaSource.Model
