import Mathlib.Logic.Function.Iterate
import JavaSource.Proofs.Model.Naming

/-!
# Names that come to no end

An anonymous class goes by the name of its base, and it may be given another base at any time. When the name of
the new base is made from that of the class itself, the names run in a circle from then on. Nothing else that is
done to a model takes the end from a name.
-/

namespace JavaSource

/-- Only one change to a class gives it another superclass. -/
theorem MemberStep.superclass_cases {e f : ClassEntry} {s : MemberStep} (h : s.apply e = .ok f) :
    (∃ t base, s = .superclass t ∧ ClassType.ofType? t = some base ∧ f.superclass = some base) ∨
      f.superclass = e.superclass := by
  cases s with
  | superclass t =>
      obtain ⟨-, base, hbase, rfl⟩ := ClassEntry.setExtends_eq_ok_iff.mp h
      exact Or.inl ⟨t, base, rfl, hbase, rfl⟩
  | modifiers _ | adjustField _ _ _ _ _ | constructor _ | adjustConstant _ _ | initBlock _ _ | javadoc _ =>
      cases h
      exact Or.inr rfl
  | annotate target u =>
      cases h
      cases target <;> exact Or.inr rfl
  | implement t =>
      obtain ⟨_, -, rfl⟩ := ClassEntry.addInterface_eq_ok h
      exact Or.inr rfl
  | typeParam v =>
      obtain ⟨-, -, rfl⟩ := ClassEntry.generify_eq_ok h
      exact Or.inr rfl
  | method mods t name =>
      obtain ⟨-, rfl⟩ := ClassEntry.addMethod_eq_ok h
      exact Or.inr rfl
  | field mods t name =>
      obtain ⟨-, -, rfl⟩ := ClassEntry.addField_eq_ok h
      exact Or.inr rfl
  | renameField old new =>
      obtain ⟨-, -, -, rfl⟩ := ClassEntry.renameField_eq_ok_iff.mp h
      exact Or.inr rfl
  | constant name =>
      obtain ⟨-, -, -, rfl⟩ := ClassEntry.addConstant_eq_ok h
      exact Or.inr rfl
  | inMethod i s =>
      obtain rfl | ⟨_, _, -, -, rfl⟩ := ClassEntry.updateMethod_eq_ok h <;> exact Or.inr rfl

namespace Model

variable {m n : Model} {c d : ClassId}

/-! ## Links that stay -/

theorem nameSource?_congr (hsame : (m.entry c).SameOrigin (n.entry c))
    (hsuper : (m.entry c).origin = .anonymous → (n.entry c).superclass = (m.entry c).superclass) :
    n.nameSource? c = m.nameSource? c := by
  simp only [nameSource?, hsame.origin, hsame.outer]
  cases horigin : (m.entry c).origin with
  | anonymous => simp only [hsuper horigin]
  | defined | external | placeholder => rfl

/-- A name has its end in a later model as well when the classes that it is made from have the sources they had. -/
theorem HasNameEnd.congr (hc : m.HasNameEnd c) (known : ClassId → Prop) (hknown : known c)
    (hnext : ∀ d e, known d → m.NamedAfter d e → known e)
    (hsame : ∀ d, known d → n.nameSource? d = m.nameSource? d) : n.HasNameEnd c := by
  induction hc with
  | intro c _ ih =>
      refine Acc.intro c fun d hd ↦ ?_
      have hd' : m.NamedAfter c d := (hsame c hknown).symm.trans hd
      exact ih d hd' (hnext c d hknown hd')

/-! ## Additions -/

theorem nameSource?_of_extends (h : m.Extends n) (hc : m.Knows c) (hmembers : m.SameMembers n c) :
    n.nameSource? c = m.nameSource? c := by
  refine nameSource?_congr (h.sameOrigin c hc) fun _ ↦ ?_
  obtain ⟨nested, hentry⟩ := hmembers
  rw [hentry]

/-- No name is made from that of a new class. -/
theorem Addition.knows_of_namedAfter {s : Sites} (hm : m.WellFormed) (h : Addition s m n) (hd : n.NamedAfter c d) :
    m.Knows d := by
  by_cases hc : m.Knows c
  · have hsame := nameSource?_of_extends h.extends hc (h.sameMembers hc)
    exact hm.knows_of_namedAfter (hsame.symm.trans hd)
  · cases h with
    | package _ => exact hm.knows_of_namedAfter (c := c) hd
    | «class» he hn _ =>
        by_cases hnew : c = m.nextClass
        · subst hnew
          rcases namedAfter_cases hd with ⟨_, base, hs, rfl⟩ | ho
          · rw [hn.entry_new] at hs
            exact knows_basis_of_superclass he.mentions_known hs
          · rw [hn.entry_new] at ho
            exact (he.inner_free d ho).1
        · exact absurd hd.knows fun hk ↦ (hn.knows_iff.mp hk).elim hc hnew

theorem Addition.hasNameEnd {s : Sites} (hm : m.WellFormed) (h : Addition s m n) (hends : ∀ c, m.HasNameEnd c)
    (c : ClassId) : n.HasNameEnd c := by
  have hold : ∀ d, m.Knows d → n.HasNameEnd d := fun d hd ↦
    (hends d).congr m.Knows hd (fun _ _ _ he ↦ hm.knows_of_namedAfter he) fun e he ↦
      nameSource?_of_extends h.extends he (h.sameMembers he)
  exact Acc.intro c fun d hd ↦ hold d (h.knows_of_namedAfter hm hd)

theorem hasNameEnd_of_grown {s : Sites} (hm : m.WellFormed) (h : Relation.ReflTransGen (Addition s) m n)
    (hends : ∀ c, m.HasNameEnd c) : ∀ c, n.HasNameEnd c := by
  induction h with
  | refl => exact hends
  | tail hmid h ih => exact h.hasNameEnd (hm.grow hmid) ih

/-! ## Another base -/

section Redirect

variable {b : ClassId} (hother : ∀ d, d ≠ c → n.nameSource? d = m.nameSource? d) (hbase : n.NamedAfter c b)

include hother

/-- A way that leads to the class leads to it still. -/
theorem reflTransGen_namedAfter_of_redirect (h : Relation.ReflTransGen m.NamedAfter d c) :
    Relation.ReflTransGen n.NamedAfter d c := by
  induction h using Relation.ReflTransGen.head_induction_on with
  | refl => exact .refl
  | @head d e hde _ ih =>
      by_cases hd : d = c
      · exact hd ▸ .refl
      · exact .head ((hother d hd).trans hde) ih

include hbase

/-- When the name of a class is made from another, the names keep their ends unless the other is made from it. -/
theorem hasNameEnd_redirect_iff (hends : ∀ d, m.HasNameEnd d) :
    (∀ d, n.HasNameEnd d) ↔ ¬ Relation.ReflTransGen m.NamedAfter b c := by
  constructor
  · intro hn hloop
    exact (hn c).not_transGen (.head' hbase (reflTransGen_namedAfter_of_redirect hother hloop))
  · intro hapart
    -- No way from `b` meets `c`, so `b` keeps its end. With it `c` has one, and with `c` all that leads there.
    have hb : n.HasNameEnd b := by
      refine (hends b).congr (fun d ↦ ¬ Relation.ReflTransGen m.NamedAfter d c) hapart
        (fun d e hd hde he ↦ hd (.head hde he)) fun d hd ↦ hother d ?_
      rintro rfl
      exact hd .refl
    have hc : n.HasNameEnd c := Acc.intro c fun d hd ↦ by
      obtain rfl : b = d := Option.some.inj (hbase.symm.trans hd)
      exact hb
    intro d
    induction hends d with
    | intro d _ ih =>
        by_cases hd : d = c
        · exact hd ▸ hc
        · exact Acc.intro d fun e he ↦ ih e ((hother d hd).symm.trans he)

end Redirect

/-! ## One operation -/

/-- Anonymous classes are of the plain kind and have a base. -/
def AnonymousBased (m : Model) : Prop :=
  ∀ c, (m.entry c).origin = .anonymous → (m.entry c).kind = .plain ∧ ∃ base, (m.entry c).superclass = some base

/-- An anonymous class is given a base whose name is made from that of the class. -/
def ClosesLoop (m : Model) (o : Operation) : Prop :=
  ∃ c t base, o = .member c (.superclass t) ∧ (m.entry c).origin = .anonymous ∧
    ClassType.ofType? t = some base ∧ Relation.ReflTransGen m.NamedAfter base.basis c

theorem step_anonymous (m : Model) (base : JavaType) :
    (Operation.anonymous base).step m =
      match ClassType.ofType? base with
      | none => m
      | some t => m.addAnonymous t := by
  unfold Operation.step Operation.perform anonymousClass
  rw [Build.exec_map, Build.exec_bind, Build.exec_get]
  simp only
  cases ClassType.ofType? base <;> rfl

/-- The new class of an operation that makes an anonymous one. -/
theorem entry_step_anonymous {base : JavaType} (hold : ¬ m.Knows c)
    (hnew : ((Operation.anonymous base).step m).Knows c) :
    (((Operation.anonymous base).step m).entry c).kind = .plain ∧
      ∃ t, (((Operation.anonymous base).step m).entry c).superclass = some t := by
  rw [step_anonymous] at hnew ⊢
  cases ht : ClassType.ofType? base with
  | none =>
      rw [ht] at hnew
      exact absurd hnew hold
  | some t =>
      rw [ht] at hnew
      obtain rfl := ((entered_addAnonymous m t).knows_iff.mp hnew).resolve_left hold
      simp [entry_addAnonymous]

theorem AnonymousBased.step (hb : m.AnonymousBased) (hm : m.WellFormed) {o : Operation} (ho : m.Admits o) :
    (o.step m).AnonymousBased := by
  intro d hd
  by_cases hknown : m.Knows d
  · have hsame := (extends_step hm ho).sameOrigin d hknown
    obtain ⟨hkind, base, hbase⟩ := hb d (hsame.origin ▸ hd)
    refine ⟨hsame.kind.trans hkind, ?_⟩
    rcases step_cases hm ho with ⟨c, s, e, rfl, he, hstep⟩ | hgrown
    · rw [hstep, entry_modifyClass]
      split
      · rename_i h
        obtain ⟨rfl, _⟩ := h
        rcases MemberStep.superclass_cases he with ⟨_, base', _, _, hs⟩ | hs
        · exact ⟨base', hs⟩
        · exact ⟨base, hs.trans hbase⟩
      · exact ⟨base, hbase⟩
    · obtain ⟨nested, hentry⟩ := sameMembers_of_grown hgrown hknown
      exact ⟨base, by rw [hentry]; exact hbase⟩
  · have hnew : (o.step m).Knows d := by
      by_contra hunknown
      rw [entry_of_not_knows hunknown] at hd
      cases hd
    have htake := take_of_step hm ho hnew hknown
    obtain ⟨base, rfl⟩ := htake.bodies hd
    exact entry_step_anonymous hknown hnew

theorem Reachable.anonymousBased (h : m.Reachable) : m.AnonymousBased := by
  induction h with
  | initial =>
      intro c hc
      rcases entry_initial c with he | he <;> rw [he] at hc <;> cases hc
  | step h ho ih => exact ih.step h.wellFormed ho

theorem Admits.knows_of_member {s : MemberStep} (ho : m.Admits (.member c s)) : m.Knows c :=
  ho.1 (.class c) (List.mem_cons_self ..) c (List.mem_singleton_self _)

theorem nameSource?_modifyClass_of_ne {f : ClassEntry → ClassEntry} (hd : d ≠ c) :
    (m.modifyClass c f).nameSource? d = m.nameSource? d := by
  simp only [nameSource?, entry_modifyClass_ne m (Ne.symm hd)]

theorem namedAfter_modifyClass {e : ClassEntry} {base : ClassType} (hc : m.Knows c) (horigin : e.origin = .anonymous)
    (hs : e.superclass = some base) : (m.modifyClass c fun _ ↦ e).NamedAfter c base.basis := by
  simp only [NamedAfter, nameSource?, entry_modifyClass, hc, and_self, if_true, horigin, hs]

theorem not_hasNameEnd_of_closesLoop (hb : m.AnonymousBased) (hends : ∀ c, m.HasNameEnd c) {o : Operation}
    (ho : m.Admits o) (hloop : m.ClosesLoop o) : ¬ ∀ c, (o.step m).HasNameEnd c := by
  obtain ⟨c, t, base, rfl, horigin, ht, hway⟩ := hloop
  have hc := ho.knows_of_member
  obtain ⟨e, happly, heorigin, hes⟩ : ∃ e, (MemberStep.superclass t).apply (m.entry c) = .ok e ∧
      e.origin = .anonymous ∧ e.superclass = some base :=
    ⟨_, ClassEntry.setExtends_eq_ok_iff.mpr ⟨(hb c horigin).1, _, ht, rfl⟩, horigin, rfl⟩
  have hstep := exec_member c (.superclass t) m
  rw [happly] at hstep
  rw [hstep, hasNameEnd_redirect_iff (fun d hd ↦ nameSource?_modifyClass_of_ne hd)
    (namedAfter_modifyClass hc heorigin hes) hends]
  exact not_not_intro hway

theorem hasNameEnd_step (hm : m.WellFormed) (hends : ∀ c, m.HasNameEnd c) {o : Operation} (ho : m.Admits o)
    (hloop : ¬ m.ClosesLoop o) : ∀ c, (o.step m).HasNameEnd c := by
  rcases step_cases hm ho with ⟨c, s, e, rfl, he, hstep⟩ | hgrown
  · have hc := ho.knows_of_member
    have hsame := (MemberStep.reworked he).sameOrigin
    rw [hstep]
    -- Only an anonymous class that is given another base has another source of its name.
    by_cases hbase : (m.entry c).origin = .anonymous ∧ e.superclass ≠ (m.entry c).superclass
    · obtain ⟨horigin, hs⟩ := hbase
      obtain ⟨t, base, rfl, ht, hs⟩ := (MemberStep.superclass_cases he).resolve_right hs
      rw [hasNameEnd_redirect_iff (fun d hd ↦ nameSource?_modifyClass_of_ne hd)
        (namedAfter_modifyClass hc (hsame.origin.trans horigin) hs) hends]
      exact fun hway ↦ hloop ⟨c, t, base, rfl, horigin, ht, hway⟩
    · refine fun d ↦ (hends d).congr (fun _ ↦ True) trivial (fun _ _ _ _ ↦ trivial) fun d _ ↦ ?_
      by_cases hd : d = c
      · subst hd
        refine nameSource?_congr (entry_modifyClass_of_reworked (MemberStep.reworked he) d) fun horigin ↦ ?_
        have hs : e.superclass = (m.entry d).superclass := not_not.mp fun hs ↦ hbase ⟨horigin, hs⟩
        simp only [entry_modifyClass, hc, and_self, if_true, hs]
      · exact nameSource?_modifyClass_of_ne hd
  · exact hasNameEnd_of_grown hm hgrown hends

/-- An operation takes the end from a name exactly when it closes a loop. -/
theorem hasNameEnd_step_iff (hm : m.WellFormed) (hb : m.AnonymousBased) (hends : ∀ c, m.HasNameEnd c) {o : Operation}
    (ho : m.Admits o) : (∀ c, (o.step m).HasNameEnd c) ↔ ¬ m.ClosesLoop o :=
  ⟨fun h hloop ↦ not_hasNameEnd_of_closesLoop hb hends ho hloop h, hasNameEnd_step hm hends ho⟩

/-! ## Whole runs -/

/-- The class behind the superclass of a class. -/
def base (m : Model) (c : ClassId) : ClassId := ((m.entry c).superclass.map ClassType.basis).getD c

/-- From base to base, each anonymous class leads to one that is not anonymous. -/
def BasesEnd (m : Model) : Prop :=
  ∀ c, m.Knows c → (m.entry c).origin = .anonymous → ∃ k, (m.entry (m.base^[k] c)).origin ≠ .anonymous

/-- The recursions for the names of classes end, and what they give are the names. -/
def NamesEnd (m : Model) : Prop :=
  ∀ c, m.Knows c → ∀ separator, ∃ k, m.nameWithin separator k c = some (m.qualifiedName separator c)

/-- None of the operations closes a loop when its turn comes. -/
def ClosesNone (m : Model) : List Operation → Prop
  | [] => True
  | o :: os => ¬ m.ClosesLoop o ∧ (o.step m).ClosesNone os

theorem namesEnd_iff (hm : m.WellFormed) : m.NamesEnd ↔ ∀ c, m.HasNameEnd c := by
  constructor
  · intro h c
    by_cases hc : m.Knows c
    · obtain ⟨k, hk⟩ := h c hc ""
      exact hasNameEnd_of_nameWithin hk
    · exact Acc.intro c fun d hd ↦ absurd hd.knows hc
  · exact fun h c hc separator ↦ (h c).exists_nameWithin hm hc separator

theorem HasNameEnd.exists_iterate_base (hb : m.AnonymousBased) (hc : m.HasNameEnd c) :
    ∃ k, (m.entry (m.base^[k] c)).origin ≠ .anonymous := by
  induction hc with
  | intro c _ ih =>
      by_cases horigin : (m.entry c).origin = .anonymous
      · obtain ⟨_, t, ht⟩ := hb c horigin
        have hbase : m.base c = t.basis := by simp [base, ht]
        have hlink : m.NamedAfter c t.basis := by simp [NamedAfter, nameSource?, horigin, ht]
        obtain ⟨k, hk⟩ := ih t.basis hlink
        exact ⟨k + 1, by rwa [Function.iterate_succ_apply, hbase]⟩
      · exact ⟨0, horigin⟩

theorem hasNameEnd_initial (c : ClassId) : initial.HasNameEnd c := by
  refine Acc.intro c fun d hd ↦ ?_
  rcases namedAfter_cases hd with ⟨horigin, _⟩ | ho
  · rcases entry_initial c with h | h <;> rw [h] at horigin <;> cases horigin
  · rcases entry_initial c with h | h <;> rw [h] at ho <;> cases ho

/-- The names of a run keep their ends as long as no operation closes a loop, and no longer. -/
theorem hasNameEnd_run_iff (hm : m.Reachable) (hends : ∀ c, m.HasNameEnd c) {os : List Operation}
    (hos : m.AdmitsAll os) : m.ClosesNone os ↔ ∀ pre, pre <+: os → ∀ c, (m.run pre).HasNameEnd c := by
  induction os generalizing m with
  | nil =>
      refine iff_of_true trivial fun pre hpre ↦ ?_
      obtain rfl := List.prefix_nil.mp hpre
      exact hends
  | cons o os ih =>
      obtain ⟨ho, hos⟩ := hos
      have hstep := hasNameEnd_step_iff hm.wellFormed hm.anonymousBased hends ho
      constructor
      · rintro ⟨hloop, hnone⟩ pre hpre
        rcases List.prefix_cons_iff.mp hpre with rfl | ⟨pre', rfl, hpre'⟩
        · exact hends
        · exact (ih (hm.step ho) (hstep.mpr hloop) hos).mp hnone pre' hpre'
      · intro h
        have hfirst : ∀ c, (o.step m).HasNameEnd c := h [o] ⟨os, rfl⟩
        refine ⟨hstep.mp hfirst, (ih (hm.step ho) hfirst hos).mpr fun pre hpre ↦ ?_⟩
        exact h (o :: pre) ((List.prefix_cons_inj o).mpr hpre)

theorem AdmitsAll.of_prefix {os pre : List Operation} (hos : m.AdmitsAll os) (hpre : pre <+: os) :
    m.AdmitsAll pre := by
  induction pre generalizing m os with
  | nil => trivial
  | cons o pre ih =>
      obtain ⟨post, rfl⟩ := hpre
      exact ⟨hos.1, ih hos.2 ⟨post, rfl⟩⟩

/-- Base chains and the recursions for names end at every time of a run if and only if none of its operations
closes a loop. -/
theorem namesEnd_iff_closesNone {os : List Operation} (hos : initial.AdmitsAll os) :
    initial.ClosesNone os ↔ ∀ pre, pre <+: os → (initial.run pre).BasesEnd ∧ (initial.run pre).NamesEnd := by
  rw [hasNameEnd_run_iff .initial hasNameEnd_initial hos]
  have hreachable : ∀ pre, pre <+: os → (initial.run pre).Reachable := fun pre hpre ↦
    Reachable.run .initial (hos.of_prefix hpre)
  constructor
  · intro h pre hpre
    refine ⟨fun c _ _ ↦ ?_, (namesEnd_iff (hreachable pre hpre).wellFormed).mpr (h pre hpre)⟩
    exact (h pre hpre c).exists_iterate_base (hreachable pre hpre).anonymousBased
  · intro h pre hpre
    exact (namesEnd_iff (hreachable pre hpre).wellFormed).mp (h pre hpre).2

/-- An anonymous class on another one, which is then given another base itself. -/
def baseChanged : List Operation :=
  [.anonymous (.reference object), .anonymous (.reference ⟨1⟩), .reference "q.C",
    .member ⟨1⟩ (.superclass (.reference ⟨3⟩))]

theorem namesEnd_iff_closesNone_baseChanged :
    initial.AdmitsAll baseChanged ∧ initial.ClosesNone baseChanged ∧
      (initial.run baseChanged).BasesEnd ∧ (initial.run baseChanged).NamesEnd := by
  have hos : initial.AdmitsAll baseChanged := by decide +kernel
  have hexternal : ∀ d, ¬ (initial.run (baseChanged.take 3)).NamedAfter ⟨3⟩ d := by
    have hnone : (initial.run (baseChanged.take 3)).nameSource? ⟨3⟩ = none := by decide +kernel
    exact fun d hd ↦ nomatch hnone.symm.trans hd
  have hnone : initial.ClosesNone baseChanged := by
    refine ⟨?_, ?_, ?_, ?_, trivial⟩
    · rintro ⟨c, t, base, ho, _⟩
      cases ho
    · rintro ⟨c, t, base, ho, _⟩
      cases ho
    · rintro ⟨c, t, base, ho, _⟩
      cases ho
    · rintro ⟨c, t, base, ho, _, ht, hway⟩
      cases ho
      cases ht
      rcases hway.cases_head with h | ⟨d, hd, _⟩
      · cases h
      · exact hexternal d hd
  exact ⟨hos, hnone, (namesEnd_iff_closesNone hos).mp hnone baseChanged (List.prefix_refl _)⟩

end Model
end JavaSource
