import JavaSource.Declaration.Placement
import JavaSource.Proofs.Declaration.LookValue

/-!
# Work on one class

The members of a declared type are looked up and added one after the other. That changes the entry of its
class and no other entry of a defined class, and what was found on the way is found from then on.
-/

namespace JavaSource

/-- The entry `f` comes of `e` by changes to its members that mention nothing else. -/
def ClassEntry.Steps (e : ClassEntry) (xs : List Mention) (f : ClassEntry) : Prop :=
  ∃ steps : List MemberStep, steps.foldlM MemberStep.apply e = .ok f ∧ steps.flatMap MemberStep.mentions ⊆ xs

namespace ClassEntry.Steps

variable {e f g : ClassEntry} {xs ys : List Mention}

theorem refl (e : ClassEntry) (xs : List Mention) : e.Steps xs e := ⟨[], rfl, List.nil_subset _⟩

theorem single {s : MemberStep} (h : s.apply e = .ok f) (hs : s.mentions ⊆ xs) : e.Steps xs f := by
  refine ⟨[s], ?_, by simpa using hs⟩
  rw [List.foldlM_cons, h]
  rfl

theorem trans (h : e.Steps xs f) (hf : f.Steps xs g) : e.Steps xs g := by
  obtain ⟨ss, hss, hxs⟩ := h
  obtain ⟨ts, hts, hxs'⟩ := hf
  refine ⟨ss ++ ts, ?_, ?_⟩
  · rw [List.foldlM_append, hss]
    exact hts
  · rw [List.flatMap_append]
    exact List.append_subset.mpr ⟨hxs, hxs'⟩

end ClassEntry.Steps

theorem Model.modifyClass_modifyClass (m : Model) (c : ClassId) (f g : ClassEntry) :
    (m.modifyClass c fun _ ↦ f).modifyClass c (fun _ ↦ g) = m.modifyClass c fun _ ↦ g := by
  simp only [modifyClass, List.modify_modify_eq]
  rfl

theorem Model.reachable_modifyClass {m : Model} (hm : m.Reachable) {c : ClassId} (hc : m.Knows c)
    {e : ClassEntry} {xs : List Mention} (h : (m.entry c).Steps xs e) (hxs : m.KnowsAll xs) :
    (m.modifyClass c fun _ ↦ e).Reachable ∧ (m.entry c).SameOrigin e ∧ e.nested = (m.entry c).nested := by
  obtain ⟨steps, h, hmentions⟩ := h
  induction steps generalizing m with
  | nil =>
      cases h
      refine ⟨?_, .refl _, rfl⟩
      have hsame : (m.modifyClass c fun _ ↦ m.entry c) = m := by
        have hlt : c.index < m.classes.length := hc
        simp [modifyClass, entry, List.modify_eq_set, List.getElem?_eq_getElem hlt]
      rwa [hsame]
  | cons s steps ih =>
      rw [List.foldlM_cons, Except.bind_eq_ok] at h
      obtain ⟨f, hf, h⟩ := h
      rw [List.flatMap_cons, List.append_subset] at hmentions
      have hadmits : m.Admits (.member c s) := by
        refine ⟨List.forall_mem_cons.mpr ⟨List.forall_mem_singleton.mpr hc, fun x hx ↦ ?_⟩, List.forall_mem_nil _⟩
        exact hxs x (hmentions.1 hx)
      have hstep := hm.step hadmits
      rw [exec_member, hf] at hstep
      have hentry : (m.modifyClass c fun _ ↦ f).entry c = f := by
        rw [entry_modifyClass, if_pos ⟨rfl, hc⟩]
      have hlength : ∀ d, (m.modifyClass c fun _ ↦ f).Knows d ↔ m.Knows d := fun d ↦ by
        simp only [Knows, length_classes_modifyClass]
      have hreworked := MemberStep.reworked hf
      have hrest := ih hstep ((hlength c).mpr hc) (fun x hx d hd ↦ (hlength d).mpr (hxs x hx d hd))
        (by rw [hentry]; exact h) hmentions.2
      rw [hentry, modifyClass_modifyClass] at hrest
      exact ⟨hrest.1, hreworked.sameOrigin.trans hrest.2.1, hrest.2.2.trans hreworked.nested⟩

namespace Assembly

variable {s t k : Assembly} {c : ClassId} {e f : ClassEntry}

/-- A step that answers the same now and in every later state, and changes nothing. -/
def Finds {α : Type} (s : Assembly) (a : Assemble α) (v : α) : Prop :=
  ∀ u, s.Later u → u.Sound → a.Yields u v u

theorem Finds.later {α : Type} {a : Assemble α} {v : α} (h : s.Finds a v) (ht : s.Later t) : t.Finds a v :=
  fun u hu hsound ↦ h u (ht.trans hu) hsound

theorem Finds.settled {α : Type} {a : Assemble α} {v : α} (h : s.Finds a v) (hs : s.Sound) : a.Yields s v s :=
  h s (.refl s) hs

/-- The second state came of the first by looking things up and by work on one class. -/
structure Worked (c : ClassId) (s t : Assembly) : Prop where
  later : s.Later t
  nested_eq : ∀ d, s.model.Knows d → (s.model.entry d).origin = .defined →
    (t.model.entry d).nested = (s.model.entry d).nested
  entry_eq : ∀ d, d ≠ c → s.model.Knows d → (s.model.entry d).origin = .defined →
    t.model.entry d = s.model.entry d
  fresh : ∀ d, t.model.Knows d → ¬ s.model.Knows d → (t.model.entry d).origin ≠ .defined

theorem Worked.trans (h : s.Worked c k) (hk : k.Worked c t) : s.Worked c t where
  later := h.later.trans hk.later
  nested_eq d hd hdefined := by
    have horigin := (h.later.grown.sameOrigin d hd).origin.trans hdefined
    rw [hk.nested_eq d (h.later.grown.knows hd) horigin, h.nested_eq d hd hdefined]
  entry_eq d hne hd hdefined := by
    have horigin := (h.later.grown.sameOrigin d hd).origin.trans hdefined
    rw [hk.entry_eq d hne (h.later.grown.knows hd) horigin, h.entry_eq d hne hd hdefined]
  fresh d hd hnew := by
    by_cases hdk : k.model.Knows d
    · rw [(hk.later.grown.sameOrigin d hdk).origin]
      exact h.fresh d hdk hnew
    · exact hk.fresh d hd hdk

/-- Work on the class left its entry as given. -/
structure Changes (c : ClassId) (s t : Assembly) (e : ClassEntry) : Prop where
  sound : t.Sound
  worked : s.Worked c t
  entry_eq : t.model.entry c = e

/-- What work on a class of a declared type starts from. -/
structure Ready (x : Context) (c : ClassId) (s : Assembly) : Prop where
  sound : s.Sound
  known : x.KnownTo s.model
  knows : s.model.Knows c
  origin_eq : (s.model.entry c).origin = .defined

variable {x : Context}

theorem Ready.later (hs : s.Ready x c) (ht : t.Sound) (h : s.Later t) : t.Ready x c where
  sound := ht
  known := hs.known.later h.grown
  knows := h.grown.knows hs.knows
  origin_eq := (h.grown.sameOrigin c hs.knows).origin.trans hs.origin_eq

theorem Changes.ready (h : s.Changes c t e) (hs : s.Ready x c) : t.Ready x c :=
  hs.later h.sound h.worked.later

theorem Changes.trans (h : s.Changes c k e) (hk : k.Changes c t f) : s.Changes c t f :=
  ⟨hk.sound, h.worked.trans hk.worked, hk.entry_eq⟩

theorem Looked.worked (h : s.Looked t) (c : ClassId) : s.Worked c t where
  later := h.toLater
  nested_eq d hd hdefined := by rw [h.entry_eq d hd hdefined]
  entry_eq d _ := h.entry_eq d
  fresh := h.fresh

theorem Saw.changes {α : Type} {a : Assemble α} {good : Model → α → Prop} {v : α}
    (h : s.Saw a good v t) (hs : s.Ready x c) : s.Changes c t (s.model.entry c) :=
  ⟨h.sound, h.looked.worked c, h.looked.entry_eq c hs.knows hs.origin_eq⟩

theorem Ready.changes_refl (hs : s.Ready x c) : s.Changes c s (s.model.entry c) :=
  ⟨hs.sound, (Looked.refl s).worked c, rfl⟩

theorem Ready.changes (hs : s.Ready x c) {xs : List Mention} (h : (s.model.entry c).Steps xs e)
    (hxs : s.model.KnowsAll xs) :
    s.Changes c { s with model := s.model.modifyClass c fun _ ↦ e } e := by
  obtain ⟨hreachable, hsame, hnested⟩ := Model.reachable_modifyClass hs.sound.reachable hs.knows h hxs
  have hentry : ∀ d, d ≠ c → (s.model.modifyClass c fun _ ↦ e).entry d = s.model.entry d :=
    fun d hd ↦ Model.entry_modifyClass_ne _ (Ne.symm hd) _
  have hself : (s.model.modifyClass c fun _ ↦ e).entry c = e := by
    rw [Model.entry_modifyClass, if_pos ⟨rfl, hs.knows⟩]
  have hgrown : s.model.Extends (s.model.modifyClass c fun _ ↦ e) := by
    refine ⟨by simp, Nat.le_refl _, fun d _ ↦ ?_, fun _ _ ↦ rfl⟩
    by_cases hd : d = c
    · rw [hd, hself]
      exact hsame
    · rw [hentry d hd]
      exact .refl _
  have hdeclarative : (s.model.modifyClass c fun _ ↦ e).Declarative := by
    constructor
    · intro d hd
      have hne : d ≠ c := fun h ↦ hd (by rw [h, hself, hsame.origin, hs.origin_eq])
      rw [hentry d hne] at hd ⊢
      exact hs.sound.declarative.bare d hd
    · intro d
      by_cases hdc : d = c
      · rw [hdc, hself, hsame.origin, hs.origin_eq]
        exact nofun
      · rw [hentry d hdc]
        exact hs.sound.declarative.named d
  refine ⟨hs.sound.grow hreachable hdeclarative hgrown, ⟨⟨hgrown, fun _ _ h ↦ h⟩, fun d hd hdefined ↦ ?_,
    fun d hd _ _ ↦ hentry d hd, fun d hd hnew ↦ ?_⟩, hself⟩
  · by_cases hdc : d = c
    · rw [hdc]
      exact (congrArg ClassEntry.nested hself).trans hnested
    · exact congrArg ClassEntry.nested (hentry d hdc)
  · exact absurd (by simpa [Model.Knows] using hd) hnew

/-- Work on one class for each of a list, with what came of each. The work keeps `P` of the entry. -/
theorem Changes.forM_of {α β : Type} {a : α → Assemble PUnit} {l : List α} (P : ClassEntry → Prop)
    (put : ClassEntry → β → ClassEntry) (R : Assembly → α → β → Prop) (hput : ∀ e v, P e → P (put e v))
    (hlater : ∀ d ∈ l, ∀ v s t, R s d v → s.Later t → R t d v)
    (hstep : ∀ d ∈ l, ∀ s t, s.Ready x c → P (s.model.entry c) → (a d).Yields s ⟨⟩ t →
      ∃ v, s.Changes c t (put (s.model.entry c) v) ∧ R t d v)
    (hs : s.Ready x c) (hP : P (s.model.entry c)) (h : (l.forM a).Yields s ⟨⟩ t) :
    ∃ vs, s.Changes c t (vs.foldl put (s.model.entry c)) ∧ List.Forall₂ (R t) l vs := by
  induction l generalizing s with
  | nil =>
      obtain rfl := Assemble.yields_forM_nil.mp h
      exact ⟨[], hs.changes_refl, .nil⟩
  | cons d l ih =>
      obtain ⟨k, hd, hl⟩ := Assemble.yields_forM_cons.mp h
      obtain ⟨v, hchanges, hv⟩ := hstep d (List.mem_cons_self ..) s k hs hP hd
      have hPk : P (k.model.entry c) := hchanges.entry_eq ▸ hput _ v hP
      obtain ⟨vs, hrest, hvs⟩ := ih (fun d' hd' ↦ hlater d' (List.mem_cons_of_mem _ hd'))
        (fun d' hd' ↦ hstep d' (List.mem_cons_of_mem _ hd')) (hchanges.ready hs) hPk hl
      rw [hchanges.entry_eq] at hrest
      have hv' := hlater d (List.mem_cons_self ..) v k t hv hrest.worked.later
      exact ⟨v :: vs, hchanges.trans hrest, .cons hv' hvs⟩

theorem Changes.forM {α β : Type} {a : α → Assemble PUnit} {l : List α} (put : ClassEntry → β → ClassEntry)
    (R : Assembly → α → β → Prop) (hlater : ∀ d ∈ l, ∀ v s t, R s d v → s.Later t → R t d v)
    (hstep : ∀ d ∈ l, ∀ s t, s.Ready x c → (a d).Yields s ⟨⟩ t →
      ∃ v, s.Changes c t (put (s.model.entry c) v) ∧ R t d v)
    (hs : s.Ready x c) (h : (l.forM a).Yields s ⟨⟩ t) :
    ∃ vs, s.Changes c t (vs.foldl put (s.model.entry c)) ∧ List.Forall₂ (R t) l vs :=
  Changes.forM_of (fun _ ↦ True) put R (fun _ _ _ ↦ trivial) hlater
    (fun d hd k l hk _ ↦ hstep d hd k l hk) hs trivial h

/-! ## Work on one class after another -/

/-- What a round of work on the defined classes keeps. -/
structure Developed (s t : Assembly) : Prop where
  later : s.Later t
  nested_eq : ∀ d, s.model.Knows d → (s.model.entry d).origin = .defined →
    (t.model.entry d).nested = (s.model.entry d).nested
  fresh : ∀ d, t.model.Knows d → ¬ s.model.Knows d → (t.model.entry d).origin ≠ .defined

theorem Developed.refl (s : Assembly) : s.Developed s := ⟨.refl s, fun _ _ _ ↦ rfl, fun _ hd hnew ↦ absurd hd hnew⟩

theorem Developed.trans (h : s.Developed k) (hk : k.Developed t) : s.Developed t where
  later := h.later.trans hk.later
  nested_eq d hd hdefined := by
    have horigin := (h.later.grown.sameOrigin d hd).origin.trans hdefined
    rw [hk.nested_eq d (h.later.grown.knows hd) horigin, h.nested_eq d hd hdefined]
  fresh d hd hnew := by
    by_cases hdk : k.model.Knows d
    · rw [(hk.later.grown.sameOrigin d hdk).origin]
      exact h.fresh d hdk hnew
    · exact hk.fresh d hd hdk

theorem Worked.developed (h : s.Worked c t) : s.Developed t := ⟨h.later, h.nested_eq, h.fresh⟩

/-- A round of work: each class has its turn, and nothing else happens to its entry. -/
theorem Developed.forM {ps : List Placed} {a : Placed → Assemble PUnit} (P : Placed → ClassEntry → Prop)
    (Q : Assembly → Placed → ClassEntry → ClassEntry → Prop)
    (hlater : ∀ p ∈ ps, ∀ e f s t, Q s p e f → s.Later t → Q t p e f)
    (hstep : ∀ p ∈ ps, ∀ s t, s.Ready x p.id → P p (s.model.entry p.id) → (a p).Yields s ⟨⟩ t →
      ∃ e, s.Changes p.id t e ∧ Q t p (s.model.entry p.id) e)
    (hnodup : (ps.map (·.id)).Nodup) (hsound : s.Sound) (hs : ∀ p ∈ ps, s.Ready x p.id)
    (hP : ∀ p ∈ ps, P p (s.model.entry p.id)) (h : (ps.forM a).Yields s ⟨⟩ t) :
    t.Sound ∧ s.Developed t ∧ ∀ p ∈ ps, Q t p (s.model.entry p.id) (t.model.entry p.id) := by
  -- the claim is strengthened: classes that had their turn already are left alone
  suffices t.Sound ∧ s.Developed t ∧ (∀ p ∈ ps, Q t p (s.model.entry p.id) (t.model.entry p.id)) ∧
      ∀ d, d ∉ ps.map (·.id) → s.model.Knows d → (s.model.entry d).origin = .defined →
        t.model.entry d = s.model.entry d from ⟨this.1, this.2.1, this.2.2.1⟩
  induction ps generalizing s with
  | nil =>
      obtain rfl := Assemble.yields_forM_nil.mp h
      exact ⟨hsound, .refl _, nofun, fun _ _ _ _ ↦ rfl⟩
  | cons p ps ih =>
      obtain ⟨k, hp, hps⟩ := Assemble.yields_forM_cons.mp h
      rw [List.map_cons, List.nodup_cons] at hnodup
      have hr := hs p (List.mem_cons_self ..)
      obtain ⟨e, hchanges, hQ⟩ := hstep p (List.mem_cons_self ..) s k hr (hP p (List.mem_cons_self ..)) hp
      have hkeep : ∀ q ∈ ps, k.model.entry q.id = s.model.entry q.id := fun q hq ↦ by
        have hne : q.id ≠ p.id := fun h ↦ hnodup.1 (h ▸ List.mem_map_of_mem hq)
        have hrq := hs q (List.mem_cons_of_mem _ hq)
        exact hchanges.worked.entry_eq q.id hne hrq.knows hrq.origin_eq
      obtain ⟨ht, hdeveloped, hall, hothers⟩ := ih (fun q hq ↦ hlater q (List.mem_cons_of_mem _ hq))
        (fun q hq ↦ hstep q (List.mem_cons_of_mem _ hq)) hnodup.2 hchanges.sound
        (fun q hq ↦ (hs q (List.mem_cons_of_mem _ hq)).later hchanges.sound hchanges.worked.later)
        (fun q hq ↦ hkeep q hq ▸ hP q (List.mem_cons_of_mem _ hq)) hps
      have hrk := hchanges.ready hr
      refine ⟨ht, hchanges.worked.developed.trans hdeveloped, ?_, fun d hd hknows hdefined ↦ ?_⟩
      · refine List.forall_mem_cons.mpr ⟨?_, fun q hq ↦ hkeep q hq ▸ hall q hq⟩
        rw [hothers p.id hnodup.1 hrk.knows hrk.origin_eq, hchanges.entry_eq]
        exact hlater p (List.mem_cons_self ..) _ _ k t hQ hdeveloped.later
      · rw [List.map_cons, List.mem_cons, not_or] at hd
        have hk := hchanges.worked.entry_eq d hd.1 hknows hdefined
        rw [hothers d hd.2 (hchanges.worked.later.grown.knows hknows) (hk ▸ hdefined), hk]

end Assembly
end JavaSource
