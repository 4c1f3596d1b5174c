import Mathlib.Data.List.Find
import JavaSource.Proofs.Model.Frame
import JavaSource.Proofs.Model.Handle
import JavaSource.Proofs.Model.Naming
import JavaSource.Proofs.Rendering.Imports
import JavaSource.Proofs.Rendering.Lines

/-!
# Isolation

The text of a unit depends on the parts that it writes, on the full names of the classes in them, and on the
names of the other units of its package. Two models that agree on these render the unit alike, and operations
that leave them alone do not change the text.
-/

namespace JavaSource

theorem UsageTable.ofEvents_congr {m n : Model} {events : List Event}
    (h : ∀ c, .reference c ∈ events ∨ .declared c ∈ events → (n.entry c).name = (m.entry c).name) :
    ofEvents n events = ofEvents m events := by
  refine List.foldl_ext _ _ _ fun t e he ↦ ?_
  cases e with
  | reference c => simp only [record, h c (Or.inl he)]
  | declared c => simp only [record, h c (Or.inr he)]
  | _ => rfl

theorem Scene.embedsOuterNames_congr {s s' : Scene} {l : List ClassId}
    (h : ∀ c ∈ l, s'.nameOf c = s.nameOf c) : s'.embedsOuterNames l = s.embedsOuterNames l := by
  fun_induction s.embedsOuterNames l with
  | case1 c o rest ih =>
      obtain ⟨hc, hrest⟩ := List.forall_mem_cons.mp h
      rw [embedsOuterNames, hc, hrest o (List.mem_cons_self ..), ih hrest]
  | case2 l hl =>
      rw [embedsOuterNames]
      exact hl

namespace Model

/-- No top-level class of the model `n` is new in the package of a unit. -/
def NoNewSibling (m n : Model) (t : ClassId) : Prop :=
  ∀ d, n.IsUnit d → ¬ m.Knows d → (n.entry d).package ≠ (m.entry t).package

/-- Everything in the model `m` that the text of a unit can depend on is the same in the later model `n`. -/
structure Keeps (m n : Model) (t : ClassId) : Prop where
  ext : m.Extends n
  /-- The full name of an anonymous class runs through its superclass. -/
  bases : ∀ c, m.Knows c → (m.entry c).origin = .anonymous → (n.entry c).superclass = (m.entry c).superclass
  parts : ∀ p, m.Writes t p → m.SamePart n p
  siblings : m.NoNewSibling n t

variable {m n : Model} {t : ClassId}

theorem knows_of_recorded (hm : m.WellFormed) (ht : m.IsUnit t) {c : ClassId}
    (hc : (m.scene t).Recorded c) : m.Knows c := by
  rcases recorded_iff.mp hc with hc | hc
  · exact isWritten_of_mem hm ht.knows _ hc
  · exact Writes.knows hm ht.knows (isWritten_of_mem hm ht.knows _ hc)

namespace Keeps

variable (h : m.Keeps n t) (hm : m.WellFormed) (hn : n.WellFormed) (ht : m.IsUnit t)

include h

theorem name_eq {c : ClassId} (hc : m.Knows c) : (n.entry c).name = (m.entry c).name :=
  (h.ext.sameOrigin c hc).name

theorem entry_eq : n.entry t = m.entry t := h.parts _ .body

/-- New units are in other packages, so they hide no built-in class. -/
theorem shadowed_iff {c : ClassId} (hc : m.Knows c) : n.Shadowed t c ↔ m.Shadowed t c := by
  have hsame := h.ext.sameOrigin c hc
  simp only [Shadowed, hsame.package, hsame.name, h.entry_eq]
  refine and_congr_right fun _ ↦ exists_congr fun d ↦ ?_
  by_cases hd : m.Knows d
  · have hsame := h.ext.sameOrigin d hd
    simp only [IsUnit, hsame.origin, hsame.outer, hsame.package, hsame.name]
  · exact iff_of_false (fun hnew ↦ h.siblings d hnew.1 hd hnew.2.1) fun hold ↦ hd hold.1.knows

include ht in
theorem isUnit : n.IsUnit t := by
  rw [IsUnit, h.entry_eq]
  exact ht

include hm

theorem outers_eq {c : ClassId} (hc : m.Knows c) : n.outers c = m.outers c := h.ext.outers_eq hm hc

theorem fullName_eq {c : ClassId} (hc : m.Knows c) : n.fullName c = m.fullName c :=
  h.ext.qualifiedName_eq hm m.Knows (fun _ hd ↦ hd) h.bases (fun _ _ _ _ hs ↦ hm.knows_of_superclass hs)
    (fun _ _ _ ho ↦ (hm.knows_of_outer ho).2) "." hc

theorem spellChain_eq (r : Resolution) {chain : List ClassId} (hchain : ∀ c ∈ chain, m.Knows c) :
    r.spellChain n chain = r.spellChain m chain := by
  induction chain with
  | nil => rfl
  | cons c rest ih =>
      obtain ⟨hc, hrest⟩ := List.forall_mem_cons.mp hchain
      have hplaceholder : (n.entry c).isPlaceholder = (m.entry c).isPlaceholder := by
        simp only [ClassEntry.isPlaceholder, (h.ext.sameOrigin c hc).origin]
      cases rest with
      | nil => simp only [Resolution.spellChain, h.name_eq hc, hplaceholder, h.fullName_eq hm hc]
      | cons o rest => simp only [Resolution.spellChain, h.name_eq hc, hplaceholder, ih hrest]

theorem shouldBeImported_eq {c : ClassId} (hc : m.Knows c) :
    (n.scene t).shouldBeImported c = (m.scene t).shouldBeImported c := by
  have houters : (n.scene t).model.outers c = (m.scene t).model.outers c := h.outers_eq hm hc
  rw [Scene.shouldBeImported, Scene.shouldBeImported, houters]
  refine Scene.embedsOuterNames_congr (List.forall_mem_cons.mpr ⟨h.name_eq hc, fun o ho ↦ ?_⟩)
  exact h.name_eq (hm.knows_of_mem_outers ho)

include hn in
theorem shadowsBuiltin_eq {c : ClassId} (hc : m.Knows c) :
    (n.scene t).shadowsBuiltin c = (m.scene t).shadowsBuiltin c := by
  rw [Bool.eq_iff_iff, shadowsBuiltin_iff hn, shadowsBuiltin_iff hm, h.shadowed_iff hc]

include hn in
theorem isAmbiguous_eq {u : Usage} (hu : ∀ c ∈ u.refs, m.Knows c) :
    (n.scene t).isAmbiguous u = (m.scene t).isAmbiguous u := by
  unfold Scene.isAmbiguous
  split
  · rfl
  · rename_i c hrefs
    rw [h.shadowsBuiltin_eq hm hn (hu c (by simp [hrefs]))]
  · rfl

include hn in
theorem movesOf_eq {u : Usage} (hu : ∀ c ∈ u.refs, m.Knows c) :
    (n.scene t).movesOf u = (m.scene t).movesOf u := by
  unfold Scene.movesOf
  rw [h.isAmbiguous_eq hm hn hu]
  split
  · rename_i c hrefs
    rw [h.shouldBeImported_eq hm (hu c (by simp [hrefs]))]
  · rfl

/-! ### What the unit writes -/

include ht

theorem events_eq : n.declarationEvents t = m.declarationEvents t := by
  have hweave : Weave (Eq : List Event → List Event → Prop) :=
    ⟨fun _ _ ↦ rfl, fun ha hb ↦ by rw [ha, hb]⟩
  exact (declarationEvents_rel hweave.composes hm ht.knows (fun _ _ _ _ ↦ trivial) (fun _ _ ↦ rfl) (fun _ _ ↦ rfl) h.parts
    h.ext.classes).symm

theorem usages_eq : n.usages t = m.usages t := by
  rw [usages, h.events_eq hm ht]
  exact UsageTable.ofEvents_congr fun c hc ↦ h.name_eq (knows_of_recorded hm ht (recorded_iff.mpr hc))

theorem tokens_eq (r : Resolution) {e : Event} (he : m.IsWritten t e) : e.tokens n r = e.tokens m r := by
  cases e with
  | reference c =>
      have hchain : ∀ d ∈ c :: m.outers c, m.Knows d :=
        List.forall_mem_cons.mpr ⟨he, fun d hd ↦ hm.knows_of_mem_outers hd⟩
      simp only [Event.tokens, Resolution.spell, h.outers_eq hm he, h.spellChain_eq hm r hchain]
  | declared c =>
      have hc : m.Knows c := Writes.knows (p := .header c) hm ht.knows he
      simp only [Event.tokens, h.name_eq hc]
  | _ => rfl

theorem preamble_eq : n.preamble (m.resolve t) = m.preamble (m.resolve t) := by
  have hname := h.ext.packageName _ (hm.package_known t ht.knows)
  have hunnamed := Package.isUnnamed_congr hname
  have htarget : (m.resolve t).target = t := rfl
  simp only [preamble, htarget, h.entry_eq, hname, hunnamed]

/-! ### Which classes are visible -/

theorem taken_iff {visible : List ClassId} (hvisible : ∀ c ∈ visible, m.Knows c) {c : ClassId}
    (hc : m.Knows c) : (n.scene t).Taken visible c ↔ (m.scene t).Taken visible c := by
  simp only [Scene.Taken, Scene.nameOf, scene, h.entry_eq, h.name_eq hc]
  refine exists_congr fun d ↦ and_congr_right fun hd ↦ and_congr_right fun _ ↦ ?_
  have hknown : m.Knows d := by
    rcases hd with rfl | hd | hd
    · exact ht.knows
    · obtain ⟨name, hd⟩ := Table.mem_values.mp hd
      exact (hm.of_mem_nested t name d hd).1
    · exact hvisible d hd
  rw [h.name_eq hknown]

include hn

theorem free_iff {c : ClassId} (hc : m.Knows c) : (n.scene t).Free c ↔ (m.scene t).Free c := by
  have husages : (n.scene t).usages = (m.scene t).usages := h.usages_eq hm ht
  have hname : (n.scene t).nameOf c = (m.scene t).nameOf c := h.name_eq hc
  have hshadows := h.shadowsBuiltin_eq hm hn hc
  constructor
  · rintro ⟨hsole, hidentifier, hshadow⟩
    exact ⟨husages ▸ hname ▸ hsole, husages ▸ hname ▸ hidentifier, hshadows ▸ hshadow⟩
  · rintro ⟨hsole, hidentifier, hshadow⟩
    exact ⟨husages ▸ hname ▸ hsole, husages ▸ hname ▸ hidentifier, hshadows ▸ hshadow⟩

theorem nearestOuter?_eq {visible : List ClassId} (hvisible : ∀ c ∈ visible, m.Knows c) {c : ClassId}
    (hc : m.Knows c) :
    (n.scene t).nearestOuter? visible c = (m.scene t).nearestOuter? visible c := by
  have houters : (n.scene t).model.outers c = (m.scene t).model.outers c := h.outers_eq hm hc
  have hlawful := UsageTable.lawful_ofEvents m (m.declarationEvents t)
  have hlawful' := UsageTable.lawful_ofEvents n (n.declarationEvents t)
  rw [Scene.nearestOuter?, Scene.nearestOuter?, houters]
  refine List.find?_congr fun o ho ↦ ?_
  have hknown : m.Knows o := hm.knows_of_mem_outers ho
  have hfree : (n.scene t).causesNoAmbiguity visible o = (m.scene t).causesNoAmbiguity visible o := by
    rw [Bool.eq_iff_iff, Scene.causesNoAmbiguity_iff hlawful', Scene.causesNoAmbiguity_iff hlawful,
      h.free_iff hm hn ht hknown, h.taken_iff hm ht hvisible hknown]
  rw [hfree, h.shouldBeImported_eq hm hknown]

theorem moves_eq : (n.scene t).moves = (m.scene t).moves := by
  have husages : (n.scene t).usages = (m.scene t).usages := h.usages_eq hm ht
  rw [Scene.moves, Scene.moves, husages]
  refine List.flatMap_congr fun u hu ↦ h.movesOf_eq hm hn fun c hc ↦ ?_
  obtain ⟨name, hu⟩ := Table.mem_values.mp hu
  exact knows_of_recorded hm ht (Scene.recorded_of_mem_refs (coherent_scene hm ht) hu hc)

/-- A move makes the same of known classes, and these are known again. -/
theorem move_eq {visible : List ClassId} (hvisible : ∀ c ∈ visible, m.Knows c) {mv : Scene.Move}
    (hmv : m.Knows mv.subject) :
    (n.scene t).move visible mv = (m.scene t).move visible mv ∧
      ∀ c ∈ (m.scene t).move visible mv, m.Knows c := by
  have hadd : ∀ o, m.Knows o → ∀ c ∈ addOnce visible o, m.Knows c := fun o ho c hc ↦ by
    rcases mem_addOnce.mp hc with hc | rfl
    · exact hvisible c hc
    · exact ho
  cases mv with
  | direct c => exact ⟨rfl, hadd c hmv⟩
  | outer c =>
      have houter : (n.scene t).nearestOuter? visible c = (m.scene t).nearestOuter? visible c :=
        h.nearestOuter?_eq hm hn ht hvisible hmv
      simp only [Scene.move, Scene.showOuter, houter]
      refine ⟨trivial, ?_⟩
      split
      · rename_i o ho
        exact hadd o (hm.knows_of_mem_outers (List.mem_of_find?_eq_some ho))
      · exact hvisible

theorem visible_eq : (n.scene t).visible = (m.scene t).visible ∧
    ∀ c ∈ (m.scene t).visible, m.Knows c := by
  have hsettled : (n.scene t).settled = (m.scene t).settled ∧
      ∀ c ∈ (m.scene t).settled, m.Knows c := by
    rw [Scene.settled, Scene.settled, h.moves_eq hm hn ht]
    have hnil : ∀ c ∈ ([] : List ClassId), m.Knows c := List.forall_mem_nil _
    refine List.foldl_rel (r := fun v w ↦ v = w ∧ ∀ c ∈ w, m.Knows c) ⟨rfl, hnil⟩ fun mv hmv v w hvw ↦ ?_
    obtain ⟨rfl, hknown⟩ := hvw
    have hrecorded := Scene.recorded_of_mem_moves (coherent_scene hm ht) hmv
    exact h.move_eq hm hn ht hknown (knows_of_recorded hm ht hrecorded)
  rw [Scene.visible_eq, Scene.visible_eq, hsettled.1]
  refine ⟨rfl, fun c hc ↦ ?_⟩
  rcases mem_addOnce.mp hc with hc | rfl
  · exact hsettled.2 c hc
  · exact ht.knows

/-! ### The text -/

theorem importNames_eq {visible : List ClassId} (hvisible : ∀ c ∈ visible, m.Knows c) :
    (n.scene t).importNames visible = (m.scene t).importNames visible := by
  have himplicit : ∀ c ∈ visible, (n.scene t).isImplicit c = (m.scene t).isImplicit c := fun c hc ↦ by
    have hsame := h.ext.sameOrigin c (hvisible c hc)
    rw [Bool.eq_iff_iff, isImplicit_iff hn (h.isUnit ht), isImplicit_iff hm ht]
    simp only [IsExempt, h.outers_eq hm (hvisible c hc), hsame.outer, hsame.package, h.entry_eq]
  have hnames : ∀ c ∈ visible.filter fun c ↦ !(m.scene t).isImplicit c,
      (n.scene t).model.fullName c = (m.scene t).model.fullName c := fun c hc ↦
    h.fullName_eq hm (hvisible c (List.mem_of_mem_filter hc))
  unfold Scene.importNames
  rw [List.filter_congr fun c hc ↦ congrArg not (himplicit c hc), List.map_congr_left hnames]

theorem resolve_eq : n.resolve t = m.resolve t := by
  obtain ⟨hvisible, hknown⟩ := h.visible_eq hm hn ht
  have himports := h.importNames_eq hm hn ht hknown
  unfold scene at hvisible himports
  rw [resolve, resolve, Scene.resolve, Scene.resolve, hvisible, himports]

theorem unitPage_eq : n.unitPage t = m.unitPage t := by
  have htokens : ∀ e ∈ m.declarationEvents t, e.tokens n (m.resolve t) = e.tokens m (m.resolve t) :=
    fun e he ↦ h.tokens_eq hm ht _ (isWritten_of_mem hm ht.knows e he)
  rw [unitPage_eq_ofTokens, unitPage_eq_ofTokens, unitTokens, unitTokens, h.resolve_eq hm hn ht,
    h.preamble_eq hm ht, h.events_eq hm ht, List.flatMap_congr htokens]

/-- Models that agree on what a unit is made from render it alike. -/
theorem render_eq (layout : Layout) : n.render layout t = m.render layout t := by
  rw [render, render, unitFault?_eq_none_iff.mpr ht, unitFault?_eq_none_iff.mpr (h.isUnit ht),
    h.unitPage_eq hm hn ht]

end Keeps

/-! ## Operations aside -/

/-- The operation has nothing to do with a unit: it is applied to no anonymous class and to no class that the
unit writes a part of, it defines no top-level class in the package of the unit, and it enters no class inside
an external one whose body the unit writes. -/
structure Spares (m : Model) (t : ClassId) (o : Operation) : Prop where
  anonymous : ∀ c, o.subject? = some c → (m.entry c).origin ≠ .anonymous
  written : ∀ p, m.Writes t p → o.subject? ≠ some p.owner
  siblings : m.NoNewSibling (o.step m) t
  external : ∀ c, m.Writes t (.body c) → (m.entry c).origin = .external → m.NothingNewIn (o.step m) c

/-- Whether each operation of a sequence has nothing to do with a unit when its turn comes. -/
def SparesAll (m : Model) (t : ClassId) : List Operation → Prop
  | [] => True
  | o :: os => m.Spares t o ∧ (o.step m).SparesAll t os

/-- The operation is applied neither to a unit, nor inside it, nor to an anonymous class, and it defines no
top-level class in the package of the unit. -/
structure Apart (m : Model) (t : ClassId) (o : Operation) : Prop where
  subject : ∀ c, o.subject? = some c → c ≠ t ∧ t ∉ m.outers c ∧ (m.entry c).origin ≠ .anonymous
  siblings : m.NoNewSibling (o.step m) t

/-- Where all that a unit writes are itself, classes nested in it and anonymous classes, it is enough for an
operation to be apart from the unit. -/
theorem Spares.of_apart (hm : m.WellFormed) (ht : m.IsUnit t) {o : Operation} (ho : m.Apart t o)
    (hwrites : ∀ p, m.Writes t p →
      p.owner = t ∨ t ∈ m.outers p.owner ∨ (m.entry p.owner).origin = .anonymous) : m.Spares t o where
  anonymous c hc := (ho.subject c hc).2.2
  written p hp hc := by
    obtain ⟨hne, hinside, hanonymous⟩ := ho.subject _ hc
    rcases hwrites p hp with h | h | h
    · exact hne h
    · exact hinside h
    · exact hanonymous h
  siblings := ho.siblings
  external c hc hexternal := by
    have horigin : (m.entry c).origin = .defined ∨ (m.entry c).origin = .anonymous := by
      rcases hwrites _ hc with rfl | h | h
      · exact Or.inl ht.1
      · exact Or.inl ((hm.defined_iff_of_mem_outers h).mpr ht.1)
      · exact Or.inr h
    rw [hexternal] at horigin
    rcases horigin with h | h <;> cases h

theorem noNewSibling_of_ne_define (hm : m.WellFormed) {o : Operation} (ho : m.Admits o)
    (hother : ∀ mods name kind, o ≠ .define (.package (m.entry t).package) mods name kind) :
    m.NoNewSibling (o.step m) t := by
  intro d hd hnew hpackage
  obtain ⟨mods, name, kind, hdefine⟩ := (take_of_step hm ho hd.knows hnew).top hd.1 hd.2
  rw [hpackage] at hdefine
  exact hother mods name kind hdefine

theorem Spares.nothingNewIn (hm : m.WellFormed) {o : Operation} (ho : m.Admits o) (hs : m.Spares t o)
    (ht : m.Knows t) {c : ClassId} (hc : m.Writes t (.body c)) : m.NothingNewIn (o.step m) c := by
  intro d hd hnew houter
  rcases (take_of_step hm ho hd hnew).inner c houter with hsubject | hexternal
  · exact hs.written _ hc hsubject
  · have hsame := (extends_step hm ho).sameOrigin c (Writes.knows (p := .body c) hm ht hc)
    rw [hsame.origin] at hexternal
    exact hs.external c hc hexternal d hd hnew houter

theorem Spares.keeps (hm : m.WellFormed) (ht : m.Knows t) {o : Operation} (ho : m.Admits o)
    (hs : m.Spares t o) : m.Keeps (o.step m) t where
  ext := extends_step hm ho
  bases c hc horigin := by
    obtain ⟨nested, hentry⟩ := sameMembers_step hm ho hc fun s hmember ↦
      hs.anonymous c (by rw [hmember]; rfl) horigin
    rw [hentry]
  parts p hp := by
    have hknown := hp.knows hm ht
    have hother : ∀ s, o ≠ .member p.owner s := fun s hmember ↦
      hs.written p hp (by rw [hmember]; rfl)
    cases p with
    | header c | base c => exact sameMembers_step hm ho hknown hother
    | body c => exact entry_step_eq hm ho hknown hother (hs.nothingNewIn hm ho ht hp)
  siblings := hs.siblings

/-- Operations that have nothing to do with a unit leave its text as it is. -/
theorem render_run_of_sparesAll (hm : m.Reachable) (ht : m.IsUnit t) (layout : Layout) {os : List Operation}
    (ha : m.AdmitsAll os) (hs : m.SparesAll t os) :
    ∃ text, m.render layout t = .ok text ∧ (m.run os).render layout t = .ok text := by
  induction os generalizing m with
  | nil =>
      have hrender : m.render layout t = .ok ((m.unitPage t).text layout) := by
        rw [render, unitFault?_eq_none_iff.mpr ht]
      exact ⟨_, hrender, hrender⟩
  | cons o os ih =>
      have hwf := hm.wellFormed
      have hkeeps := hs.1.keeps hwf ht.knows ha.1
      obtain ⟨text, hstep, hrun⟩ := ih (hm.step ha.1) (hkeeps.isUnit ht) ha.2 hs.2
      refine ⟨text, ?_, hrun⟩
      rw [← hkeeps.render_eq hwf (hwf.step ha.1) ht layout]
      exact hstep

/-- A class of the name of one in use enters the package of the unit, and a class in use gets a member. -/
def besideTwoMaps : List Operation :=
  [.referenceIn ⟨2⟩ "Map", .member ⟨2⟩ (.field .none (.reference ⟨6⟩) "z"), .referenceNested ⟨2⟩ "Values"]

set_option maxRecDepth 100000 in
theorem render_run_besideTwoMaps :
    (initial.run twoMaps).Reachable ∧ (initial.run twoMaps).IsUnit ⟨1⟩ ∧
      (initial.run twoMaps).AdmitsAll besideTwoMaps ∧ (initial.run twoMaps).SparesAll ⟨1⟩ besideTwoMaps ∧
      ∃ text, (initial.run twoMaps).render {} ⟨1⟩ = .ok text ∧
        ((initial.run twoMaps).run besideTwoMaps).render {} ⟨1⟩ = .ok text := by
  have hunit : (initial.run twoMaps).IsUnit ⟨1⟩ := by decide +kernel
  have hadmits : (initial.run twoMaps).AdmitsAll besideTwoMaps := by decide +kernel
  have hspares : (initial.run twoMaps).SparesAll ⟨1⟩ besideTwoMaps := by
    have hfirst := reachable_twoMaps.step hadmits.1
    have hsecond := hfirst.step hadmits.2.1
    have howner : ∀ {m : Model} {p : Part}, m.partsWithin (.header ⟨1⟩) = [] →
        m.partsWithin (.body ⟨1⟩) = [] → m.Writes ⟨1⟩ p →
        p.owner = ⟨1⟩ ∨ ⟨1⟩ ∈ m.outers p.owner ∨ (m.entry p.owner).origin = .anonymous :=
      fun hheader hbody hp ↦ Or.inl (hp.owner_eq hheader hbody)
    refine ⟨.of_apart reachable_twoMaps.wellFormed hunit ⟨nofun, ?_⟩ fun p ↦ ?_,
      .of_apart hfirst.wellFormed (by decide +kernel) ⟨fun c hc ↦ ?_, ?_⟩ fun p ↦ ?_,
      .of_apart hsecond.wellFormed (by decide +kernel) ⟨fun c hc ↦ ?_, ?_⟩ fun p ↦ ?_, trivial⟩
    · exact noNewSibling_of_ne_define reachable_twoMaps.wellFormed hadmits.1 nofun
    · exact howner (by decide +kernel) (by decide +kernel)
    · cases hc
      decide +kernel
    · exact noNewSibling_of_ne_define hfirst.wellFormed hadmits.2.1 nofun
    · exact howner (by decide +kernel) (by decide +kernel)
    · cases hc
      decide +kernel
    · exact noNewSibling_of_ne_define hsecond.wellFormed hadmits.2.2.1 nofun
    · exact howner (by decide +kernel) (by decide +kernel)
  exact ⟨reachable_twoMaps, hunit, hadmits, hspares,
    render_run_of_sparesAll reachable_twoMaps hunit {} hadmits hspares⟩

/-- A unit with the body of an anonymous class in it that has a class inside. -/
def innerClass : List Operation :=
  [.package "p", .define (.package ⟨2⟩) .none "T" .plain, .anonymous (.reference ⟨0⟩),
    .referenceNested ⟨2⟩ "X", .member ⟨1⟩ (.field .none (.reference ⟨0⟩) "f"),
    .member ⟨1⟩ (.adjustField "f" .none (.reference ⟨0⟩) (some (.new (.anonymous ⟨2⟩) [])) [])]

def innerField : Operation := .member ⟨3⟩ (.field .none (.primitive .int) "g")

/-- A unit with the body of an external class in it. -/
def externalBody : List Operation :=
  [.package "p", .define (.package ⟨2⟩) .none "T" .plain, .reference "q.C",
    .member ⟨1⟩ (.field .none (.reference ⟨0⟩) "f"),
    .member ⟨1⟩ (.adjustField "f" .none (.reference ⟨0⟩) (some (.new (.anonymous ⟨2⟩) [])) [])]

set_option maxRecDepth 100000 in
/-- Operations that are apart from a unit still change its text when they are about a class inside an anonymous
class, or enter a class in an external one whose body stands in the unit. -/
theorem render_changed_though_apart :
    ((initial.run innerClass).Reachable ∧ (initial.run innerClass).IsUnit ⟨1⟩ ∧
      (initial.run innerClass).Admits innerField ∧ (initial.run innerClass).Apart ⟨1⟩ innerField ∧
      (innerField.step (initial.run innerClass)).render {} ⟨1⟩ ≠ (initial.run innerClass).render {} ⟨1⟩) ∧
    ((initial.run externalBody).Reachable ∧ (initial.run externalBody).IsUnit ⟨1⟩ ∧
      (initial.run externalBody).Admits (.reference "q.C$D") ∧
      (initial.run externalBody).Apart ⟨1⟩ (.reference "q.C$D") ∧
      ((Operation.reference "q.C$D").step (initial.run externalBody)).render {} ⟨1⟩ ≠
        (initial.run externalBody).render {} ⟨1⟩) := by
  have hinner : (initial.run innerClass).Reachable := .run .initial (by decide +kernel)
  have hexternal : (initial.run externalBody).Reachable := .run .initial (by decide +kernel)
  have hmember : (initial.run innerClass).Admits innerField := by decide +kernel
  have hreference : (initial.run externalBody).Admits (.reference "q.C$D") := by decide +kernel
  refine ⟨⟨hinner, by decide +kernel, hmember, ⟨fun c hc ↦ ?_, ?_⟩, by decide +kernel⟩,
    ⟨hexternal, by decide +kernel, hreference, ⟨nofun, ?_⟩, by decide +kernel⟩⟩
  · cases hc
    decide +kernel
  · exact noNewSibling_of_ne_define hinner.wellFormed hmember nofun
  · exact noNewSibling_of_ne_define hexternal.wellFormed hreference nofun

end Model
end JavaSource
