import JavaSource.Proofs.Renaming.Corresponding
import JavaSource.Proofs.Renaming.Events

/-!
# Units do not depend on handles

Two models that declare the same classes, but know them by different handles, render every unit to the same
text. The events of the unit differ in their handles alone, and whatever the renderer decides by a class it
decides alike for the corresponding one.
-/

namespace JavaSource

/-- The use of a name with other handles. -/
def Usage.rename (f : ClassId → ClassId) (u : Usage) : Usage := { u with refs := u.refs.map f }

/-- The classes of the resolution with other handles. -/
def Resolution.rename (f : ClassId → ClassId) (r : Resolution) : Resolution :=
  ⟨f r.target, r.visible.map f, r.imports⟩

def Scene.Move.rename (f : ClassId → ClassId) : Scene.Move → Scene.Move
  | .direct c => .direct (f c)
  | .outer c => .outer (f c)

namespace Model

/-- Every class that the first model defines is declared alike in the second, and the second defines no other.
There is no code in the declarations, and they speak of classes that correspond. -/
structure Copied (m n : Model) (f : ClassId → ClassId) (S : ClassId → Prop) : Prop
    extends m.Corresponds n f S where
  defined : ∀ c, (m.entry c).origin = .defined → S c
  defined' : ∀ d, (n.entry d).origin = .defined → ∃ c, S c ∧ f c = d
  copies : ∀ c, (m.entry c).origin = .defined → (m.entry c).Copies f (n.entry (f c))
  nested_eq : ∀ c, (m.entry c).origin = .defined →
    (n.entry (f c)).nested.values = (m.entry c).nested.values.map f
  codeless : ∀ c, (m.entry c).origin = .defined → (m.entry c).Codeless
  mentions : ∀ c, (m.entry c).origin = .defined → ∀ x ∈ (m.entry c).mentions, x.Within S

variable {m n : Model} {f : ClassId → ClassId} {S : ClassId → Prop} {t : ClassId}

namespace Copied

theorem walk_renames (m n : Model) (body body' : ClassId → List Event) :
    Walk.Renames f S ⟨m.typeEvents, body⟩ ⟨n.typeEvents, body'⟩ :=
  fun s hs ↦ Renames.type s hs

variable (h : m.Copied n f S) (hm : m.WellFormed) (hn : n.WellFormed) (ht : m.IsUnit t)

include h hm hn

/-! ### Events -/

theorem declarationWith_renames {body body' : ClassId → List Event} {c : ClassId}
    (hc : (m.entry c).origin = .defined) (hbody : Renames f S (body c) (body' (f c))) :
    Renames f S (m.declarationWith body c) (n.declarationWith body' (f c)) := by
  have hS := h.defined c hc
  have hid : (m.entry c).id = c := hm.id_eq c (h.knows c hS)
  have hid' : (n.entry (f c)).id = f (m.entry c).id := by rw [hn.id_eq _ (h.knows' c hS), hid]
  have hheader := Renames.header h.injective h.object_eq (walk_renames m n body body') (h.copies c hc) hid'
    (by rwa [hid]) fun y hy ↦ h.mentions c hc y (List.mem_append_left _ hy)
  exact .append (.append hheader hbody) (.plain _ (by simp))

theorem bodyEvents_renames {c : ClassId} (hc : (m.entry c).origin = .defined) :
    Renames f S (m.bodyEvents c) (n.bodyEvents (f c)) := by
  refine descend_rel_map h.injective (fun d ↦ (m.entry d).origin = .defined)
    (fun d hd ↦ h.knows d (h.defined d hd)) (fun d hd ↦ h.knows' d (h.defined d hd)) (fun _ _ ↦ .nil)
    (fun d g g' hd hg ↦ ?_) List.nodup_nil (List.forall_mem_nil _) (Nat.le_refl _) (Nat.le_refl _) hc
  have hinner : ∀ e ∈ (m.entry d).nested.values, (m.entry e).origin = .defined := fun e he ↦
    (hm.outer_defined e d ((mem_nested_values_iff hm).mp he)).mpr hd
  have hempty : (n.entry (f d)).nested.isEmpty = (m.entry d).nested.isEmpty := by
    have hlength := congrArg List.length (h.nested_eq d hd)
    simp only [Table.values, List.length_map] at hlength
    rw [Bool.eq_iff_iff, Table.isEmpty, Table.isEmpty, List.isEmpty_iff_length_eq_zero,
      List.isEmpty_iff_length_eq_zero, hlength]
  refine Renames.body (walk_renames m n g g') (h.copies d hd) (h.codeless d hd)
    (fun y hy ↦ h.mentions d hd y (List.mem_append_right _ hy)) hempty ?_
  rw [h.nested_eq d hd]
  exact Renames.forall₂_map fun e he ↦ h.declarationWith_renames hm hn (hinner e he) (hg e (hinner e he))

theorem declarationEvents_renames {c : ClassId} (hc : (m.entry c).origin = .defined) :
    Renames f S (m.declarationEvents c) (n.declarationEvents (f c)) :=
  h.declarationWith_renames hm hn hc (h.bodyEvents_renames hm hn hc)

/-! ### Names in use -/

omit hm hn in
theorem record_eq (u : UsageTable) {e : Event} (he : e.Within S) :
    UsageTable.record n (u.map (Usage.rename f)) (e.rename f) = (UsageTable.record m u e).map (Usage.rename f) := by
  have husage : ∀ name, UsageTable.usage (u.map (Usage.rename f)) name = (u.usage name).rename f := fun name ↦ by
    rw [UsageTable.usage, Table.get?_map, UsageTable.usage]
    cases u.get? name <;> rfl
  have hclass : ∀ name c, UsageTable.addClass (u.map (Usage.rename f)) name (f c) =
      (u.addClass name c).map (Usage.rename f) := fun name c ↦ by
    rw [UsageTable.addClass, UsageTable.addClass, ← Table.insert_map, husage, Usage.rename,
      addOnce_map h.injective]
    rfl
  cases e with
  | identifier name =>
      rw [Event.rename, UsageTable.record, UsageTable.record, UsageTable.addIdentifier, UsageTable.addIdentifier,
        ← Table.insert_map, husage]
      · rfl
      · exact fun _ h ↦ Event.noConfusion h
      · exact fun _ h ↦ Event.noConfusion h
  | reference c => rw [Event.rename, UsageTable.record, UsageTable.record, h.name_eq c (he c (Or.inl rfl)), hclass]
  | declared c => rw [Event.rename, UsageTable.record, UsageTable.record, h.name_eq c (he c (Or.inr rfl)), hclass]
  | text _ | newline | indent | outdent => rfl

theorem usages_eq {c : ClassId} (hc : (m.entry c).origin = .defined) :
    n.usages (f c) = (m.usages c).map (Usage.rename f) := by
  have hevents := h.declarationEvents_renames hm hn hc
  have hfold : ∀ (es : List Event) (u : UsageTable), (∀ e ∈ es, e.Within S) →
      (es.map (Event.rename f)).foldl (UsageTable.record n) (u.map (Usage.rename f)) =
        (es.foldl (UsageTable.record m) u).map (Usage.rename f) := by
    intro es
    induction es with
    | nil => exact fun _ _ ↦ rfl
    | cons e es ih =>
        intro u hes
        obtain ⟨he, hes⟩ := List.forall_mem_cons.mp hes
        rw [List.map_cons, List.foldl_cons, List.foldl_cons, h.record_eq u he, ih _ hes]
  rw [usages, usages, hevents.eq_map]
  exact hfold _ {} hevents.within

/-- The classes in the table of names in use correspond. -/
theorem mem_of_mem_refs {c : ClassId} (hc : (m.entry c).origin = .defined) {name : String} {u : Usage}
    (hu : (name, u) ∈ (m.usages c).entries) {d : ClassId} (hd : d ∈ u.refs) : S d := by
  have hkeys : (m.usages c).keys.Nodup := (UsageTable.lawful_ofEvents m (m.declarationEvents c)).keys
  have hrecords : (m.usages c).Records name d := by
    rwa [UsageTable.Records, UsageTable.usage_of_get? (Table.get?_of_mem_entries hkeys hu)]
  obtain ⟨-, he⟩ := UsageTable.records_ofEvents.mp hrecords
  have hwithin := (h.declarationEvents_renames hm hn hc).within
  rcases he with he | he
  · exact hwithin _ he d (Or.inl rfl)
  · exact hwithin _ he d (Or.inr rfl)

/-! ### Which classes are visible -/

include ht

theorem shadowed_iff {c : ClassId} (hc : S c) : n.Shadowed (f t) (f c) ↔ m.Shadowed t c := by
  have hS := h.defined t ht.1
  simp only [Shadowed, h.package_eq_builtin_iff hm hn hc, h.name_eq c hc]
  refine and_congr_right fun _ ↦ ⟨?_, ?_⟩
  · rintro ⟨d', hunit, hpackage, hname⟩
    obtain ⟨d, hd, rfl⟩ := h.defined' d' hunit.1
    refine ⟨d, ⟨h.origin_eq d hd ▸ hunit.1, ?_⟩, (h.package_eq_package_iff hm hn hd hS).mp hpackage,
      h.name_eq d hd ▸ hname⟩
    exact Option.map_eq_none_iff.mp (h.outer_eq d hd ▸ hunit.2)
  · rintro ⟨d, hunit, hpackage, hname⟩
    have hd := h.defined d hunit.1
    refine ⟨f d, ⟨(h.origin_eq d hd).trans hunit.1, ?_⟩, (h.package_eq_package_iff hm hn hd hS).mpr hpackage,
      (h.name_eq d hd).trans hname⟩
    rw [h.outer_eq d hd, hunit.2, Option.map_none]

theorem shadowsBuiltin_eq {c : ClassId} (hc : S c) :
    (n.scene (f t)).shadowsBuiltin (f c) = (m.scene t).shadowsBuiltin c := by
  rw [Bool.eq_iff_iff, shadowsBuiltin_iff hn, shadowsBuiltin_iff hm, h.shadowed_iff hm hn ht hc]

theorem isAmbiguous_eq {u : Usage} (hu : ∀ c ∈ u.refs, S c) :
    (n.scene (f t)).isAmbiguous (u.rename f) = (m.scene t).isAmbiguous u := by
  obtain ⟨refs, asIdentifier⟩ := u
  rcases refs with _ | ⟨c, _ | ⟨d, rest⟩⟩
  · rfl
  · have hshadows := h.shadowsBuiltin_eq hm hn ht (hu c (List.mem_singleton_self c))
    simp only [Scene.isAmbiguous, Usage.rename, List.map_cons, List.map_nil, hshadows]
  · rfl

omit ht in
theorem shouldBeImported_eq {c : ClassId} (hc : S c) :
    (n.scene (f t)).shouldBeImported (f c) = (m.scene t).shouldBeImported c := by
  have hembeds : ∀ l : List ClassId, (∀ d ∈ l, S d) →
      (n.scene (f t)).embedsOuterNames (l.map f) = (m.scene t).embedsOuterNames l := by
    intro l
    induction l with
    | nil => exact fun _ ↦ rfl
    | cons d l ih =>
        intro hl
        obtain ⟨hd, hl⟩ := List.forall_mem_cons.mp hl
        cases l with
        | nil => rfl
        | cons o rest =>
            have hd' : (n.scene (f t)).nameOf (f d) = (m.scene t).nameOf d := h.name_eq d hd
            have ho' : (n.scene (f t)).nameOf (f o) = (m.scene t).nameOf o :=
              h.name_eq o (hl o (List.mem_cons_self ..))
            have hrest := ih hl
            rw [List.map_cons] at hrest
            rw [List.map_cons, List.map_cons, Scene.embedsOuterNames, Scene.embedsOuterNames, hd', ho', hrest]
  have houters : (n.scene (f t)).model.outers (f c) = ((m.scene t).model.outers c).map f :=
    h.outers_eq hm hn hc
  rw [Scene.shouldBeImported, Scene.shouldBeImported, houters, ← List.map_cons]
  exact hembeds _ (List.forall_mem_cons.mpr ⟨hc, fun o ho ↦ h.mem_of_mem_outers hm hc ho⟩)

theorem movesOf_eq {u : Usage} (hu : ∀ c ∈ u.refs, S c) :
    (n.scene (f t)).movesOf (u.rename f) = ((m.scene t).movesOf u).map (Scene.Move.rename f) := by
  have hambiguous := h.isAmbiguous_eq hm hn ht hu
  obtain ⟨refs, asIdentifier⟩ := u
  rcases refs with _ | ⟨c, _ | ⟨d, rest⟩⟩
  · rfl
  · have himport := h.shouldBeImported_eq hm hn (t := t) (hu c (List.mem_singleton_self c))
    simp only [Usage.rename, List.map_cons, List.map_nil] at hambiguous
    simp only [Scene.movesOf, Usage.rename, List.map_cons, List.map_nil, hambiguous, himport]
    split <;> rfl
  · simp [Scene.movesOf, Usage.rename, Scene.Move.rename]

theorem moves_eq : (n.scene (f t)).moves = (m.scene t).moves.map (Scene.Move.rename f) := by
  have husages : (n.scene (f t)).usages = (m.scene t).usages.map (Usage.rename f) := h.usages_eq hm hn ht.1
  rw [Scene.moves, Scene.moves, husages, Table.values_map, List.flatMap_map, List.map_flatMap]
  refine List.flatMap_congr fun u hu ↦ h.movesOf_eq hm hn ht fun c hc ↦ ?_
  obtain ⟨name, hu⟩ := Table.mem_values.mp hu
  exact h.mem_of_mem_refs hm hn ht.1 hu hc

theorem causesNoAmbiguity_eq {visible : List ClassId} (hvisible : ∀ c ∈ visible, S c) {c : ClassId} (hc : S c) :
    (n.scene (f t)).causesNoAmbiguity (visible.map f) (f c) = (m.scene t).causesNoAmbiguity visible c := by
  have husages : (n.scene (f t)).usages = (m.scene t).usages.map (Usage.rename f) := h.usages_eq hm hn ht.1
  have hname : (n.scene (f t)).nameOf (f c) = (m.scene t).nameOf c := h.name_eq c hc
  have htaken : (n.scene (f t)).nameTaken (visible.map f) (f c) = (m.scene t).nameTaken visible c := by
    have hnested : ((n.scene (f t)).model.entry (n.scene (f t)).target).nested.values =
        ((m.scene t).model.entry (m.scene t).target).nested.values.map f := h.nested_eq t ht.1
    have htarget : (n.scene (f t)).target = f (m.scene t).target := rfl
    rw [Scene.nameTaken, Scene.nameTaken, hnested, htarget, ← List.map_cons, ← List.map_append, List.any_map]
    rw [Bool.eq_iff_iff, List.any_eq_true, List.any_eq_true]
    refine exists_congr fun d ↦ and_congr_right fun hd ↦ ?_
    have hd : S d := by
      rcases List.mem_append.mp hd with hd | hd
      · rcases List.mem_cons.mp hd with rfl | hd
        · exact h.defined _ ht.1
        · refine h.defined d ((hm.outer_defined d t ((mem_nested_values_iff hm).mp hd)).mpr ht.1)
      · exact hvisible d hd
    have hname' : (n.scene (f t)).nameOf (f d) = (m.scene t).nameOf d := h.name_eq d hd
    simp only [Function.comp_apply, hname, hname', ne_eq, h.injective.eq_iff]
  rw [Scene.causesNoAmbiguity, Scene.causesNoAmbiguity, husages, hname, Table.get?_map, htaken]
  cases hu : (m.scene t).usages.get? ((m.scene t).nameOf c) with
  | none => simp only [Option.map_none, h.shadowsBuiltin_eq hm hn ht hc]
  | some u =>
      have hrefs : ∀ d ∈ u.refs, S d := fun d ↦ h.mem_of_mem_refs hm hn ht.1 (Table.mem_entries_of_get? hu)
      have hcontains : (u.rename f).refs.contains (f c) = u.refs.contains c := by
        rw [Bool.eq_iff_iff, List.contains_iff_mem, List.contains_iff_mem]
        exact List.mem_map_of_injective h.injective
      simp only [Option.map_some, h.isAmbiguous_eq hm hn ht hrefs, hcontains]

theorem nearestOuter?_eq {visible : List ClassId} (hvisible : ∀ c ∈ visible, S c) {c : ClassId} (hc : S c) :
    (n.scene (f t)).nearestOuter? (visible.map f) (f c) = ((m.scene t).nearestOuter? visible c).map f := by
  have houters : (n.scene (f t)).model.outers (f c) = ((m.scene t).model.outers c).map f :=
    h.outers_eq hm hn hc
  rw [Scene.nearestOuter?, Scene.nearestOuter?, houters, List.find?_map]
  congr 1
  refine List.find?_congr fun o ho ↦ ?_
  have hS := h.mem_of_mem_outers hm hc ho
  rw [Function.comp_apply, h.causesNoAmbiguity_eq hm hn ht hvisible hS, h.shouldBeImported_eq hm hn hS]

theorem move_eq {visible : List ClassId} (hvisible : ∀ c ∈ visible, S c) {mv : Scene.Move} (hmv : S mv.subject) :
    (n.scene (f t)).move (visible.map f) (mv.rename f) = ((m.scene t).move visible mv).map f ∧
      ∀ c ∈ (m.scene t).move visible mv, S c := by
  have hadd : ∀ o, S o → ∀ c ∈ addOnce visible o, S c := fun o ho c hc ↦ by
    rcases mem_addOnce.mp hc with hc | rfl
    · exact hvisible c hc
    · exact ho
  cases mv with
  | direct c => exact ⟨addOnce_map h.injective visible c, hadd c hmv⟩
  | outer c =>
      have hnearest := h.nearestOuter?_eq hm hn ht hvisible (c := c) hmv
      simp only [Scene.Move.rename, Scene.move, Scene.showOuter, hnearest]
      cases ho : (m.scene t).nearestOuter? visible c with
      | none => exact ⟨rfl, hvisible⟩
      | some o =>
          have hmem := h.mem_of_mem_outers hm hmv (List.mem_of_find?_eq_some ho)
          exact ⟨addOnce_map h.injective visible o, hadd o hmem⟩

theorem visible_eq : (n.scene (f t)).visible = (m.scene t).visible.map f ∧
    ∀ c ∈ (m.scene t).visible, S c := by
  have hsettled : (n.scene (f t)).settled = (m.scene t).settled.map f ∧ ∀ c ∈ (m.scene t).settled, S c := by
    rw [Scene.settled, Scene.settled, h.moves_eq hm hn ht, List.foldl_map]
    have hnil : ∀ c ∈ ([] : List ClassId), S c := List.forall_mem_nil _
    refine List.foldl_rel (r := fun v w ↦ v = w.map f ∧ ∀ c ∈ w, S c) ⟨rfl, hnil⟩ fun mv hmv v w hvw ↦ ?_
    obtain ⟨rfl, hw⟩ := hvw
    have hrecorded := Scene.recorded_of_mem_moves (coherent_scene hm ht) hmv
    obtain ⟨u, name, hu, hmem⟩ := (Scene.recorded_iff_exists_usage (coherent_scene hm ht)).mp hrecorded
    exact h.move_eq hm hn ht hw (h.mem_of_mem_refs hm hn ht.1 hu hmem)
  rw [Scene.visible_eq, Scene.visible_eq, hsettled.1]
  refine ⟨addOnce_map h.injective _ t, fun c hc ↦ ?_⟩
  rcases mem_addOnce.mp hc with hc | rfl
  · exact hsettled.2 c hc
  · exact h.defined _ ht.1

/-! ### The text -/

theorem importNames_eq {visible : List ClassId} (hvisible : ∀ c ∈ visible, S c) :
    (n.scene (f t)).importNames (visible.map f) = (m.scene t).importNames visible := by
  have hunit : S t := h.defined t ht.1
  have himplicit : ∀ c ∈ visible, (n.scene (f t)).isImplicit (f c) = (m.scene t).isImplicit c := fun c hc ↦ by
    have hS := hvisible c hc
    have houtermost : (n.scene (f t)).model.outermost (f c) = f ((m.scene t).model.outermost c) :=
      h.outermost_eq hm hn hS
    have hentry : ((n.scene (f t)).model.entry (f c)).outer = ((m.scene t).model.entry c).outer.map f :=
      h.outer_eq c hS
    unfold Scene.isImplicit
    simp only [houtermost, hentry, Option.isNone_map]
    congr 1
    · exact propext h.injective.eq_iff
    · congr 2
      · congr 1
        · exact decide_eq_decide.mpr (h.package_eq_root_iff hm hn hS)
        · exact decide_eq_decide.mpr (h.package_eq_builtin_iff hm hn hS)
      · exact decide_eq_decide.mpr (h.package_eq_package_iff hm hn hS hunit)
  have hfilter : ∀ c ∈ visible, ((fun d ↦ !(n.scene (f t)).isImplicit d) ∘ f) c = !(m.scene t).isImplicit c :=
    fun c hc ↦ congrArg not (himplicit c hc)
  have hnames : ∀ c ∈ visible.filter fun c ↦ !(m.scene t).isImplicit c,
      ((n.scene (f t)).model.fullName ∘ f) c = (m.scene t).model.fullName c := fun c hc ↦
    h.fullName_eq (hvisible c (List.mem_of_mem_filter hc))
  unfold Scene.importNames
  rw [List.filter_map, List.map_map, List.filter_congr hfilter, List.map_congr_left hnames]

theorem resolve_eq : n.resolve (f t) = (m.resolve t).rename f := by
  obtain ⟨hvisible, hmem⟩ := h.visible_eq hm hn ht
  have himports := h.importNames_eq hm hn ht hmem
  unfold scene at hvisible himports
  rw [resolve, resolve, Scene.resolve, Scene.resolve, hvisible, himports]
  rfl

omit hm hn ht in
theorem spellChain_eq (r : Resolution) {chain : List ClassId} (hchain : ∀ c ∈ chain, S c) :
    (r.rename f).spellChain n (chain.map f) = r.spellChain m chain := by
  induction chain with
  | nil => rfl
  | cons c rest ih =>
      obtain ⟨hc, hrest⟩ := List.forall_mem_cons.mp hchain
      have hplaceholder : (n.entry (f c)).isPlaceholder = (m.entry c).isPlaceholder := by
        simp only [ClassEntry.isPlaceholder, h.origin_eq c hc]
      have hvisible : (r.rename f).visible.contains (f c) = r.visible.contains c := by
        rw [Bool.eq_iff_iff, List.contains_iff_mem, List.contains_iff_mem]
        exact List.mem_map_of_injective h.injective
      cases rest with
      | nil =>
          simp only [List.map_cons, List.map_nil, Resolution.spellChain, hvisible, hplaceholder, h.name_eq c hc,
            h.fullName_eq hc]
      | cons o rest =>
          have ih := ih hrest
          simp only [List.map_cons] at ih
          simp only [List.map_cons, Resolution.spellChain, hvisible, hplaceholder, h.name_eq c hc, ih]

omit ht in
theorem tokens_eq (r : Resolution) {e : Event} (he : e.Within S) :
    (e.rename f).tokens n (r.rename f) = e.tokens m r := by
  cases e with
  | reference c =>
      have hc := he c (Or.inl rfl)
      have hchain : ∀ d ∈ c :: m.outers c, S d :=
        List.forall_mem_cons.mpr ⟨hc, fun d hd ↦ h.mem_of_mem_outers hm hc hd⟩
      simp only [Event.rename, Event.tokens, Resolution.spell, h.outers_eq hm hn hc, ← List.map_cons,
        h.spellChain_eq r hchain]
  | declared c => simp only [Event.rename, Event.tokens, h.name_eq c (he c (Or.inr rfl))]
  | text _ | newline | indent | outdent | identifier _ => rfl

omit hm hn in
theorem preamble_eq {r : Resolution} (hr : r.target = t) : n.preamble (r.rename f) = m.preamble r := by
  have hname := h.packageName_eq t (h.defined t ht.1)
  have hunnamed := Package.isUnnamed_congr hname
  simp only [preamble, Resolution.rename, hr, hname, hunnamed]

theorem unitPage_eq : n.unitPage (f t) = m.unitPage t := by
  have hevents := h.declarationEvents_renames hm hn ht.1
  have htokens : ∀ e ∈ m.declarationEvents t,
      (e.rename f).tokens n ((m.resolve t).rename f) = e.tokens m (m.resolve t) := fun e he ↦
    h.tokens_eq hm hn _ (hevents.within e he)
  rw [unitPage_eq_ofTokens, unitPage_eq_ofTokens, unitTokens, unitTokens, h.resolve_eq hm hn ht,
    h.preamble_eq ht rfl, hevents.eq_map, List.flatMap_map, List.flatMap_congr htokens]

/-- A unit has the same text under other handles. -/
theorem render_eq (layout : Layout) :
    ∃ text, m.render layout t = .ok text ∧ n.render layout (f t) = .ok text := by
  have hS := h.defined t ht.1
  have hunit : n.IsUnit (f t) :=
    ⟨(h.origin_eq t hS).trans ht.1, by rw [h.outer_eq t hS, ht.2, Option.map_none]⟩
  refine ⟨(m.unitPage t).text layout, ?_, ?_⟩
  · rw [render, unitFault?_eq_none_iff.mpr ht]
  · rw [render, unitFault?_eq_none_iff.mpr hunit, h.unitPage_eq hm hn ht]

end Copied
end Model
end JavaSource
