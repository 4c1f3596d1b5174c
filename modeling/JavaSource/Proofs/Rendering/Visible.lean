import Mathlib.Data.List.Nodup
import JavaSource.Proofs.Model.Enclosing
import JavaSource.Proofs.Rendering.Usage
import JavaSource.Rendering.Resolution

/-!
# Which classes become visible

Settling the names of a unit one after another comes down to a run of moves, each of which shows one class or
looks for an enclosing class to show. Whether a class may be shown at all does not depend on what is shown so
far. What is shown so far only matters for enclosing classes whose names are taken, and these stay hidden for
good.
-/

namespace JavaSource

section Fold

variable {α β : Type}

theorem subset_foldl_of_grow {f : List α → β → List α} (grow : ∀ l b, l ⊆ f l b) (bs : List β) (l : List α) :
    l ⊆ bs.foldl f l := by
  induction bs generalizing l with
  | nil => exact List.Subset.refl l
  | cons b bs ih => exact List.Subset.trans (grow l b) (ih (f l b))

/-- What a run has gathered came in at one of its steps. -/
theorem exists_step_of_mem_foldl {f : List α → β → List α} {bs : List β} {l : List α} {a : α}
    (ha : a ∈ bs.foldl f l) (hl : a ∉ l) :
    ∃ pre b post, bs = pre ++ b :: post ∧ a ∉ pre.foldl f l ∧ a ∈ f (pre.foldl f l) b := by
  induction bs generalizing l with
  | nil => exact absurd ha hl
  | cons b bs ih =>
      by_cases hb : a ∈ f l b
      · exact ⟨[], b, bs, rfl, hl, hb⟩
      · obtain ⟨pre, d, post, rfl, hpre, hd⟩ := ih ha hb
        exact ⟨b :: pre, d, post, rfl, hpre, hd⟩

end Fold

/-- The nearest visible class among a class and its enclosing classes, through which the class is written. -/
def Resolution.head? (r : Resolution) (m : Model) (c : ClassId) : Option ClassId :=
  (c :: m.outers c).find? fun d ↦ decide (d ∈ r.visible)

namespace Scene

/-- The class is in the table of names in use. -/
def Recorded (s : Scene) (c : ClassId) : Prop := s.usages.Records (s.nameOf c) c

/-- The short name of the class is used for nothing else, and no class hides it. -/
structure Free (s : Scene) (c : ClassId) : Prop where
  sole : ∀ d, s.usages.Records (s.nameOf c) d → d = c
  not_identifier : ¬ s.usages.RecordsIdentifier (s.nameOf c)
  not_shadowed : s.shadowsBuiltin c = false

/-- Whether the class may be shown, as far as the class itself is concerned. -/
def Fits (s : Scene) (c : ClassId) : Prop := s.Free c ∧ s.shouldBeImported c = true

/-- Another class has the short name already. -/
def Taken (s : Scene) (visible : List ClassId) (c : ClassId) : Prop :=
  ∃ d, (d = s.target ∨ d ∈ (s.model.entry s.target).nested.values ∨ d ∈ visible) ∧ d ≠ c ∧
    s.nameOf d = s.nameOf c

/-- What is true of the scene of a unit. -/
structure Coherent (s : Scene) : Prop where
  lawful : s.usages.Lawful
  named : ∀ name c, s.usages.Records name c → s.nameOf c = name
  outersBelow : s.model.OutersBelow
  target_recorded : s.Recorded s.target
  target_outermost : s.model.outers s.target = []
  member_recorded : ∀ c ∈ (s.model.entry s.target).nested.values, s.Recorded c

variable {s : Scene}

/-! ## Free names -/

theorem free_iff_of_usage (hs : s.usages.Lawful) {c : ClassId} {u : Usage}
    (hu : s.usages.get? (s.nameOf c) = some u) :
    s.Free c ↔ u.refs = [c] ∧ u.asIdentifier = false ∧ s.shadowsBuiltin c = false := by
  have husage := UsageTable.usage_of_get? hu
  have hnodup := husage ▸ hs.refs (s.nameOf c)
  have hrecords : ∀ d, s.usages.Records (s.nameOf c) d ↔ d ∈ u.refs := fun d ↦ by
    rw [UsageTable.Records, husage]
  have hidentifier : s.usages.RecordsIdentifier (s.nameOf c) ↔ u.asIdentifier = true := by
    rw [UsageTable.RecordsIdentifier, husage]
  constructor
  · rintro ⟨hsole, hid, hshadow⟩
    simp only [hrecords] at hsole
    refine ⟨?_, by simpa [hidentifier] using hid, hshadow⟩
    rcases hrefs : u.refs with _ | ⟨d, _ | ⟨e, rest⟩⟩
    · exact absurd (hidentifier.mpr (hs.used _ u hu hrefs)) hid
    · rw [hsole d (by simp [hrefs])]
    · have hd : d = c := hsole d (by simp [hrefs])
      have he : e = c := hsole e (by simp [hrefs])
      simp [hrefs, hd, he] at hnodup
  · rintro ⟨hrefs, hid, hshadow⟩
    refine ⟨fun d hd ↦ ?_, by simp [hidentifier, hid], hshadow⟩
    simpa [hrefs] using (hrecords d).mp hd

theorem free_iff_of_no_usage {c : ClassId} (hu : s.usages.get? (s.nameOf c) = none) :
    s.Free c ↔ s.shadowsBuiltin c = false := by
  have husage := UsageTable.usage_of_get?_eq_none hu
  refine ⟨Free.not_shadowed, fun h ↦ ⟨fun d hd ↦ ?_, ?_, h⟩⟩
  · rw [UsageTable.Records, husage] at hd
    cases hd
  · rw [UsageTable.RecordsIdentifier, husage]
    exact Bool.false_ne_true

theorem nameTaken_iff {visible : List ClassId} {c : ClassId} :
    s.nameTaken visible c = true ↔ s.Taken visible c := by
  simp only [nameTaken, Taken, List.any_eq_true, List.cons_append, List.mem_cons, List.mem_append,
    Bool.and_eq_true, decide_eq_true_eq]

theorem causesNoAmbiguity_iff (hs : s.usages.Lawful) {visible : List ClassId} {c : ClassId} :
    s.causesNoAmbiguity visible c = true ↔ s.Free c ∧ ¬ s.Taken visible c := by
  rw [← nameTaken_iff, causesNoAmbiguity]
  cases hu : s.usages.get? (s.nameOf c) with
  | none => simp [free_iff_of_no_usage hu]
  | some u =>
      rw [free_iff_of_usage hs hu]
      rcases hrefs : u.refs with _ | ⟨d, _ | ⟨e, rest⟩⟩
      · simp [hrefs]
      · simp only [isAmbiguous, hrefs]
        by_cases hd : d = c
        · simp [hd]
        · simp [hd, Ne.symm hd]
      · simp [isAmbiguous, hrefs]

/-! ## Moves -/

/-- One move: it shows the class, or the nearest enclosing class that may be shown. -/
inductive Move where
  | direct (c : ClassId)
  | outer (c : ClassId)

def Move.subject : Move → ClassId
  | .direct c | .outer c => c

def movesOf (s : Scene) (u : Usage) : List Move :=
  match u.refs with
  | [c] => if s.isAmbiguous u || !s.shouldBeImported c then [.outer c] else [.direct c]
  | refs => refs.map .outer

def moves (s : Scene) : List Move := s.usages.values.flatMap s.movesOf

def move (s : Scene) (visible : List ClassId) : Move → List ClassId
  | .direct c => addOnce visible c
  | .outer c => s.showOuter visible c

/-- The visible classes but for the target. -/
def settled (s : Scene) : List ClassId := s.moves.foldl s.move []

theorem settle_eq_foldl (s : Scene) (visible : List ClassId) (u : Usage) :
    s.settle visible u = (s.movesOf u).foldl s.move visible := by
  obtain ⟨refs, asIdentifier⟩ := u
  rcases refs with _ | ⟨c, _ | ⟨d, rest⟩⟩
  · rfl
  · simp only [settle, movesOf]
    cases s.isAmbiguous ⟨[c], asIdentifier⟩ <;> cases s.shouldBeImported c <;> rfl
  · simp only [settle, movesOf, List.foldl_map]
    rfl

theorem visible_eq (s : Scene) : s.visible = addOnce s.settled s.target := by
  have hsettle : s.settle = fun visible u ↦ (s.movesOf u).foldl s.move visible :=
    funext fun visible ↦ funext fun u ↦ settle_eq_foldl s visible u
  rw [visible, settled, moves, List.foldl_flatMap, hsettle]

theorem subset_move (s : Scene) (visible : List ClassId) (mv : Move) : visible ⊆ s.move visible mv := by
  intro c hc
  cases mv with
  | direct d => exact mem_addOnce.mpr (Or.inl hc)
  | outer d =>
      simp only [move, showOuter]
      split
      · exact mem_addOnce.mpr (Or.inl hc)
      · exact hc

theorem mem_movesOf (hs : s.Coherent) {name : String} {u : Usage} (hu : s.usages.get? name = some u)
    {mv : Move} : mv ∈ s.movesOf u ↔
      (∃ c, mv = .direct c ∧ c ∈ u.refs ∧ s.Fits c) ∨ (∃ c, mv = .outer c ∧ c ∈ u.refs ∧ ¬ s.Fits c) := by
  have hname : ∀ c ∈ u.refs, s.nameOf c = name := fun c hc ↦
    hs.named name c (by rwa [UsageTable.Records, UsageTable.usage_of_get? hu])
  have hfree : ∀ c ∈ u.refs,
      (s.Free c ↔ u.refs = [c] ∧ u.asIdentifier = false ∧ s.shadowsBuiltin c = false) := fun c hc ↦
    free_iff_of_usage hs.lawful (hname c hc ▸ hu)
  rcases hrefs : u.refs with _ | ⟨c, _ | ⟨d, rest⟩⟩
  · simp [movesOf, hrefs]
  · have hfits : s.Fits c ↔ ¬ (s.isAmbiguous u || !s.shouldBeImported c) = true := by
      rw [Fits, hfree c (by simp [hrefs])]
      simp only [isAmbiguous, hrefs]
      cases u.asIdentifier <;> cases s.shadowsBuiltin c <;> cases s.shouldBeImported c <;> simp
    simp only [movesOf, hrefs]
    split
    · rename_i h
      simp [hfits, h]
    · rename_i h
      simp [hfits, h]
  · have hnot : ∀ e ∈ u.refs, ¬ s.Fits e := by
      intro e he hfits
      have := ((hfree e he).mp hfits.1).1
      simp [hrefs] at this
    simp only [movesOf, hrefs, List.mem_map]
    rw [hrefs] at hnot
    grind

theorem recorded_of_mem_refs (hs : s.Coherent) {name : String} {u : Usage} {c : ClassId}
    (hu : (name, u) ∈ s.usages.entries) (hc : c ∈ u.refs) : s.Recorded c := by
  have hget := Table.get?_of_mem_entries hs.lawful.keys hu
  have hrecords : s.usages.Records name c := by
    rwa [UsageTable.Records, UsageTable.usage_of_get? hget]
  rw [Recorded, hs.named name c hrecords]
  exact hrecords

theorem recorded_iff_exists_usage (hs : s.Coherent) {c : ClassId} :
    s.Recorded c ↔ ∃ u name, (name, u) ∈ s.usages.entries ∧ c ∈ u.refs := by
  refine ⟨fun hc ↦ ?_, fun ⟨u, name, hu, hc⟩ ↦ recorded_of_mem_refs hs hu hc⟩
  cases hu : s.usages.get? (s.nameOf c) with
  | none =>
      rw [Recorded, UsageTable.Records, UsageTable.usage_of_get?_eq_none hu] at hc
      cases hc
  | some u =>
      rw [Recorded, UsageTable.Records, UsageTable.usage_of_get? hu] at hc
      exact ⟨u, _, Table.mem_entries_of_get? hu, hc⟩

theorem mem_moves (hs : s.Coherent) {mv : Move} : mv ∈ s.moves ↔
    (∃ c, mv = .direct c ∧ s.Recorded c ∧ s.Fits c) ∨
      (∃ c, mv = .outer c ∧ s.Recorded c ∧ ¬ s.Fits c) := by
  simp only [moves, List.mem_flatMap, Table.mem_values, recorded_iff_exists_usage hs]
  constructor
  · rintro ⟨u, ⟨name, hu⟩, hmv⟩
    rcases (mem_movesOf hs (Table.get?_of_mem_entries hs.lawful.keys hu)).mp hmv with
      ⟨c, hc, hmem, hfits⟩ | ⟨c, hc, hmem, hfits⟩
    · exact Or.inl ⟨c, hc, ⟨u, name, hu, hmem⟩, hfits⟩
    · exact Or.inr ⟨c, hc, ⟨u, name, hu, hmem⟩, hfits⟩
  · have hmem : ∀ {u name}, (name, u) ∈ s.usages.entries → (mv ∈ s.movesOf u ↔ _) := fun hu ↦
      mem_movesOf hs (Table.get?_of_mem_entries hs.lawful.keys hu)
    rintro (⟨c, hc, ⟨u, name, hu, hrefs⟩, hfits⟩ | ⟨c, hc, ⟨u, name, hu, hrefs⟩, hfits⟩)
    · exact ⟨u, ⟨name, hu⟩, (hmem hu).mpr (Or.inl ⟨c, hc, hrefs, hfits⟩)⟩
    · exact ⟨u, ⟨name, hu⟩, (hmem hu).mpr (Or.inr ⟨c, hc, hrefs, hfits⟩)⟩

theorem recorded_of_mem_moves (hs : s.Coherent) {mv : Move} (hmv : mv ∈ s.moves) :
    s.Recorded mv.subject := by
  rcases (mem_moves hs).mp hmv with ⟨c, rfl, hc, -⟩ | ⟨c, rfl, hc, -⟩
  · exact hc
  · exact hc

/-! ## What every stage of the run is like -/

/-- What is shown at any stage: classes that fit, each once, under names of their own. -/
structure Settled (s : Scene) (visible : List ClassId) : Prop where
  nodup : visible.Nodup
  fits : ∀ c ∈ visible, s.Fits c
  apart : ∀ c ∈ visible, ∀ d ∈ visible, s.nameOf c = s.nameOf d → c = d

theorem Settled.show {visible : List ClassId} (h : s.Settled visible) {c : ClassId} (hc : s.Fits c)
    (hapart : ∀ d ∈ visible, s.nameOf d = s.nameOf c → d = c) : s.Settled (addOnce visible c) where
  nodup := nodup_addOnce h.nodup
  fits d hd := by
    rcases mem_addOnce.mp hd with hd | rfl
    · exact h.fits d hd
    · exact hc
  apart d hd e he hname := by
    rcases mem_addOnce.mp hd with hd' | rfl <;> rcases mem_addOnce.mp he with he' | rfl
    · exact h.apart d hd' e he' hname
    · exact hapart d hd' hname
    · exact (hapart e he' hname.symm).symm
    · rfl

theorem Settled.move (hs : s.Coherent) {visible : List ClassId} (h : s.Settled visible) {mv : Move}
    (hmv : mv ∈ s.moves) : s.Settled (s.move visible mv) := by
  cases mv with
  | direct c =>
      obtain ⟨c, heq, hrecorded, hfits⟩ | ⟨c, heq, -⟩ := (mem_moves hs).mp hmv
      · cases heq
        refine h.show hfits fun d hd hname ↦ ?_
        have hsole := (h.fits d hd).1.sole c
        rw [hname] at hsole
        exact (hsole hrecorded).symm
      · cases heq
  | outer c =>
      simp only [Scene.move, showOuter]
      split
      · rename_i o ho
        have hmay := List.find?_some ho
        rw [Bool.and_eq_true, causesNoAmbiguity_iff hs.lawful] at hmay
        obtain ⟨⟨hfree, htaken⟩, hembeds⟩ := hmay
        refine h.show ⟨hfree, hembeds⟩ fun d hd hname ↦ ?_
        by_contra hne
        exact htaken ⟨d, Or.inr (Or.inr hd), hne, hname⟩
      · exact h

theorem Settled.run (hs : s.Coherent) {visible : List ClassId} (h : s.Settled visible) {ms : List Move}
    (hms : ms ⊆ s.moves) : s.Settled (ms.foldl s.move visible) := by
  induction ms generalizing visible with
  | nil => exact h
  | cons mv ms ih =>
      obtain ⟨hmv, hms⟩ := List.cons_subset.mp hms
      exact ih (h.move hs hmv) hms

theorem settled_nil (s : Scene) : s.Settled [] where
  nodup := List.nodup_nil
  fits _ hc := nomatch hc
  apart _ hc := nomatch hc

theorem settled_settled (hs : s.Coherent) : s.Settled s.settled :=
  (settled_nil s).run hs (List.Subset.refl _)

/-- A move is made at a stage that the rest of the run only adds to. -/
theorem exists_stage {mv : Move} (hmv : mv ∈ s.moves) :
    ∃ stage, stage ⊆ s.settled ∧ s.move stage mv ⊆ s.settled := by
  obtain ⟨pre, post, heq⟩ := List.append_of_mem hmv
  have hrest : s.move (pre.foldl s.move []) mv ⊆ s.settled := by
    rw [settled, heq, List.foldl_append, List.foldl_cons]
    exact subset_foldl_of_grow s.subset_move post _
  exact ⟨pre.foldl s.move [], List.Subset.trans (s.subset_move _ mv) hrest, hrest⟩

/-! ## The outcome -/

theorem mem_visible {c : ClassId} : c ∈ s.visible ↔ c ∈ s.settled ∨ c = s.target := by
  rw [visible_eq, mem_addOnce]

theorem fits_of_mem_visible (hs : s.Coherent) {c : ClassId} (hc : c ∈ s.visible) (hne : c ≠ s.target) :
    s.Fits c :=
  (settled_settled hs).fits c ((mem_visible.mp hc).resolve_right hne)

theorem eq_target_of_nameOf_eq (hs : s.Coherent) {c : ClassId} (hc : c ∈ s.visible)
    (hname : s.nameOf c = s.nameOf s.target) : c = s.target := by
  by_contra hne
  have hsole := (fits_of_mem_visible hs hc hne).1.sole s.target
  rw [hname] at hsole
  exact hne (hsole hs.target_recorded).symm

theorem eq_of_nameOf_eq (hs : s.Coherent) {c d : ClassId} (hc : c ∈ s.visible) (hd : d ∈ s.visible)
    (hname : s.nameOf c = s.nameOf d) : c = d := by
  rcases mem_visible.mp hc with hc' | rfl
  · rcases mem_visible.mp hd with hd' | rfl
    · exact (settled_settled hs).apart c hc' d hd' hname
    · exact eq_target_of_nameOf_eq hs hc hname
  · exact (eq_target_of_nameOf_eq hs hd hname.symm).symm

theorem nodup_visible (hs : s.Coherent) : s.visible.Nodup := by
  rw [visible_eq]
  exact nodup_addOnce (settled_settled hs).nodup

/-- A class that the unit names is visible exactly if it fits, whatever the order of the names. -/
theorem mem_visible_iff_of_recorded (hs : s.Coherent) {c : ClassId} (hc : s.Recorded c) :
    c ∈ s.visible ↔ c = s.target ∨ s.Fits c := by
  constructor
  · intro hvisible
    by_cases hne : c = s.target
    · exact Or.inl hne
    · exact Or.inr (fits_of_mem_visible hs hvisible hne)
  · rintro (rfl | hfits)
    · exact mem_visible.mpr (Or.inr rfl)
    · obtain ⟨stage, -, hstage⟩ := exists_stage ((mem_moves hs).mpr (Or.inl ⟨c, rfl, hc, hfits⟩))
      exact mem_visible.mpr (Or.inl (hstage (mem_addOnce.mpr (Or.inr rfl))))

theorem nearestOuter?_eq_some_iff (hs : s.Coherent) {visible : List ClassId} {c o : ClassId} :
    s.nearestOuter? visible c = some o ↔
      (s.Fits o ∧ ¬ s.Taken visible o) ∧
        ∃ pre post, s.model.outers c = pre ++ o :: post ∧ ∀ d ∈ pre, s.Fits d → s.Taken visible d := by
  have hmay : ∀ d, (s.causesNoAmbiguity visible d && s.shouldBeImported d) = true ↔
      s.Fits d ∧ ¬ s.Taken visible d := fun d ↦ by
    rw [Bool.and_eq_true, causesNoAmbiguity_iff hs.lawful, Fits]
    exact and_right_comm
  rw [nearestOuter?, List.find?_eq_some_iff_append, hmay]
  refine and_congr_right fun _ ↦ exists_congr fun pre ↦ exists_congr fun post ↦ and_congr_right
    fun _ ↦ forall₂_congr fun d _ ↦ ?_
  rw [Bool.not_eq_true', ← Bool.not_eq_true, hmay, not_and_not_right]

theorem Taken.mono {visible more : List ClassId} (hsub : visible ⊆ more) {c : ClassId}
    (h : s.Taken visible c) : s.Taken more c := by
  obtain ⟨d, hd, hne, hname⟩ := h
  exact ⟨d, hd.imp_right (Or.imp_right fun hd ↦ hsub hd), hne, hname⟩

theorem not_taken_of_mem_visible (hs : s.Coherent) {c : ClassId} (hc : c ∈ s.visible)
    (hne : c ≠ s.target) : ¬ s.Taken s.settled c := by
  rintro ⟨d, rfl | hd | hd, hdc, hname⟩
  · exact hne (eq_target_of_nameOf_eq hs hc hname.symm)
  · refine hdc ((fits_of_mem_visible hs hc hne).1.sole d ?_)
    rw [← hname]
    exact hs.member_recorded d hd
  · exact hdc (eq_of_nameOf_eq hs (mem_visible.mpr (Or.inl hd)) hc hname)

/-- A hidden class that the unit names is written in full up to its nearest visible enclosing class, and each
enclosing class on the way has a reason of its own not to be shown. -/
theorem taken_of_not_mem_visible (hs : s.Coherent) {c : ClassId} (hc : s.Recorded c)
    (hhidden : c ∉ s.visible) {pre post : List ClassId} {o : ClassId}
    (houters : s.model.outers c = pre ++ o :: post) (hpre : ∀ d ∈ pre, d ∉ s.visible)
    (ho : o ∉ s.visible) : s.Fits o → s.Taken s.visible o := by
  intro hfits
  by_contra htaken
  have hmove : Move.outer c ∈ s.moves := by
    refine (mem_moves hs).mpr (Or.inr ⟨c, rfl, hc, fun hfits ↦ hhidden ?_⟩)
    exact (mem_visible_iff_of_recorded hs hc).mpr (Or.inr hfits)
  obtain ⟨stage, hsub, hstage⟩ := exists_stage hmove
  have hvisible : stage ⊆ s.visible := fun d hd ↦ mem_visible.mpr (Or.inl (hsub hd))
  -- At that stage `o` may be shown, so `o` or a class nearer than `o` is.
  have hsome : (s.nearestOuter? stage c).isSome := by
    rw [nearestOuter?, List.find?_isSome]
    refine ⟨o, by simp [houters], ?_⟩
    rw [Bool.and_eq_true, causesNoAmbiguity_iff hs.lawful]
    exact ⟨⟨hfits.1, fun h ↦ htaken (h.mono hvisible)⟩, hfits.2⟩
  obtain ⟨d, hd⟩ := Option.isSome_iff_exists.mp hsome
  have hshown : d ∈ s.visible := by
    refine mem_visible.mpr (Or.inl (hstage ?_))
    simp only [move, showOuter, hd]
    exact mem_addOnce.mpr (Or.inr rfl)
  obtain ⟨-, skipped, rest, heq, hskipped⟩ := (nearestOuter?_eq_some_iff hs).mp hd
  rw [houters] at heq
  rcases List.append_eq_append_iff.mp heq with ⟨as, rfl, has⟩ | ⟨bs, rfl, hbs⟩
  · rcases as with _ | ⟨a, as⟩
    · cases has
      exact ho hshown
    · cases has
      refine htaken ((hskipped o ?_ hfits).mono hvisible)
      exact List.mem_append_right _ (List.mem_cons_self ..)
  · rcases bs with _ | ⟨b, bs⟩
    · cases hbs
      exact ho hshown
    · cases hbs
      refine hpre d ?_ hshown
      exact List.mem_append_right _ (List.mem_cons_self ..)

/-- Nothing is shown in vain: some class that the unit names is written through each visible class. -/
theorem exists_head_of_mem_visible (hs : s.Coherent) {c : ClassId} (hc : c ∈ s.visible)
    (hne : c ≠ s.target) : ∃ x, s.Recorded x ∧ s.resolve.head? s.model x = some c := by
  have hsettled := (mem_visible.mp hc).resolve_right hne
  obtain ⟨pre, mv, post, heq, hnew, hshown⟩ := exists_step_of_mem_foldl hsettled List.not_mem_nil
  have hmv : mv ∈ s.moves := heq ▸ List.mem_append_right pre (List.mem_cons_self ..)
  have hsub : pre.foldl s.move [] ⊆ s.settled := by
    rw [settled, heq, List.foldl_append]
    exact subset_foldl_of_grow s.subset_move _ _
  rcases (mem_moves hs).mp hmv with ⟨x, rfl, hx, -⟩ | ⟨x, rfl, hx, hfits⟩
  · obtain rfl : c = x := (mem_addOnce.mp hshown).resolve_left hnew
    exact ⟨c, hx, by simp [Resolution.head?, resolve, hc]⟩
  · simp only [move, showOuter] at hshown
    split at hshown
    case h_2 => exact absurd hshown hnew
    case h_1 o ho =>
      obtain rfl : c = o := (mem_addOnce.mp hshown).resolve_left hnew
      obtain ⟨-, skipped, rest, houters, hskipped⟩ := (nearestOuter?_eq_some_iff hs).mp ho
      -- The target encloses nothing that has enclosing classes beyond it.
      have hbeyond : s.target ∉ x :: skipped := by
        intro hmem
        rcases List.mem_cons.mp hmem with rfl | hmem
        · simp [hs.target_outermost] at houters
        · obtain ⟨near, far, rfl⟩ := List.append_of_mem hmem
          rw [List.append_assoc] at houters
          have := Model.outers_of_outers_eq_append hs.outersBelow houters
          simp [hs.target_outermost] at this
      refine ⟨x, hx, ?_⟩
      rw [Resolution.head?, List.find?_eq_some_iff_append]
      refine ⟨by simp [resolve, hc], x :: skipped, rest, by rw [houters]; rfl, fun d hd ↦ ?_⟩
      have hdne : d ≠ s.target := fun h ↦ hbeyond (h ▸ hd)
      have hhidden : d ∉ s.visible := by
        intro hvisible
        have hdfits := fits_of_mem_visible hs hvisible hdne
        rcases List.mem_cons.mp hd with rfl | hd
        · exact hfits hdfits
        · exact not_taken_of_mem_visible hs hvisible hdne ((hskipped d hd hdfits).mono hsub)
      simp [resolve, hhidden]

end Scene
end JavaSource
