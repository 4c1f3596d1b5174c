import JavaSource.Declaration.Build
import JavaSource.Proofs.Model.Step

/-!
# Runs of assembling steps

A step of assembling either yields a value and a state or fails. Only runs that yield matter for what a built
model holds, and a run that yields is one of each of its parts.
-/

namespace JavaSource.Assemble

variable {α β : Type}

def exec (a : Assemble α) (s : Assembly) : Except DeclarationError α × Assembly :=
  (ExceptT.run a).run s

/-- Started in `s`, the step yields `v` and leaves `t`. -/
def Yields (a : Assemble α) (s : Assembly) (v : α) (t : Assembly) : Prop := a.exec s = (.ok v, t)

variable {s t : Assembly} {v : α}

theorem exists_yields_of_isOk {a : Assemble α} (h : (a.exec s).1.isOk = true) : ∃ v t, a.Yields s v t := by
  rcases hrun : a.exec s with ⟨e | v, t⟩
  · rw [hrun] at h
    exact absurd h Bool.false_ne_true
  · exact ⟨v, t, hrun⟩

@[simp] theorem yields_pure {w : α} : Yields (pure w) s v t ↔ w = v ∧ s = t :=
  ⟨fun h ↦ by cases h; exact ⟨rfl, rfl⟩, fun h ↦ by obtain ⟨rfl, rfl⟩ := h; rfl⟩

@[simp] theorem yields_throw {e : DeclarationError} : ¬ Yields (throw e : Assemble α) s v t := nofun

theorem exec_bind (a : Assemble α) (f : α → Assemble β) (s : Assembly) :
    (a >>= f).exec s = match a.exec s with
      | (.ok v, t) => (f v).exec t
      | (.error e, t) => (.error e, t) := by
  unfold exec
  simp only [ExceptT.run_bind, StateT.run_bind]
  rcases StateT.run (ExceptT.run a) s with ⟨_ | v, t⟩ <;> rfl

theorem yields_bind {a : Assemble α} {f : α → Assemble β} {w : β} :
    Yields (a >>= f) s w t ↔ ∃ v k, Yields a s v k ∧ Yields (f v) k w t := by
  simp only [Yields, exec_bind]
  rcases a.exec s with ⟨_ | v, k⟩
  · simp
  · constructor
    · exact fun h ↦ ⟨v, k, rfl, h⟩
    · rintro ⟨_, _, h, hf⟩
      cases h
      exact hf

theorem yields_map {a : Assemble α} {f : α → β} {w : β} :
    Yields (f <$> a) s w t ↔ ∃ v, Yields a s v t ∧ w = f v := by
  rw [map_eq_pure_bind, yields_bind]
  constructor
  · rintro ⟨v, k, ha, hf⟩
    obtain ⟨rfl, rfl⟩ := yields_pure.mp hf
    exact ⟨v, ha, rfl⟩
  · rintro ⟨v, ha, rfl⟩
    exact ⟨v, t, ha, yields_pure.mpr ⟨rfl, rfl⟩⟩

@[simp] theorem yields_get {v : Assembly} : Yields get s v t ↔ s = v ∧ s = t := by
  exact ⟨fun h ↦ by cases h; exact ⟨rfl, rfl⟩, fun h ↦ by obtain ⟨rfl, rfl⟩ := h; rfl⟩

@[simp] theorem yields_set {k : Assembly} {v : PUnit} : Yields (set k) s v t ↔ t = k :=
  ⟨fun h ↦ by cases h; rfl, fun h ↦ by obtain rfl := h; rfl⟩

@[simp] theorem yields_model {v : Model} : Yields model s v t ↔ s.model = v ∧ s = t := by
  exact ⟨fun h ↦ by cases h; exact ⟨rfl, rfl⟩, fun h ↦ by obtain ⟨rfl, rfl⟩ := h; rfl⟩

@[simp] theorem yields_ofExcept {x : Except ModelError α} :
    Yields (ofExcept x) s v t ↔ x = .ok v ∧ s = t := by
  cases x with
  | error e => simp [ofExcept]
  | ok w => simp [ofExcept]

@[simp] theorem yields_liftExcept {x : Except DeclarationError α} :
    Yields (liftExcept x) s v t ↔ x = .ok v ∧ s = t := by
  cases x with
  | error e => exact ⟨nofun, nofun⟩
  | ok w =>
      rw [Except.ok.injEq]
      exact yields_pure

@[simp] theorem yields_build {b : Build α} :
    Yields (build b) s v t ↔ ∃ m, b.exec s.model = (.ok v, m) ∧ t = { s with model := m } := by
  simp only [build, yields_bind, yields_get, yields_ofExcept, yields_set]
  constructor
  · rintro ⟨_, _, ⟨rfl, rfl⟩, _, _, rfl, hv, rfl⟩
    exact ⟨_, Prod.ext hv rfl, rfl⟩
  · rintro ⟨m, hb, rfl⟩
    exact ⟨s, s, ⟨rfl, rfl⟩, ⟨⟩, _, rfl, by simp [hb], by rw [hb]⟩

@[simp] theorem yields_update {c : ClassId} {f : ClassEntry → Except ModelError ClassEntry} {u : Unit} :
    Yields (update c f) s u t ↔
      ∃ e, f (s.model.entry c) = .ok e ∧
        t = { s with model := s.model.modifyClass c fun _ ↦ e } := by
  rw [update, yields_build, Model.exec_updateClass]
  cases f (s.model.entry c) with
  | error fault => simp
  | ok e => simp

@[simp] theorem yields_modify {c : ClassId} {f : ClassEntry → ClassEntry} {u : Unit} :
    Yields (modify c f) s u t ↔
      t = { s with model := s.model.modifyClass c fun _ ↦ f (s.model.entry c) } := by
  simp [modify]

/-! ## Lists of steps -/

@[simp] theorem yields_forM_nil {f : α → Assemble PUnit} {u : PUnit} : Yields ([].forM f) s u t ↔ s = t := by
  exact yields_pure.trans (and_iff_right rfl)

theorem yields_forM_cons {f : α → Assemble PUnit} {a : α} {l : List α} {u : PUnit} :
    Yields ((a :: l).forM f) s u t ↔ ∃ k, Yields (f a) s ⟨⟩ k ∧ Yields (l.forM f) k ⟨⟩ t := by
  refine yields_bind.trans ?_
  exact ⟨fun ⟨_, k, ha, hl⟩ ↦ ⟨k, ha, hl⟩, fun ⟨k, ha, hl⟩ ↦ ⟨⟨⟩, k, ha, hl⟩⟩

@[simp] theorem yields_mapM_nil {f : α → Assemble β} {w : List β} :
    Yields ([].mapM f) s w t ↔ [] = w ∧ s = t := by
  rw [List.mapM_nil, yields_pure]

theorem yields_mapM_cons {f : α → Assemble β} {a : α} {l : List α} {w : List β} :
    Yields ((a :: l).mapM f) s w t ↔
      ∃ b k bs, Yields (f a) s b k ∧ Yields (l.mapM f) k bs t ∧ w = b :: bs := by
  simp only [List.mapM_cons, yields_bind, yields_pure]
  constructor
  · rintro ⟨b, k, hb, bs, _, hbs, rfl, rfl⟩
    exact ⟨b, k, bs, hb, hbs, rfl⟩
  · rintro ⟨b, k, bs, hb, hbs, rfl⟩
    exact ⟨b, k, hb, bs, t, hbs, rfl, rfl⟩

theorem yields_forM_append {f : α → Assemble PUnit} {l l' : List α} {u : PUnit} :
    Yields ((l ++ l').forM f) s u t ↔ ∃ k, Yields (l.forM f) s ⟨⟩ k ∧ Yields (l'.forM f) k ⟨⟩ t := by
  induction l generalizing s with
  | nil =>
      constructor
      · exact fun h ↦ ⟨s, yields_forM_nil.mpr rfl, h⟩
      · rintro ⟨k, hk, h⟩
        exact yields_forM_nil.mp hk ▸ h
  | cons a l ih =>
      simp only [List.cons_append, yields_forM_cons, ih]
      constructor
      · exact fun ⟨j, ha, k, hl, hl'⟩ ↦ ⟨k, ⟨j, ha, hl⟩, hl'⟩
      · exact fun ⟨k, ⟨j, ha, hl⟩, hl'⟩ ↦ ⟨j, ha, k, hl, hl'⟩

theorem yields_forM_flatMap {f : β → Assemble PUnit} {g : α → List β} {l : List α} {u : PUnit}
    (h : Yields (l.forM fun a ↦ (g a).forM f) s u t) : Yields ((l.flatMap g).forM f) s u t := by
  induction l generalizing s with
  | nil => exact h
  | cons a l ih =>
      obtain ⟨k, ha, hl⟩ := yields_forM_cons.mp h
      rw [List.flatMap_cons]
      exact yields_forM_append.mpr ⟨k, ha, ih hl⟩

/-- What every step keeps, all of them keep. -/
theorem forM_induction {P : Assembly → Prop} {a : α → Assemble PUnit} {l : List α}
    (hstep : ∀ d ∈ l, ∀ k k', P k → (a d).Yields k ⟨⟩ k' → P k') (hs : P s) {u : PUnit}
    (h : (l.forM a).Yields s u t) : P t := by
  induction l generalizing s with
  | nil => exact yields_forM_nil.mp h ▸ hs
  | cons d l ih =>
      obtain ⟨k, hd, hl⟩ := yields_forM_cons.mp h
      exact ih (fun d' hd' ↦ hstep d' (List.mem_cons_of_mem _ hd')) (hstep d (List.mem_cons_self ..) s k hs hd) hl

theorem forall_of_yields_mapM {a : α → Assemble β} {P : β → Prop}
    (h : ∀ d s v t, (a d).Yields s v t → P v) {l : List α} {vs : List β}
    (hvs : (l.mapM a).Yields s vs t) : ∀ v ∈ vs, P v := by
  induction l generalizing s vs with
  | nil =>
      obtain ⟨rfl, -⟩ := yields_mapM_nil.mp hvs
      exact nofun
  | cons d l ih =>
      obtain ⟨v, k, ws, hv, hws, rfl⟩ := yields_mapM_cons.mp hvs
      exact List.forall_mem_cons.mpr ⟨h d s v k hv, ih hws⟩

/-- Whatever a step yields for an item has something in common with it. -/
theorem map_eq_of_yields_mapM {γ : Type} {a : α → Assemble β} {f : α → γ} {g : β → γ}
    (h : ∀ d s v t, (a d).Yields s v t → g v = f d) {l : List α} {vs : List β}
    (hvs : (l.mapM a).Yields s vs t) : vs.map g = l.map f := by
  induction l generalizing s vs with
  | nil =>
      obtain ⟨rfl, -⟩ := yields_mapM_nil.mp hvs
      rfl
  | cons d l ih =>
      obtain ⟨v, k, ws, hv, hws, rfl⟩ := yields_mapM_cons.mp hvs
      rw [List.map_cons, List.map_cons, h d s v k hv, ih hws]

end JavaSource.Assemble
