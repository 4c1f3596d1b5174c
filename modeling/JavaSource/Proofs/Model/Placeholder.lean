import JavaSource.Proofs.Model.Lookup

/-!
# Classes that the model does not define

They are plain classes, whatever they stand for. Placeholders are in one table, each under the name it was
given, and nothing else is in it. The order of the table is that of their numbers.
-/

namespace JavaSource.Model

structure Orderly (m : Model) : Prop where
  kind_eq : ∀ c, (m.entry c).origin ≠ .defined → (m.entry c).kind = .plain
  get?_placeholders : ∀ name c, m.placeholders.get? name = some c ↔
    (m.entry c).origin = .placeholder ∧ (m.entry c).name = name

/-- The entry of a class in a model with one more class, as far as it was settled when the class was made. -/
structure Joined (m : Model) (e : ClassEntry) (n : Model) : Prop where
  old : ∀ c, c ≠ m.nextClass → (m.entry c).SameOrigin (n.entry c)
  new : e.SameOrigin (n.entry m.nextClass)

variable {m n : Model}

theorem orderly_initial : initial.Orderly where
  kind_eq c _ := by
    rcases entry_initial c with h | h <;> rw [h] <;> rfl
  get?_placeholders name c := by
    constructor
    · exact nofun
    · rintro ⟨h, -⟩
      rcases entry_initial c with hc | hc <;> rw [hc] at h <;> cases h

/-! ## Changes -/

theorem entry_nextClass (m : Model) : m.entry m.nextClass = default :=
  entry_of_not_knows (Nat.lt_irrefl _)

theorem joined_of_entry {e : ClassEntry} (h : ∀ c, n.entry c = if c = m.nextClass then e else m.entry c) :
    m.Joined e n where
  old c hc := by
    rw [h, if_neg hc]
    exact .refl _
  new := by
    rw [h, if_pos rfl]
    exact .refl _

theorem joined_addNested (m : Model) (o : ClassId) (name : String) (kind : ClassKind) (origin : Origin)
    (mods : Modifiers) :
    m.Joined { id := m.nextClass, name, kind, origin, package := (m.entry o).package, outer := some o, mods }
      (m.addNested o name kind origin mods) := by
  constructor
  · intro c hc
    rw [addNested, entry_modifyClass, entry_pushClass, if_neg hc]
    split <;> exact ⟨rfl, rfl, rfl, rfl, rfl, rfl⟩
  · rw [addNested, entry_modifyClass, entry_pushClass, if_pos rfl]
    split <;> exact ⟨rfl, rfl, rfl, rfl, rfl, rfl⟩

theorem placeholder_of_get?_placeholders {name : String} {c : ClassId}
    (h : m.placeholders.get? name = some c) : (placeholder name).exec m = (.ok c, m) := by
  rw [placeholder, Build.exec_bind, Build.exec_get]
  simp only [h]
  rfl

theorem placeholder_of_get?_eq_none {name : String} (h : m.placeholders.get? name = none) :
    (placeholder name).exec m = (.ok m.nextClass, m.addPlaceholder name) := by
  rw [placeholder, Build.exec_bind, Build.exec_get]
  simp only [h]
  rfl

namespace Orderly

theorem of_sameOrigin (hm : m.Orderly) (hp : n.placeholders = m.placeholders)
    (he : ∀ c, (m.entry c).SameOrigin (n.entry c)) : n.Orderly where
  kind_eq c hc := by
    rw [(he c).origin] at hc
    rw [(he c).kind, hm.kind_eq c hc]
  get?_placeholders name c := by
    rw [hp, (he c).origin, (he c).name]
    exact hm.get?_placeholders name c

theorem join (hm : m.Orderly) {e : ClassEntry} (hn : m.Joined e n) (hp : n.placeholders = m.placeholders)
    (hkind : e.origin ≠ .defined → e.kind = .plain) (horigin : e.origin ≠ .placeholder) : n.Orderly where
  kind_eq c hc := by
    by_cases hnew : c = m.nextClass
    · subst hnew
      rw [hn.new.origin] at hc
      rw [hn.new.kind, hkind hc]
    · rw [(hn.old c hnew).origin] at hc
      rw [(hn.old c hnew).kind, hm.kind_eq c hc]
  get?_placeholders name c := by
    rw [hp, hm.get?_placeholders]
    by_cases hnew : c = m.nextClass
    · subst hnew
      rw [hn.new.origin, entry_nextClass]
      simp [default, horigin]
    · rw [(hn.old c hnew).origin, (hn.old c hnew).name]

theorem addPlaceholder (hm : m.Orderly) {name : String} (hfree : m.placeholders.get? name = none) :
    (m.addPlaceholder name).Orderly where
  kind_eq c hc := by
    rw [entry_addPlaceholder] at hc ⊢
    split at hc
    · rename_i h
      rw [if_pos h]
    · rename_i h
      rw [if_neg h]
      exact hm.kind_eq c hc
  get?_placeholders other c := by
    have htable : (m.addPlaceholder name).placeholders.get? other =
        if name = other then some m.nextClass else m.placeholders.get? other :=
      Table.get?_insert ..
    rw [htable, entry_addPlaceholder]
    by_cases hnew : c = m.nextClass
    · subst hnew
      have hold : m.placeholders.get? other ≠ some m.nextClass := fun h ↦ by
        have horigin := ((hm.get?_placeholders _ _).mp h).1
        rw [entry_nextClass] at horigin
        cases horigin
      by_cases hname : name = other <;> simp [hname, hold]
    · by_cases hname : name = other
      · subst hname
        have hnone := hm.get?_placeholders name c
        rw [hfree] at hnone
        simp only [if_true, Option.some.injEq, Ne.symm hnew, hnew, if_false, false_iff]
        exact fun h ↦ nomatch hnone.mpr h
      · simp only [hname, if_false, hnew]
        exact hm.get?_placeholders other c

/-! ## Operations -/

theorem package (hm : m.Orderly) (name : String) : ((package name).exec m).2.Orderly := by
  unfold Model.package
  rw [Build.exec_bind, Build.exec_get]
  simp only
  split
  · exact hm
  · exact hm.of_sameOrigin rfl fun _ ↦ .refl _

theorem defineClass (hm : m.Orderly) (owner : Owner) (mods : Modifiers) (name : String) (kind : ClassKind) :
    ((defineClass owner mods name kind).exec m).2.Orderly := by
  unfold Model.defineClass
  rw [Build.exec_bind, Build.exec_liftExcept]
  cases checkName .type name with
  | error e => exact hm
  | ok u =>
      simp only [Build.exec_bind, Build.exec_get]
      split
      · exact hm
      · cases owner with
        | package p =>
            have hjoined := joined_of_entry (entry_addTopLevel m p name kind .defined mods)
            exact hm.join hjoined rfl (fun h ↦ absurd rfl h) (by simp)
        | «class» o =>
            exact hm.join (joined_addNested m o name kind .defined mods) rfl (fun h ↦ absurd rfl h) (by simp)

theorem anonymousClass (hm : m.Orderly) (base : JavaType) : ((anonymousClass base).exec m).2.Orderly := by
  unfold Model.anonymousClass
  rw [Build.exec_bind, Build.exec_get]
  simp only
  split
  · exact hm
  · rename_i t _
    exact hm.join (joined_of_entry (entry_addAnonymous m t)) rfl (fun _ ↦ rfl) (by simp)

theorem placeholder (hm : m.Orderly) (name : String) : ((placeholder name).exec m).2.Orderly := by
  cases h : m.placeholders.get? name with
  | some c => rwa [placeholder_of_get?_placeholders h]
  | none => simpa [placeholder_of_get?_eq_none h] using hm.addPlaceholder h

theorem referenceIn (hm : m.Orderly) (p : PackageId) (name : String) :
    ((referenceIn p name).exec m).2.Orderly := by
  unfold Model.referenceIn
  rw [Build.exec_bind, Build.exec_get]
  simp only
  split
  · exact hm
  · rw [Build.exec_bind, Build.exec_liftExcept]
    cases checkName .type name with
    | error e => exact hm
    | ok u =>
        have hjoined := joined_of_entry (entry_addTopLevel m p name .plain .external .none)
        exact hm.join hjoined rfl (fun _ ↦ rfl) (by simp)

theorem referenceNested (hm : m.Orderly) (o : ClassId) (name : String) :
    ((referenceNested o name).exec m).2.Orderly := by
  unfold Model.referenceNested
  rw [Build.exec_bind, Build.exec_get]
  simp only
  split
  · exact hm
  · split
    · exact hm
    · rw [Build.exec_bind, Build.exec_liftExcept]
      cases checkName .type name with
      | error e => exact hm
      | ok u =>
          exact hm.join (joined_addNested m o name .plain .external .none) rfl (fun _ ↦ rfl) (by simp)

theorem bind {α β : Type} {b : Build α} {f : α → Build β} (hb : (b.exec m).2.Orderly)
    (hf : ∀ a n, n.Orderly → ((f a).exec n).2.Orderly) : ((b >>= f).exec m).2.Orderly := by
  rw [Build.exec_bind]
  rcases h : b.exec m with ⟨_ | a, n⟩ <;> rw [h] at hb
  · exact hb
  · exact hf a n hb

theorem referencePath (hm : m.Orderly) (c : ClassId) (path : List String) :
    ((referencePath c path).exec m).2.Orderly := by
  induction path generalizing m c with
  | nil => exact hm
  | cons name rest ih => exact .bind (hm.referenceNested c name) fun d n hn ↦ ih hn d

theorem reference (hm : m.Orderly) (qualified : String) : ((reference qualified).exec m).2.Orderly := by
  unfold Model.reference
  rw [Build.exec_bind, Build.exec_get]
  simp only
  split
  · exact hm
  · refine .bind (hm.package _) fun p n hn ↦ ?_
    exact .bind (hn.referenceIn p _) fun c k hk ↦ hk.referencePath c _

theorem step (hm : m.Orderly) (o : Operation) : (o.step m).Orderly := by
  cases o with
  | member c s =>
      rw [exec_member]
      split
      · rename_i e he
        exact hm.of_sameOrigin rfl fun d ↦ entry_modifyClass_of_reworked (MemberStep.reworked he) d
      · exact hm
  | package name =>
      rw [Operation.step, Operation.perform, Build.exec_map]
      exact hm.package name
  | define owner mods name kind =>
      rw [Operation.step, Operation.perform, Build.exec_map]
      exact hm.defineClass owner mods name kind
  | anonymous base =>
      rw [Operation.step, Operation.perform, Build.exec_map]
      exact hm.anonymousClass base
  | reference qualified =>
      rw [Operation.step, Operation.perform, Build.exec_map]
      exact hm.reference qualified
  | referenceIn p name =>
      rw [Operation.step, Operation.perform, Build.exec_map]
      exact hm.referenceIn p name
  | referenceNested outer name =>
      rw [Operation.step, Operation.perform, Build.exec_map]
      exact hm.referenceNested outer name
  | placeholder name =>
      rw [Operation.step, Operation.perform, Build.exec_map]
      exact hm.placeholder name

end Orderly

theorem Reachable.orderly (hm : m.Reachable) : m.Orderly := by
  induction hm with
  | initial => exact orderly_initial
  | step _ _ ih => exact ih.step _

theorem Extends.get?_placeholders (h : m.Extends n) (hm : m.Orderly) (hn : n.Orderly) {name : String}
    {c : ClassId} (hc : m.placeholders.get? name = some c) : n.placeholders.get? name = some c := by
  obtain ⟨horigin, hname⟩ := (hm.get?_placeholders name c).mp hc
  have hknown : m.Knows c := by
    by_contra hc
    rw [entry_of_not_knows hc] at horigin
    cases horigin
  have hsame := h.sameOrigin c hknown
  exact (hn.get?_placeholders name c).mpr ⟨hsame.origin.trans horigin, hsame.name.trans hname⟩

theorem get?_placeholders_of_placeholder {name : String} {c : ClassId}
    (h : (placeholder name).exec m = (.ok c, n)) : n.placeholders.get? name = some c := by
  cases hget : m.placeholders.get? name with
  | some d =>
      rw [placeholder_of_get?_placeholders hget] at h
      cases h
      exact hget
  | none =>
      rw [placeholder_of_get?_eq_none hget] at h
      cases h
      exact (Table.get?_insert ..).trans (if_pos rfl)

end JavaSource.Model

namespace JavaSource

/-! ## Steps that make no placeholder -/

def Build.KeepsPlaceholders {α : Type} (b : Build α) : Prop := ∀ m, (b.exec m).2.placeholders = m.placeholders

theorem Build.KeepsPlaceholders.bind {α β : Type} {b : Build α} {f : α → Build β} (h : b.KeepsPlaceholders)
    (hf : ∀ v, (f v).KeepsPlaceholders) : (b >>= f).KeepsPlaceholders := by
  intro m
  have hm := h m
  rw [exec_bind]
  rcases hb : b.exec m with ⟨_ | v, n⟩ <;> rw [hb] at hm
  · exact hm
  · exact (hf v n).trans hm

theorem Build.KeepsPlaceholders.map {α β : Type} {b : Build α} (h : b.KeepsPlaceholders) (f : α → β) :
    (f <$> b).KeepsPlaceholders := by
  intro m
  rw [exec_map]
  exact h m

namespace Model

theorem keepsPlaceholders_liftExcept {α : Type} (x : Except ModelError α) :
    (liftExcept x : Build α).KeepsPlaceholders := by
  cases x <;> exact fun _ ↦ rfl

theorem keepsPlaceholders_package (name : String) : (package name).KeepsPlaceholders := by
  intro m
  unfold package
  rw [Build.exec_bind, Build.exec_get]
  simp only
  split <;> rfl

theorem keepsPlaceholders_defineClass (owner : Owner) (mods : Modifiers) (name : String) (kind : ClassKind) :
    (defineClass owner mods name kind).KeepsPlaceholders := by
  refine (keepsPlaceholders_liftExcept _).bind fun _ m ↦ ?_
  rw [Build.exec_bind, Build.exec_get]
  simp only
  split
  · rfl
  · cases owner <;> rfl

theorem keepsPlaceholders_referenceIn (p : PackageId) (name : String) : (referenceIn p name).KeepsPlaceholders := by
  intro m
  unfold referenceIn
  rw [Build.exec_bind, Build.exec_get]
  simp only
  split
  · rfl
  · rw [Build.exec_bind, Build.exec_liftExcept]
    cases checkName .type name <;> rfl

theorem keepsPlaceholders_referenceNested (outer : ClassId) (name : String) :
    (referenceNested outer name).KeepsPlaceholders := by
  intro m
  unfold referenceNested
  rw [Build.exec_bind, Build.exec_get]
  simp only
  split
  · rfl
  · split
    · rfl
    · rw [Build.exec_bind, Build.exec_liftExcept]
      cases checkName .type name <;> rfl

theorem keepsPlaceholders_referencePath (c : ClassId) (path : List String) :
    (referencePath c path).KeepsPlaceholders := by
  induction path generalizing c with
  | nil => exact fun _ ↦ rfl
  | cons name rest ih => exact (keepsPlaceholders_referenceNested c name).bind ih

theorem keepsPlaceholders_reference (qualified : String) : (reference qualified).KeepsPlaceholders := by
  intro m
  unfold reference
  rw [Build.exec_bind, Build.exec_get]
  simp only
  split
  · rfl
  · exact (keepsPlaceholders_package _).bind (fun _ ↦ (keepsPlaceholders_referenceIn _ _).bind fun _ ↦
      keepsPlaceholders_referencePath _ _) m

theorem keepsPlaceholders_anonymousClass (base : JavaType) : (anonymousClass base).KeepsPlaceholders := by
  intro m
  unfold anonymousClass
  rw [Build.exec_bind, Build.exec_get]
  simp only
  split <;> rfl

variable {m n : Model}

theorem placeholders_step {o : Operation} (ho : ∀ name, o ≠ .placeholder name) :
    (o.step m).placeholders = m.placeholders := by
  cases o with
  | member c s =>
      rw [exec_member]
      split <;> rfl
  | package name => exact (keepsPlaceholders_package name).map _ m
  | define owner mods name kind => exact (keepsPlaceholders_defineClass owner mods name kind).map _ m
  | anonymous base => exact (keepsPlaceholders_anonymousClass base).map _ m
  | reference qualified => exact (keepsPlaceholders_reference qualified).map _ m
  | referenceIn p name => exact (keepsPlaceholders_referenceIn p name).map _ m
  | referenceNested outer name => exact (keepsPlaceholders_referenceNested outer name).map _ m
  | placeholder name => exact absurd rfl (ho name)

/-! ## Numbers -/

theorem keys_placeholders_of_placeholder (name : String) :
    ((placeholder name).exec m).2.placeholders.keys = addOnce m.placeholders.keys name := by
  cases h : m.placeholders.get? name with
  | some c =>
      have hmem : name ∈ m.placeholders.keys := List.mem_map_of_mem (Table.mem_entries_of_get? h)
      rw [placeholder_of_get?_placeholders h, addOnce, if_pos hmem]
  | none =>
      have hnew := Table.get?_eq_none_iff.mp h
      rw [placeholder_of_get?_eq_none h, addOnce, if_neg hnew]
      exact Table.keys_insert_of_notMem hnew

/-- Placeholders have rising numbers in the order in which they were made. -/
structure Numbered (m : Model) : Prop where
  rising : m.placeholders.values.Pairwise fun c d ↦ c.index < d.index
  knows : ∀ c ∈ m.placeholders.values, m.Knows c

theorem Numbered.grow (h : m.Numbered) (hp : n.placeholders = m.placeholders) (hn : m.Extends n) : n.Numbered where
  rising := hp ▸ h.rising
  knows c hc := hn.knows (h.knows c (hp ▸ hc))

theorem Numbered.addPlaceholder (h : m.Numbered) {name : String} (hfree : m.placeholders.get? name = none) :
    (m.addPlaceholder name).Numbered := by
  have hvalues : (m.addPlaceholder name).placeholders.values = m.placeholders.values ++ [m.nextClass] := by
    have hentries := Table.entries_insert_of_notMem (a := m.nextClass) (Table.get?_eq_none_iff.mp hfree)
    exact (congrArg (List.map Prod.snd) hentries).trans (List.map_append ..)
  constructor
  · rw [hvalues, List.pairwise_append]
    refine ⟨h.rising, List.pairwise_singleton _ _, fun c hc d hd ↦ ?_⟩
    rw [List.mem_singleton.mp hd]
    exact h.knows c hc
  · intro c hc
    have hlength := length_classes_addPlaceholder m name
    rw [hvalues, List.mem_append, List.mem_singleton] at hc
    unfold Knows
    rcases hc with hc | rfl
    · exact hlength ▸ Nat.lt_succ_of_lt (h.knows c hc)
    · exact hlength ▸ Nat.lt_succ_self _

theorem Reachable.numbered (hm : m.Reachable) : m.Numbered := by
  induction hm with
  | initial => exact ⟨.nil, nofun⟩
  | @step m hm o ho ih =>
      by_cases hplaceholder : ∃ name, o = .placeholder name
      · obtain ⟨name, rfl⟩ := hplaceholder
        rw [Operation.step, Operation.perform, Build.exec_map]
        cases h : m.placeholders.get? name with
        | some c => rwa [placeholder_of_get?_placeholders h]
        | none => simpa [placeholder_of_get?_eq_none h] using ih.addPlaceholder h
      · have hkeep := placeholders_step (m := m) fun name h ↦ hplaceholder ⟨name, h⟩
        exact ih.grow hkeep (extends_step hm.wellFormed ho)

/-- The class is the first placeholder that was made. -/
structure FirstPlaceholder (m : Model) (c : ClassId) : Prop where
  isPlaceholder : (m.entry c).isPlaceholder = true
  index_le : ∀ d, (m.entry d).isPlaceholder = true → c.index ≤ d.index

theorem Reachable.get?_placeholders_name (hm : m.Reachable) {c : ClassId} (hc : (m.entry c).isPlaceholder = true) :
    m.placeholders.get? (m.entry c).name = some c :=
  (hm.orderly.get?_placeholders _ c).mpr ⟨of_decide_eq_true hc, rfl⟩

/-- The first name among the placeholders is that of the first placeholder. -/
theorem Reachable.exists_firstPlaceholder (hm : m.Reachable) {name : String}
    (h : m.placeholders.keys.head? = some name) : ∃ c, m.FirstPlaceholder c ∧ (m.entry c).name = name := by
  rcases hentries : m.placeholders.entries with _ | ⟨⟨other, c⟩, rest⟩
  · rw [Table.keys, hentries] at h
    cases h
  · rw [Table.keys, hentries] at h
    obtain rfl : other = name := Option.some.inj h
    have hget : m.placeholders.get? other = some c := by
      rw [Table.get?, hentries, Table.find, if_pos rfl]
    obtain ⟨horigin, hname⟩ := (hm.orderly.get?_placeholders _ c).mp hget
    refine ⟨c, ⟨decide_eq_true horigin, fun d hd ↦ ?_⟩, hname⟩
    have hrising := hm.numbered.rising
    have hmem := Table.mem_entries_of_get? (hm.get?_placeholders_name hd)
    rw [Table.values, hentries, List.map_cons, List.pairwise_cons] at hrising
    rw [hentries] at hmem
    rcases List.mem_cons.mp hmem with hmem | hmem
    · have hd : d = c := congrArg Prod.snd hmem
      exact hd ▸ Nat.le_refl _
    · exact Nat.le_of_lt (hrising.1 d (List.mem_map_of_mem hmem))

end Model
end JavaSource
