import JavaSource.Proofs.Model.WellFormed

/-!
# What an operation does

An operation of a caller only ever adds to a well-formed model, or changes the members of one class. So every
model that callers can build is well formed.
-/

namespace JavaSource

namespace Build

variable {α β : Type}

theorem exec_get (m : Model) : (get : Build Model).exec m = (.ok m, m) := rfl

theorem exec_liftExcept (x : Except ModelError α) (m : Model) :
    (liftExcept x : Build α).exec m = (x, m) := by
  cases x <;> rfl

theorem exec_bind (b : Build α) (f : α → Build β) (m : Model) :
    (b >>= f).exec m = match b.exec m with
      | (.ok a, n) => (f a).exec n
      | (.error e, n) => (.error e, n) := by
  unfold exec
  simp only [ExceptT.run_bind, StateT.run_bind]
  rcases StateT.run (ExceptT.run b) m with ⟨_ | a, n⟩ <;> rfl

theorem exec_map (b : Build α) (f : α → β) (m : Model) :
    (f <$> b).exec m = ((b.exec m).1.map f, (b.exec m).2) := by
  rw [map_eq_pure_bind, exec_bind]
  rcases b.exec m with ⟨_ | a, n⟩ <;> rfl

end Build

/-- Where an operation may enter classes. -/
def Operation.sites (o : Operation) : Model.Sites where
  inner c := o.subject? = some c
  top p := ∃ mods name kind, o = .define (.package p) mods name kind
  bodies := ∃ base, o = .anonymous base

namespace Model

/-- A result that left the model with additions only, and an answer that is good for the model it left. -/
structure Growing {α : Type} (s : Sites) (m : Model) (r : Except ModelError α × Model)
    (good : Model → α → Prop) : Prop where
  grown : Relation.ReflTransGen (Addition s) m r.2
  answer : ∀ a, r.1 = .ok a → good r.2 a

variable {α β : Type} {s : Sites} {m : Model}

theorem WellFormed.add (hm : m.WellFormed) {n : Model} (h : Addition s m n) : n.WellFormed := by
  cases h with
  | package hfree => exact hm.pushPackage hfree
  | «class» he hn _ => exact hm.enter he hn

theorem WellFormed.grow (hm : m.WellFormed) {n : Model} (h : Relation.ReflTransGen (Addition s) m n) :
    n.WellFormed := by
  induction h with
  | refl => exact hm
  | tail _ h ih => exact ih.add h

namespace Growing

theorem ok {good : Model → α → Prop} {a : α} (h : good m a) : Growing s m (.ok a, m) good :=
  ⟨.refl, fun _ ha ↦ Except.ok.inj ha ▸ h⟩

theorem error {good : Model → α → Prop} (e : ModelError) : Growing s m (.error e, m) good :=
  ⟨.refl, fun _ ha ↦ nomatch ha⟩

theorem add {good : Model → α → Prop} {n : Model} {a : α} (h : Addition s m n) (ha : good n a) :
    Growing s m (.ok a, n) good :=
  ⟨.single h, fun _ h ↦ Except.ok.inj h ▸ ha⟩

theorem bind (hm : m.WellFormed) {good : Model → α → Prop} {better : Model → β → Prop} {b : Build α}
    {f : α → Build β} (hb : Growing s m (b.exec m) good)
    (hf : ∀ n a, n.WellFormed → good n a → Growing s n ((f a).exec n) better) :
    Growing s m ((b >>= f).exec m) better := by
  obtain ⟨hgrown, hanswer⟩ := hb
  rw [Build.exec_bind]
  rcases h : b.exec m with ⟨e | a, n⟩
  · rw [h] at hgrown
    exact ⟨hgrown, fun _ ha ↦ nomatch ha⟩
  · rw [h] at hgrown hanswer
    have hnext := hf n a (hm.grow hgrown) (hanswer a rfl)
    exact ⟨hgrown.trans hnext.grown, hnext.answer⟩

end Growing

/-! ## One operation after another -/

theorem knowsPackage_of_findPackage? {name : String} {p : PackageId}
    (h : m.findPackage? name = some p) : m.KnowsPackage p := by
  obtain ⟨i, hi, rfl⟩ := Option.map_eq_some_iff.mp h
  exact (List.findIdx?_eq_some_iff_getElem.mp hi).1

theorem growing_package (name : String) : Growing s m ((package name).exec m) KnowsPackage := by
  unfold package
  rw [Build.exec_bind, Build.exec_get]
  simp only
  split
  · rename_i p hp
    exact .ok (knowsPackage_of_findPackage? hp)
  · rename_i hfree
    refine .add (.package hfree) ?_
    show m.packages.length < (m.pushPackage name).packages.length
    simp

theorem get?_of_definitionFault? {p : PackageId} {name : String}
    (h : m.definitionFault? (.package p) name = none) :
    (m.packageEntry p).classes.get? name = none := by
  simp only [definitionFault?] at h
  split at h
  · cases h
  · rename_i hfree
    simpa [Table.contains] using hfree

theorem of_definitionFault? {c : ClassId} {name : String}
    (h : m.definitionFault? (.class c) name = none) :
    (m.entry c).origin = .defined ∧ (m.entry c).nested.get? name = none ∧
      ∀ d ∈ c :: m.outers c, (m.entry d).name ≠ name := by
  simp only [definitionFault?] at h
  split at h
  · cases h
  · rename_i hdefined
    split at h
    · cases h
    · rename_i hfree
      split at h
      · cases h
      · rename_i hapart
        refine ⟨by simpa [ClassEntry.isDefined] using hdefined, by simpa [Table.contains] using hfree,
          fun d hd hname ↦ hapart ?_⟩
        exact List.any_eq_true.mpr ⟨d, hd, by simpa using hname⟩

theorem enterable_topLevel {p : PackageId} (hp : m.KnowsPackage p) {name : String} (kind : ClassKind)
    {origin : Origin} (mods : Modifiers) (horigin : origin = .defined ∨ origin = .external)
    (hname : nameFault? name = none) (hfree : (m.packageEntry p).classes.get? name = none) :
    m.Enterable { id := m.nextClass, name, kind, origin, package := p, outer := none, mods } where
  id_eq := rfl
  nested_eq := rfl
  package_known := hp
  package_placeholder h := by rcases horigin with rfl | rfl <;> cases h
  mentions_known _ hx := nomatch hx
  bare := ⟨rfl, rfl, rfl⟩
  name_valid _ := hname
  top_free _ _ := hfree
  inner_listed _ ho := nomatch ho
  inner_free _ ho := nomatch ho
  inner_package _ ho := nomatch ho
  inner_defined _ ho := nomatch ho
  inner_apart _ ho := nomatch ho

theorem enterable_nested (hm : m.WellFormed) {o : ClassId} (ho : m.Knows o) {name : String}
    (kind : ClassKind) {origin : Origin} (mods : Modifiers)
    (horigin : origin = .defined ∨ origin = .external) (hname : nameFault? name = none)
    (hfree : (m.entry o).nested.get? name = none)
    (hdefined : origin = .defined ↔ (m.entry o).origin = .defined)
    (hapart : origin = .defined → ∀ d ∈ o :: m.outers o, (m.entry d).name ≠ name) :
    m.Enterable
      { id := m.nextClass, name, kind, origin, package := (m.entry o).package, outer := some o,
        mods } where
  id_eq := rfl
  nested_eq := rfl
  package_known := hm.package_known o ho
  package_placeholder h := by rcases horigin with rfl | rfl <;> cases h
  mentions_known _ hx := nomatch hx
  bare := ⟨rfl, rfl, rfl⟩
  name_valid _ := hname
  top_free _ h := nomatch h
  inner_listed _ _ := horigin
  inner_free d hd := by
    cases hd
    exact ⟨ho, hfree⟩
  inner_package d hd := by
    cases hd
    rfl
  inner_defined d hd := by
    cases hd
    exact hdefined
  inner_apart d hd := by
    cases hd
    exact hapart

theorem growing_defineClass (hm : m.WellFormed) {owner : Owner} {mods : Modifiers} {name : String}
    {kind : ClassKind} (hclass : ∀ c, owner = .class c → m.Knows c ∧ s.inner c)
    (hpackage : ∀ p, owner = .package p → m.KnowsPackage p ∧ s.top p) :
    Growing s m ((defineClass owner mods name kind).exec m) Knows := by
  unfold defineClass
  rw [Build.exec_bind, Build.exec_liftExcept]
  cases hname : checkName .type name with
  | error e => exact .error e
  | ok u =>
      simp only [Build.exec_bind, Build.exec_get]
      have hname := checkName_eq_ok_iff.mp hname
      split
      · exact .error _
      · rename_i hfault
        cases owner with
        | package p =>
            obtain ⟨hp, htop⟩ := hpackage p rfl
            have hfree := get?_of_definitionFault? hfault
            have henter := enterable_topLevel hp kind mods (Or.inl rfl) hname hfree
            have hentered := entered_addTopLevel hp name kind (Or.inl rfl) mods
            exact .add (.class henter hentered ⟨nofun, fun _ _ ↦ htop, nofun⟩) hentered.knows_new
        | «class» o =>
            obtain ⟨ho, hinner⟩ := hclass o rfl
            obtain ⟨hdefined, hfree, hapart⟩ := of_definitionFault? hfault
            have henter := enterable_nested hm ho kind mods (Or.inl rfl) hname hfree (by simp [hdefined])
              fun _ ↦ hapart
            have hentered := entered_addNested ho name kind .defined mods
            refine .add (.class henter hentered ⟨fun d hd ↦ ?_, nofun, nofun⟩) hentered.knows_new
            cases hd
            exact Or.inl hinner

theorem knows_basis_of_ofType? {t : JavaType} {base : ClassType} (h : ClassType.ofType? t = some base)
    (ht : ∀ c ∈ t.classes, m.Knows c) : m.Knows base.basis := by
  cases t <;> simp_all [ClassType.ofType?, JavaType.classes] <;> simp [← h, ht]

/-- An entry that belongs into no table. -/
theorem enterable_unlisted {e : ClassEntry} (hid : e.id = m.nextClass) (hnested : e.nested = {}) (hbare : e.IsBare)
    (hlisted : ¬ e.IsListed) (houter : e.outer = none) (hpackage : m.KnowsPackage e.package)
    (hplaceholder : e.origin = .placeholder → e.package = rootPackage)
    (hmentions : ∀ x ∈ e.mentions, ∀ c ∈ x.classes, m.Knows c) : m.Enterable e := by
  have hnone : ∀ {P : Prop} (o : ClassId), e.outer = some o → P := fun o ho ↦ by
    rw [houter] at ho
    cases ho
  exact ⟨hid, hnested, hpackage, hplaceholder, hmentions, hbare, fun h ↦ absurd h hlisted,
    fun h ↦ absurd h hlisted, fun o ho ↦ hnone o ho, fun o ho ↦ hnone o ho, fun o ho ↦ hnone o ho,
    fun o ho ↦ hnone o ho, fun o ho ↦ hnone o ho⟩

theorem growing_anonymousClass (hm : m.WellFormed) (hs : s.bodies) {base : JavaType}
    (hbase : ∀ c ∈ base.classes, m.Knows c) : Growing s m ((anonymousClass base).exec m) Knows := by
  unfold anonymousClass
  rw [Build.exec_bind, Build.exec_get]
  simp only
  split
  · exact .error _
  · rename_i t ht
    have hbasis := knows_basis_of_ofType? ht hbase
    have hmentions : ∀ x ∈ [Mention.type t.toType], ∀ c ∈ x.classes, m.Knows c := by
      rw [ClassType.toType_of_ofType? ht]
      exact List.forall_mem_singleton.mpr hbase
    have hentered := entered_addAnonymous m t
    refine .add (.class ?_ hentered ⟨nofun, nofun, fun _ ↦ hs⟩) hentered.knows_new
    exact enterable_unlisted rfl rfl ⟨rfl, rfl, rfl⟩ (by simp [ClassEntry.IsListed]) rfl (hm.package_known _ hbasis)
      nofun hmentions

theorem WellFormed.knows_rootPackage (hm : m.WellFormed) : m.KnowsPackage rootPackage := by
  have := hm.startPackages.length_le
  simp only [List.length_cons, List.length_nil, List.length_map] at this
  exact Nat.lt_of_lt_of_le Nat.zero_lt_two this

theorem growing_placeholder (hm : m.WellFormed) (name : String) :
    Growing s m ((placeholder name).exec m) fun _ _ ↦ True := by
  unfold placeholder
  rw [Build.exec_bind, Build.exec_get]
  simp only
  split
  · exact .ok trivial
  · refine .add (.class ?_ (entered_addPlaceholder m name) ⟨nofun, nofun, nofun⟩) trivial
    exact enterable_unlisted rfl rfl ⟨rfl, rfl, rfl⟩ (by simp [ClassEntry.IsListed]) rfl hm.knows_rootPackage
      (fun _ ↦ rfl) nofun

theorem growing_referenceIn {p : PackageId} (hm : m.WellFormed) (hp : m.KnowsPackage p) (name : String) :
    Growing s m ((referenceIn p name).exec m) fun n c ↦ n.Knows c ∧ (n.entry c).IsListed := by
  unfold referenceIn
  rw [Build.exec_bind, Build.exec_get]
  simp only
  split
  · rename_i c hc
    obtain ⟨hknown, hlisted, -⟩ := hm.of_mem_classes p name c (Table.mem_entries_of_get? hc)
    exact .ok ⟨hknown, hlisted⟩
  · rename_i hfree
    rw [Build.exec_bind, Build.exec_liftExcept]
    cases hname : checkName .type name with
    | error e => exact .error e
    | ok u =>
        have henter := enterable_topLevel hp .plain .none (Or.inr rfl) (checkName_eq_ok_iff.mp hname) hfree
        have hentered := entered_addTopLevel hp name .plain (Or.inr rfl) .none
        refine .add (.class henter hentered ⟨nofun, nofun, nofun⟩) ⟨hentered.knows_new, ?_⟩
        rw [hentered.entry_new]
        exact Or.inr rfl

/-- A name enters classes in external ones only, unless it starts inside another. -/
theorem growing_referenceNested {o : ClassId} (hm : m.WellFormed) (ho : m.Knows o)
    (hs : s.inner o ∨ (m.entry o).IsListed) (name : String) :
    Growing s m ((referenceNested o name).exec m) fun n c ↦ n.Knows c ∧ (n.entry c).IsListed := by
  unfold referenceNested
  rw [Build.exec_bind, Build.exec_get]
  simp only
  split
  · rename_i c hc
    obtain ⟨hknown, hlisted, -⟩ := hm.of_mem_nested o name c (Table.mem_entries_of_get? hc)
    exact .ok ⟨hknown, hlisted⟩
  · rename_i hfree
    split
    · exact .error _
    · rename_i hdefined
      have horigin : (m.entry o).origin ≠ .defined := by
        simpa [ClassEntry.isDefined] using hdefined
      rw [Build.exec_bind, Build.exec_liftExcept]
      cases hname : checkName .type name with
      | error e => exact .error e
      | ok u =>
          have henter := enterable_nested hm ho .plain .none (Or.inr rfl)
            (checkName_eq_ok_iff.mp hname) hfree (by simp [horigin]) (fun h ↦ nomatch h)
          have hentered := entered_addNested ho name .plain .external .none
          refine .add (.class henter hentered ⟨fun d hd ↦ ?_, nofun, nofun⟩) ⟨hentered.knows_new, ?_⟩
          · cases hd
            exact hs.imp_right fun hl ↦ hl.resolve_left horigin
          · rw [hentered.entry_new]
            exact Or.inr rfl

theorem growing_referencePath {c : ClassId} (hm : m.WellFormed) (hc : m.Knows c ∧ (m.entry c).IsListed)
    (path : List String) :
    Growing s m ((referencePath c path).exec m) fun n d ↦ n.Knows d ∧ (n.entry d).IsListed := by
  induction path generalizing m c with
  | nil => exact .ok hc
  | cons name rest ih =>
      unfold referencePath
      exact .bind hm (growing_referenceNested hm hc.1 (Or.inr hc.2) name) fun _ _ hn hd ↦ ih hn hd

theorem growing_reference (hm : m.WellFormed) (qualified : String) :
    Growing s m ((reference qualified).exec m) fun n d ↦ n.Knows d ∧ (n.entry d).IsListed := by
  unfold reference
  rw [Build.exec_bind, Build.exec_get]
  simp only
  split
  · exact .error _
  · refine .bind hm (growing_package _) fun n p hn hp ↦ ?_
    exact .bind hn (growing_referenceIn hn hp _) fun _ _ hk hc ↦ growing_referencePath hk hc _

theorem exec_updateClass (c : ClassId) (f : ClassEntry → Except ModelError ClassEntry) (m : Model) :
    (updateClass c f).exec m =
      match f (m.entry c) with
      | .ok e => (.ok (), m.modifyClass c fun _ ↦ e)
      | .error fault => (.error fault, m) := by
  unfold updateClass
  rw [Build.exec_bind, Build.exec_get]
  simp only [Build.exec_bind, Build.exec_liftExcept]
  cases f (m.entry c) <;> rfl

theorem exec_member (c : ClassId) (s : MemberStep) (m : Model) :
    (Operation.member c s).step m =
      match s.apply (m.entry c) with
      | .ok e => m.modifyClass c fun _ ↦ e
      | .error _ => m := by
  rw [Operation.step, Operation.perform, Build.exec_bind, exec_updateClass]
  cases s.apply (m.entry c) <;> rfl

theorem Growing.grown_map {good : Model → α → Prop} {b : Build α} (h : Growing s m (b.exec m) good)
    (f : α → β) : Relation.ReflTransGen (Addition s) m ((f <$> b).exec m).2 := by
  rw [Build.exec_map]
  exact h.grown

/-- An operation changes the members of one class, or it does nothing but add at its sites. -/
theorem step_cases (hm : m.WellFormed) {o : Operation} (ho : m.Admits o) :
    (∃ c s e, o = .member c s ∧ s.apply (m.entry c) = .ok e ∧ o.step m = m.modifyClass c fun _ ↦ e) ∨
      Relation.ReflTransGen (Addition o.sites) m (o.step m) := by
  obtain ⟨hmentions, hpackages⟩ := ho
  cases o with
  | package name => exact Or.inr ((growing_package name).grown_map _)
  | define owner mods name kind =>
      refine Or.inr ((growing_defineClass hm ?_ ?_).grown_map _)
      · rintro c rfl
        exact ⟨hmentions (.class c) (List.mem_singleton_self _) c (List.mem_singleton_self _), rfl⟩
      · rintro p rfl
        exact ⟨hpackages p (List.mem_singleton_self _), mods, name, kind, rfl⟩
  | anonymous base =>
      have hbase := hmentions (.type base) (List.mem_singleton_self _)
      exact Or.inr ((growing_anonymousClass (s := Operation.sites (.anonymous base)) hm ⟨base, rfl⟩ hbase).grown_map _)
  | reference qualified => exact Or.inr ((growing_reference hm qualified).grown_map _)
  | referenceIn p name =>
      have hp := hpackages p (List.mem_singleton_self _)
      exact Or.inr ((growing_referenceIn hm hp name).grown_map _)
  | referenceNested outer name =>
      have houter := hmentions (.class outer) (List.mem_singleton_self _) outer (List.mem_singleton_self _)
      exact Or.inr ((growing_referenceNested hm houter (Or.inl rfl) name).grown_map _)
  | placeholder name => exact Or.inr ((growing_placeholder hm name).grown_map _)
  | member c s =>
      rw [exec_member]
      cases he : s.apply (m.entry c) with
      | error e => exact Or.inr .refl
      | ok e => exact Or.inl ⟨c, s, e, rfl, he, rfl⟩

theorem WellFormed.step (hm : m.WellFormed) {o : Operation} (ho : m.Admits o) :
    (o.step m).WellFormed := by
  rcases step_cases hm ho with ⟨c, s, e, rfl, he, hstep⟩ | hgrown
  · rw [hstep]
    refine hm.rework (MemberStep.reworked he) fun x hx d hd ↦ ?_
    exact ho.1 x (List.mem_cons_of_mem _ hx) d hd
  · exact hm.grow hgrown

theorem Reachable.wellFormed (h : m.Reachable) : m.WellFormed := by
  induction h with
  | initial => exact wellFormed_initial
  | step _ ho ih => exact ih.step ho

end Model
end JavaSource
