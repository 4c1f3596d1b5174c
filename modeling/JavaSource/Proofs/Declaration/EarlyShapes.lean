import JavaSource.Proofs.Declaration.Landing
import JavaSource.Proofs.Declaration.SameShapes

/-!
# Shapes that came early

The shape of an annotation may be derived and kept while defaults are still being set. No default is set twice, so
the shape that was kept has the members of the shape in the end, of the same kinds, and each of its defaults is
the default in the end. It may only lack defaults.
-/

namespace JavaSource

/-! ## Each default is set once -/

theorem Placed.nodup_method_defaults (p : Placed) : (p.defaults.map (·.method)).Nodup := by
  have hindices : p.type.methods.zipIdx.Pairwise (·.2 ≠ ·.2) :=
    List.pairwise_map.mp (List.nodup_zipIdx_snd p.type.methods)
  refine List.pairwise_map.mpr (List.Pairwise.filterMap _ (fun a b hab d hd e he ↦ ?_) hindices)
  obtain ⟨_, -, rfl⟩ := Option.map_eq_some_iff.mp hd
  obtain ⟨_, -, rfl⟩ := Option.map_eq_some_iff.mp he
  exact hab

/-- No two defaults are for one method. -/
theorem Placed.nodup_defaults {ps : List Placed} (h : (ps.map (·.id)).Nodup) :
    ((ps.flatMap Placed.defaults).map fun d ↦ (d.id, d.method)).Nodup := by
  rw [List.map_flatMap]
  refine List.nodup_flatMap.mpr ⟨fun p _ ↦ ?_, ?_⟩
  · have hmethods : ((p.defaults.map fun d ↦ (d.id, d.method)).map Prod.snd).Nodup := by
      rw [List.map_map]
      exact p.nodup_method_defaults
    exact hmethods.of_map
  · refine (List.pairwise_map.mp h).imp fun {p q} hpq ↦ ?_
    rintro ⟨c, i⟩ hp hq
    obtain ⟨d, hd, hdkey⟩ := List.mem_map.mp hp
    obtain ⟨e, he, hekey⟩ := List.mem_map.mp hq
    have hsame : d.id = e.id := (congrArg Prod.fst hdkey).trans (congrArg Prod.fst hekey).symm
    rw [(Placed.of_mem_defaults hd).1, (Placed.of_mem_defaults he).1] at hsame
    exact hpq hsame

/-! ## Shapes of an earlier state -/

namespace Assembly

variable {x : Context} {names : List String} {s t k : Assembly}

/-- The second state came of the first, and the defined classes kept their signatures and the defaults they had. -/
structure Completes (s t : Assembly) : Prop extends Signed s t where
  defaults : ∀ d, s.model.Knows d → (s.model.entry d).origin = .defined →
    List.Forall₂ (fun v v' ↦ v = none ∨ v' = v) (s.model.entry d).defaults (t.model.entry d).defaults

theorem Completes.trans (h : s.Completes k) (hk : k.Completes t) : s.Completes t where
  toSigned := h.toSigned.trans hk.toSigned
  defaults d hd hdefined := by
    have hfirst := h.defaults d hd hdefined
    have horigin := (h.grown.sameOrigin d hd).origin.trans hdefined
    have hsecond := hk.defaults d (h.grown.knows hd) horigin
    refine List.forall₂_of_getElem? (hfirst.length_eq.trans hsecond.length_eq) fun i v w hv hw ↦ ?_
    obtain ⟨v', hv', hvv'⟩ := List.exists_getElem?_of_forall₂ hfirst hv
    obtain ⟨w', hw', hvw⟩ := List.exists_getElem?_of_forall₂ hsecond hv'
    obtain rfl := Option.some.inj (hw.symm.trans hw')
    rcases hvv' with rfl | rfl
    · exact Or.inl rfl
    · exact hvw

theorem Looked.completes (h : s.Looked t) : s.Completes t where
  toSigned := h.signed
  defaults d hd hdefined := by
    rw [h.entry_eq d hd hdefined]
    exact List.forall₂_same.mpr fun _ _ ↦ Or.inr rfl

/-- A change to the entry of a class that keeps its signatures and the defaults it has. -/
theorem Completes.modify {c : ClassId} {e : ClassEntry} (hsame : (s.model.entry c).SameOrigin e)
    (hsignatures : e.signatures = (s.model.entry c).signatures)
    (hdefaults : List.Forall₂ (fun v v' ↦ v = none ∨ v' = v) (s.model.entry c).defaults e.defaults) :
    s.Completes { s with model := s.model.modifyClass c fun _ ↦ e } where
  toSigned := .modify hsame hsignatures
  defaults d _ _ := by
    rw [Model.entry_modifyClass]
    split
    · rename_i hd
      rw [hd.1]
      exact hdefaults
    · exact List.forall₂_same.mpr fun _ _ ↦ Or.inr rfl

/-- Every shape that is kept was derived at an earlier state. -/
def Early (t : Assembly) : Prop :=
  ∀ c shape, t.shapes.lookup c = some shape →
    ∃ k : Assembly, k.Sound ∧ k.Completes t ∧ k.model.Knows c ∧ shape = k.model.declaredShape? c

theorem early_of_shapes_eq_nil (h : t.shapes = []) : t.Early := by
  intro c shape hc
  rw [h] at hc
  cases hc

/-- Looking things up, then a change that keeps signatures and takes no default away. -/
theorem Early.step (h : s.Early) (hlook : s.Looked k) (hderives : Derives x names s k) (hkt : k.Completes t)
    (hshapes : t.shapes = k.shapes) : t.Early := by
  intro c shape hc
  rw [hshapes] at hc
  rcases hderives c shape hc with hold | ⟨j, -, hjk, hj, hknown, hshape, -⟩
  · obtain ⟨j, hj, hjs, hknown, hshape⟩ := h c shape hold
    exact ⟨j, hj, (hjs.trans hlook.completes).trans hkt, hknown, hshape⟩
  · exact ⟨j, hj, hjk.completes.trans hkt, hknown, hshape⟩

end Assembly

theorem ClassEntry.getElem?_defaults (e : ClassEntry) (i : Nat) : e.defaults[i]? = e.defaultAt? i :=
  List.getElem?_map ..

/-- A method that has no default can be given one. -/
theorem ClassEntry.defaults_withDefault {e : ClassEntry} {i : Nat} (h : e.defaultAt? i = some none)
    (v : AnnotationValue) :
    List.Forall₂ (fun w w' ↦ w = none ∨ w' = w) e.defaults (e.withDefault i v).defaults := by
  refine List.forall₂_of_getElem? ?_ fun j w w' hw hw' ↦ ?_
  · simp [defaults, withDefault, modifyMethod]
  · rw [getElem?_defaults] at hw hw'
    rw [defaultAt?_withDefault, hw, Option.map_some] at hw'
    by_cases hij : i = j
    · rw [← hij, h] at hw
      exact Or.inl (Option.some.inj hw).symm
    · rw [if_neg hij] at hw'
      exact Or.inr (Option.some.inj hw').symm

namespace Context

open Assembly

variable {x : Context} {s t : Assembly}

theorem early_annotate {a : DeferredAnnotation} (hs : s.Ready x a.id) (h : s.Early) {u : Unit}
    (hannotate : (x.annotate a).Yields s u t) : t.Early := by
  obtain ⟨w, k, hw, hmodify⟩ := Assemble.yields_bind.mp hannotate
  have hsaw := looks_useOf hs.sound hs.known a.written w k hw
  rw [Assemble.yields_modify] at hmodify
  subst hmodify
  refine h.step hsaw.looked (derives_useOf hs.sound hs.known hw) (.modify ?_ ?_ ?_) rfl
  · exact (MemberStep.reworked (s := .annotate a.target w) rfl).sameOrigin
  · exact ClassEntry.signatures_annotate _ _ _
  · rw [ClassEntry.defaults_annotate]
    exact List.forall₂_same.mpr fun _ _ ↦ Or.inr rfl

theorem early_setDefault {d : DeferredDefault} (hs : s.Ready x d.id) (h : s.Early)
    (hnone : (s.model.entry d.id).defaultAt? d.method = some none) {u : Unit} (hset : (x.setDefault d).Yields s u t) :
    t.Early := by
  rcases exists_of_setDefault hset with rfl | ⟨m, v, k, hm, hv, rfl⟩
  · exact h
  have hhint := hs.sound.wellFormed.knows_of_memberHint (List.mem_of_getElem? hm)
  have hsaw := looks_valueOf m.name d.value _ hs.sound hs.known hhint v k hv
  have hderives := derives_valueOf m.name d.value hs.sound hs.known hhint hv
  rw [← hsaw.looked.entry_eq d.id hs.knows hs.origin_eq] at hnone
  refine h.step hsaw.looked hderives (.modify ⟨rfl, rfl, rfl, rfl, rfl, rfl⟩ ?_ ?_) rfl
  · exact ClassEntry.signatures_withDefault _ _ _
  · exact ClassEntry.defaults_withDefault hnone v

/-- Defaults are set one after the other, each for a method that has none yet. -/
theorem early_defaults {ds : List DeferredDefault} (hs : s.Early)
    (hready : ∀ d ∈ ds, s.Ready x d.id ∧ (s.model.entry d.id).defaultAt? d.method = some none)
    (hkeys : (ds.map fun d ↦ (d.id, d.method)).Nodup) {u : PUnit} (h : (ds.forM x.setDefault).Yields s u t) :
    t.Early := by
  induction ds generalizing s with
  | nil => exact Assemble.yields_forM_nil.mp h ▸ hs
  | cons d ds ih =>
      obtain ⟨k, hd, hrest⟩ := Assemble.yields_forM_cons.mp h
      obtain ⟨hr, hnone⟩ := hready d (List.mem_cons_self ..)
      obtain ⟨hfree, hkeys⟩ := List.nodup_cons.mp hkeys
      have hlt : d.method < (s.model.entry d.id).methods.length := by
        obtain ⟨m, hm, -⟩ := Option.map_eq_some_iff.mp hnone
        exact (List.getElem?_eq_some_iff.mp hm).1
      obtain ⟨v, hchanges, -⟩ := changes_setDefault hr rfl hlt hd
      refine ih (early_setDefault hr hs hnone hd) (fun e he ↦ ?_) hkeys hrest
      obtain ⟨hre, hnonee⟩ := hready e (List.mem_cons_of_mem _ he)
      refine ⟨hre.later hchanges.sound hchanges.worked.later, ?_⟩
      by_cases hid : e.id = d.id
      · have hne : d.method ≠ e.method := by
          intro hmethod
          exact hfree (List.mem_map.mpr ⟨e, he, Prod.ext hid hmethod.symm⟩)
        rw [hid, hchanges.entry_eq, ClassEntry.defaultAt?_withDefault, ← hid, hnonee, Option.map_some, if_neg hne]
      · rw [hchanges.worked.entry_eq e.id hid hre.knows hre.origin_eq]
        exact hnonee

end Context

/-! ## Shapes of a built model -/

/-- The shapes have the same members, of the same kinds, and the second has the defaults that the first has. -/
def AnnotationShape.Precedes (s s' : AnnotationShape) : Prop :=
  ∀ name, Option.Rel
    (fun member member' ↦ member'.1.via id = member.1.via id ∧ (member.2 = none ∨ member'.2 = member.2))
    (s.members.get? name) (s'.members.get? name)

namespace Declarations

variable {d : Declarations} {policy : UnresolvedPolicy} {x : Context} {s s₁ s₂ t : Assembly} {ps : List Placed}

theorem Stages.early (h : d.Stages policy ps s s₁ s₂ t) : t.Early := by
  have hkeep : s₁.shapes = s.shapes :=
    Assemble.KeepsShapes.forM (fun p ↦ Context.keepsShapes_fill _ p) ps s ⟨⟩ s₁ h.filling
  have hstart : s₁.Early := Assembly.early_of_shapes_eq_nil (hkeep.trans h.enters.shapes_eq)
  have hready : ∀ v ∈ ps.flatMap Placed.defaults, s₁.Ready ⟨policy, Placed.table ps⟩ v.id ∧
      (s₁.model.entry v.id).defaultAt? v.method = some none := by
    intro v hv
    obtain ⟨p, hp, hv⟩ := List.mem_flatMap.mp hv
    obtain ⟨hid, hlt⟩ := Placed.of_mem_defaults hv
    have hmethods := (h.filled p hp).methods
    obtain ⟨m, hm, hfound⟩ := List.exists_getElem?_of_forall₂ hmethods (List.getElem?_eq_getElem hlt)
    rw [hid]
    exact ⟨h.ready_filled p hp, by simp [ClassEntry.defaultAt?, hm, hfound.blank.2.2]⟩
  have hdefaulted := Context.early_defaults hstart hready (Placed.nodup_defaults h.nodup)
    (Assemble.yields_forM_flatMap h.defaults)
  obtain ⟨hsound, hdeveloped, -⟩ := h.defaulted
  exact Context.annotations_induction (fun p hp ↦ (h.ready_filled p hp).later hsound hdeveloped.later)
    (fun _ _ _ hready hearly hl ↦ Context.early_annotate hready hearly hl) hdefaulted h.annotations

namespace Assembled

/-- A built model is its own twin. -/
theorem twins_self (h : d.Assembled x t ps) : Twins x x t t id t.model.Knows where
  sound := h.sound
  sound' := h.sound
  known := h.knownTo
  known' := h.knownTo
  policy_eq := rfl
  corresponds :=
    { injective := Function.injective_id
      object_eq := rfl
      knows := fun _ hc ↦ hc
      knows' := fun _ hc ↦ hc
      named := fun c _ ↦ h.sound.declarative.named c
      name_eq := fun _ _ ↦ rfl
      kind_eq := fun _ _ ↦ rfl
      origin_eq := fun _ _ ↦ rfl
      packageName_eq := fun _ _ ↦ rfl
      outer_eq := fun _ _ ↦ by simp
      outer_mem := fun _ _ _ ho ↦ (h.sound.wellFormed.knows_of_outer ho).2 }
  classOf name c c' hc hc' := by
    have hsame := hc.symm.trans hc'
    cases hsame
    exact ⟨rfl, (Context.looks_classOf h.sound h.knownTo name c t hc).good⟩
  placeholder name c c' hc hc' := by
    have hsame := hc.symm.trans hc'
    cases hsame
    exact ⟨rfl, (Assembly.looks_placeholder h.sound name c t hc).good⟩

theorem sameSignatures_self (h : d.Assembled x t ps) : t.model.SameSignatures t.model id t.model.Knows := by
  intro c hc hkind
  have hdefined := h.sound.reachable.orderly.origin_of_annotationType hkind
  obtain ⟨p, hp, rfl⟩ := List.mem_map.mp (h.defined c hdefined)
  exact h.twins_self.signatures_of_built ⟨hc, rfl, rfl, rfl⟩ (h.built p hp) (h.built p hp)

/-- What was kept for an annotation is its shape in the end, but for defaults that were set afterwards. -/
theorem precedes (h : d.Assembled x t ps) (hearly : t.Early) {c : ClassId} {shape : Option AnnotationShape}
    (hc : t.shapes.lookup c = some shape) : Option.Rel AnnotationShape.Precedes shape (t.model.declaredShape? c) := by
  obtain ⟨k, hk, hkt, hknows, rfl⟩ := hearly c shape hc
  have hcorresponds := h.twins_self.corresponds.earlier hkt.grown (.refl _) hk.wellFormed h.sound.wellFormed
  have hsame := h.twins_self.sameSignatures h.sameSignatures_self hk h.sound hkt.toSigned
    (Assembly.Looked.refl t).signed
  have hknows' := hkt.grown.knows hknows
  refine Model.declaredShape?_agree hcorresponds hsame (D := fun v v' ↦ v = none ∨ v' = v) (fun _ ↦ .none) ?_
    ⟨hknows', hknows, hknows'⟩ fun hdefined ↦ hkt.defaults c hknows (of_decide_eq_true hdefined)
  intro s s' name k k' v v' hs hk hv other
  simp only [AnnotationShape.declare, Table.get?_insert]
  split
  · exact .some ⟨hk.1, hv⟩
  · exact hs other

end Assembled
end Declarations
end JavaSource
