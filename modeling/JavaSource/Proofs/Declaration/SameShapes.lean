import JavaSource.Proofs.Declaration.SameElements
import JavaSource.Proofs.Declaration.Unresolved

/-!
# Shapes in declaration sets with the same elements

The shape of an annotation is kept from the first look at it on, and the first look may come while defaults are
still being set. If no default holds an annotation of a type that has defaults itself, the shapes are those of
the finished types, whatever came first. Then the same is declared in both models.
-/

namespace JavaSource

open Assembly

/-! ## Defaults that hold no defaults -/

/-- Whether a written name leads to the type. -/
def TypeElement.IsNamed (e : TypeElement) (name : String) : Prop :=
  e.dottedName = name.map (fun c ↦ if c = '$' then '.' else c) ∨
    e.package = (BinaryName.ofString name).package ∧
      e.chain.map (·.name) = (BinaryName.ofString name).nested.reverse ++ [(BinaryName.ofString name).top]

instance (e : TypeElement) (name : String) : Decidable (e.IsNamed name) :=
  inferInstanceAs (Decidable (_ ∨ _))

namespace Declarations

/-- No default holds an annotation of a type whose methods have defaults themselves. -/
def FlatDefaults (d : Declarations) : Prop :=
  ∀ e ∈ d.elements, ∀ v ∈ e.type.defaults, ∀ name ∈ v.annotations, ∀ f ∈ d.elements, f.IsNamed name →
    f.type.defaults.length = 0

instance (d : Declarations) : Decidable d.FlatDefaults :=
  inferInstanceAs (Decidable (∀ e ∈ d.elements, ∀ v ∈ e.type.defaults, ∀ name ∈ v.annotations,
    ∀ f ∈ d.elements, f.IsNamed name → f.type.defaults.length = 0))

end Declarations

theorem Placed.defaults_eq_nil_iff (p : Placed) : p.defaults = [] ↔ p.type.defaults.length = 0 := by
  rw [List.length_eq_zero_iff, ← p.map_value_defaults, List.map_eq_nil_iff]

/-- A name that leads to the class of a placed type is a name of the type. -/
theorem TypeElement.isNamed_of_classOf {x : Context} {ps : List Placed} (hdeclared : x.declared = Placed.table ps)
    (hnodup : (ps.map (·.id)).Nodup) {j : Assembly} (hj : j.Sound) {name : String} {q : Placed} (hq : q ∈ ps)
    (hc : (x.classOf name).Yields j q.id j) {e : TypeElement} (he : j.model.IsPlace e q) : e.IsNamed name := by
  rcases Context.found_of_classOf hj hc with hfound | ⟨-, hlookup⟩
  · rw [Context.declared?, hdeclared] at hfound
    obtain ⟨p, hp, hname, hid⟩ := Placed.of_get?_table hfound
    obtain rfl := List.inj_on_of_nodup_map hnodup hp hq hid
    exact Or.inl (by rw [← hname, he.scope]; rfl)
  · obtain ⟨top, -, -, -, -, -, haddress⟩ := Model.address_of_lookup hj.wellFormed hlookup
    rw [he.stands.address_eq] at haddress
    obtain ⟨hpackage, hchain⟩ := Address.mk.inj haddress
    have hnames := congrArg (List.map Prod.fst) hchain
    simp only [List.map_map, Function.comp_def, List.map_id'] at hnames
    exact Or.inr ⟨hpackage, hnames⟩

namespace Declarations

variable {d d' : Declarations} {policy : UnresolvedPolicy} {x x' : Context} {t t' : Assembly} {ps ps' : List Placed}

/-- When defaults hold no defaults, all shapes that are kept are those of the finished types. -/
theorem Stages.faithful {s s₁ s₂ : Assembly} (h : d.Stages policy ps s s₁ s₂ t) (hflat : d.FlatDefaults) :
    t.Faithful := by
  have hkeep : s₁.shapes = s.shapes :=
    Assemble.KeepsShapes.forM (fun p ↦ Context.keepsShapes_fill _ p) ps s ⟨⟩ s₁ h.filling
  have hlengths : ∀ p ∈ ps, s₁.Ready ⟨policy, Placed.table ps⟩ p.id ∧
      (s₁.model.entry p.id).methods.length = p.type.methods.length := fun p hp ↦
    ⟨h.ready_filled p hp, (h.filled p hp).methods.length_eq.symm⟩
  obtain ⟨hfaithful, -, hready⟩ := Context.faithful_defaults h.sound hlengths (hkeep.trans h.enters.shapes_eq)
    (fun p hp v hv name hname j c hj hsound hc q hq hdefaults hcq ↦ by
      obtain ⟨e, he, hplace⟩ := List.exists_mem_left_of_forall₂ h.enters.places hp
      obtain ⟨f, hf, hplace'⟩ := List.exists_mem_left_of_forall₂ h.enters.places hq
      have hvalue : v.value ∈ e.type.defaults := by
        rw [← hplace.type, ← p.map_value_defaults]
        exact List.mem_map_of_mem hv
      have hlater := hplace'.later (h.developed.later.grown.trans hj.grown) h.enters.sound.wellFormed
      have hnamed := TypeElement.isNamed_of_classOf rfl h.nodup hsound hq (hcq ▸ hc) hlater
      refine hdefaults (q.defaults_eq_nil_iff.mpr ?_)
      rw [hplace'.type]
      exact hflat e he v.value hvalue name hname f hf hnamed) h.defaults
  exact Context.annotations_induction hready
    (fun _ _ _ hr hk hl ↦ Context.faithful_annotate hr hk hl) hfaithful h.annotations

end Declarations

/-! ## Shapes of counterparts -/

/-- Only defined classes are annotation types. -/
theorem Model.Orderly.origin_of_annotationType {m : Model} (h : m.Orderly) {c : ClassId}
    (hkind : (m.entry c).kind = .annotationType) : (m.entry c).origin = .defined := by
  by_contra hforeign
  rw [h.kind_eq c hforeign] at hkind
  cases hkind

section

variable {x x' : Context} {t t' : Assembly} {f : ClassId → ClassId} {S : ClassId → Prop}

/-- The classes of a method signature were there when the method was. -/
theorem Twins.sameSignatures (h : Twins x x' t t' f S) (hsignatures : t.model.SameSignatures t'.model f S)
    {k k' : Assembly} (hk : k.Sound) (hk' : k'.Sound) (hkt : k.Signed t) (hkt' : k'.Signed t') :
    k.model.SameSignatures k'.model f fun e ↦ S e ∧ k.model.Knows e ∧ k'.model.Knows (f e) := by
  have hcorresponds := h.corresponds.earlier hkt.grown hkt'.grown hk.wellFormed hk'.wellFormed
  intro e he hkind
  have hdefined := hk.reachable.orderly.origin_of_annotationType hkind
  have hdefined' := (hcorresponds.origin_eq e he).trans hdefined
  obtain ⟨heq, hwithin⟩ := hsignatures e he.1 ((hkt.grown.sameOrigin e he.2.1).kind.trans hkind)
  rw [hkt.signatures_eq e he.2.1 hdefined, hkt'.signatures_eq (f e) he.2.2 hdefined'] at heq
  rw [hkt.signatures_eq e he.2.1 hdefined] at hwithin
  refine ⟨heq, fun y hy u hu ↦ (hwithin y hy u hu).of_classes fun a ha ↦ ⟨?_, ?_⟩⟩
  · obtain ⟨m, hm, rfl⟩ := List.mem_map.mp hy
    exact hk.wellFormed.knows_of_returnType hm hu ha
  · have hy' : Method.renameSignature f y ∈ (k'.model.entry (f e)).signatures := heq ▸ List.mem_map_of_mem hy
    obtain ⟨m, hm, hmy⟩ := List.mem_map.mp hy'
    have hreturn : m.returnType = some (u.rename f) := by
      rw [show m.returnType = y.2.map (JavaType.rename f) from congrArg Prod.snd hmy, hu, Option.map_some]
    refine hk'.wellFormed.knows_of_returnType hm hreturn ?_
    rw [JavaType.classes_rename]
    exact List.mem_map_of_mem ha

/-- The shapes that were kept for an annotation are alike when its defaults correspond. -/
theorem Twins.alike_of_faithful (h : Twins x x' t t' f S) (hfaithful : t.Faithful) (hfaithful' : t'.Faithful)
    (hsignatures : t.model.SameSignatures t'.model f S) {c : ClassId} (hc : S c)
    (hdefaults : (t.model.entry c).origin = .defined →
      (t'.model.entry (f c)).defaults = (t.model.entry c).defaults.map (Option.map (AnnotationValue.rename f)))
    {shape shape' : Option AnnotationShape} (hshape : t.shapes.lookup c = some shape)
    (hshape' : t'.shapes.lookup (f c) = some shape') : AnnotationShape.Alike f S shape shape' := by
  obtain ⟨k, hk, hkt, hknows, rfl, hkdefaults⟩ := hfaithful c shape hshape
  obtain ⟨k', hk', hkt', hknows', rfl, hkdefaults'⟩ := hfaithful' (f c) shape' hshape'
  have hcorresponds := h.corresponds.earlier hkt.grown hkt'.grown hk.wellFormed hk'.wellFormed
  have horigin := hcorresponds.origin_eq c ⟨hc, hknows, hknows'⟩
  by_cases hdefined : (k.model.entry c).origin = .defined
  · have hsame := h.sameSignatures hsignatures hk hk' hkt hkt'
    have hsameDefaults := hdefaults ((hkt.grown.sameOrigin c hknows).origin.trans hdefined)
    rw [hkdefaults hdefined, hkdefaults' (horigin.trans hdefined)] at hsameDefaults
    exact (Model.declaredShape?_alike hcorresponds hsame ⟨hc, hknows, hknows'⟩ hsameDefaults).mono fun _ he ↦ he.1
  · have hforeign : ∀ (m : Model) (a : ClassId), (m.entry a).origin ≠ .defined → m.declaredShape? a = none :=
      fun m a ha ↦ if_neg fun hboth ↦ ha (of_decide_eq_true hboth.1)
    rw [hforeign k.model c hdefined, hforeign k'.model (f c) (horigin ▸ hdefined)]
    trivial

end

/-! ## The same declared twice -/

/-- Two declaration sets with the same elements, no two of them under one dotted name, and what they were built
into. -/
structure Declarations.Paired (d d' : Declarations) (x x' : Context) (t t' : Assembly) (ps ps' : List Placed) :
    Prop where
  assembled : d.Assembled x t ps
  assembled' : d'.Assembled x' t' ps'
  mem_elements_iff : ∀ e, e ∈ d.elements ↔ e ∈ d'.elements
  names : (d.elements.map TypeElement.dottedName).Nodup
  names' : (d'.elements.map TypeElement.dottedName).Nodup
  policy_eq : x'.policy = x.policy
  flat : d.FlatDefaults
  faithful : t.Faithful
  faithful' : t'.Faithful

namespace Declarations.Paired

variable {d d' : Declarations} {x x' : Context} {t t' : Assembly} {ps ps' : List Placed}
  (h : d.Paired d' x x' t t' ps ps')

include h

theorem twins : Twins x x' t t' (t.model.counterpart t'.model) (t.model.Shared t'.model) :=
  h.assembled.twins h.assembled' h.mem_elements_iff h.policy_eq h.names h.names'

/-- A placed type is placed in the other model as well. -/
theorem exists_matches {p : Placed} (hp : p ∈ ps) : ∃ e ∈ d.elements, ∃ p' ∈ ps', t.model.IsPlace e p ∧
    t'.model.IsPlace e p' ∧ p.Matches (t.model.counterpart t'.model) (t.model.Shared t'.model) p' := by
  obtain ⟨e, he, hplace⟩ := h.assembled.exists_element hp
  obtain ⟨p', hp', hplace'⟩ := h.assembled'.exists_place ((h.mem_elements_iff e).mp he)
  exact ⟨e, he, p', hp', hplace, hplace', h.assembled'.matches_of_isPlace hplace hplace'⟩

/-- The defaults that the methods of a placed type have, when the shapes in them are alike. -/
theorem defaults_eq {p : Placed} (hp : p ∈ ps)
    (hagree : ∀ v ∈ p.defaults, Twins.AgreeOn x t t' (t.model.counterpart t'.model) (t.model.Shared t'.model)
      v.value.annotations) :
    (t'.model.entry (t.model.counterpart t'.model p.id)).defaults =
      (t.model.entry p.id).defaults.map (Option.map (AnnotationValue.rename (t.model.counterpart t'.model))) := by
  obtain ⟨e, -, p', hp', hplace, hplace', hmatches⟩ := h.exists_matches hp
  rw [← hmatches.id_eq]
  exact h.twins.defaults_of_built hmatches (h.assembled.built p hp) (h.assembled'.built p' hp') hagree

theorem sameSignatures :
    t.model.SameSignatures t'.model (t.model.counterpart t'.model) (t.model.Shared t'.model) := by
  intro c hc hkind
  have hdefined := h.assembled.sound.reachable.orderly.origin_of_annotationType hkind
  obtain ⟨p, hp, rfl⟩ := List.mem_map.mp (h.assembled.defined c hdefined)
  obtain ⟨e, -, p', hp', -, -, hmatches⟩ := h.exists_matches hp
  rw [← hmatches.id_eq]
  exact h.twins.signatures_of_built hmatches (h.assembled.built p hp) (h.assembled'.built p' hp')

theorem alike {c : ClassId} (hc : t.model.Shared t'.model c)
    (hagree : ∀ p ∈ ps, p.id = c → ∀ v ∈ p.defaults, Twins.AgreeOn x t t' (t.model.counterpart t'.model)
      (t.model.Shared t'.model) v.value.annotations)
    {shape shape' : Option AnnotationShape} (hshape : t.shapes.lookup c = some shape)
    (hshape' : t'.shapes.lookup (t.model.counterpart t'.model c) = some shape') :
    AnnotationShape.Alike (t.model.counterpart t'.model) (t.model.Shared t'.model) shape shape' := by
  refine h.twins.alike_of_faithful h.faithful h.faithful' h.sameSignatures hc (fun hdefined ↦ ?_) hshape hshape'
  obtain ⟨p, hp, rfl⟩ := List.mem_map.mp (h.assembled.defined c hdefined)
  exact h.defaults_eq hp (hagree p hp rfl)

/-- The shapes of the annotations that defaults hold are alike, for there are no defaults in them. -/
theorem agreeOn_defaults {p : Placed} (hp : p ∈ ps) {v : DeferredDefault} (hv : v ∈ p.defaults) :
    Twins.AgreeOn x t t' (t.model.counterpart t'.model) (t.model.Shared t'.model) v.value.annotations := by
  intro name hname c hclass hc shape shape' hshape hshape'
  refine h.alike hc (fun q hq hid ↦ ?_) hshape hshape'
  subst hid
  obtain ⟨e, he, hplace⟩ := h.assembled.exists_element hp
  obtain ⟨f, hf, hplace'⟩ := h.assembled.exists_element hq
  have hvalue : v.value ∈ e.type.defaults := by
    rw [← hplace.type, ← p.map_value_defaults]
    exact List.mem_map_of_mem hv
  have hnamed := TypeElement.isNamed_of_classOf h.assembled.declared h.assembled.nodup h.assembled.sound hq hclass
    hplace'
  have hnone : q.defaults = [] := by
    rw [q.defaults_eq_nil_iff, hplace'.type]
    exact h.flat e he v.value hvalue name hname f hf hnamed
  rw [hnone]
  exact nofun

theorem agreeOn (names : List String) :
    Twins.AgreeOn x t t' (t.model.counterpart t'.model) (t.model.Shared t'.model) names :=
  fun _ _ _ _ hc _ _ hshape hshape' ↦ h.alike hc (fun _ hp _ _ hv ↦ h.agreeOn_defaults hp hv) hshape hshape'

/-- The classes of a type that is declared in both sets have the same members. -/
theorem mirrors {e : TypeElement} {p p' : Placed} (hp : p ∈ ps) (hp' : p' ∈ ps') (hplace : t.model.IsPlace e p)
    (hplace' : t'.model.IsPlace e p') :
    (t.model.entry p.id).Mirrors (t.model.counterpart t'.model) (t.model.Shared t'.model) (t'.model.entry p'.id) :=
  h.twins.mirrors_of_built (h.assembled'.matches_of_isPlace hplace hplace') (h.assembled.built p hp)
    (h.assembled'.built p' hp') (fun _ _ ↦ h.agreeOn _) fun _ _ ↦ h.agreeOn _

end Declarations.Paired
end JavaSource
