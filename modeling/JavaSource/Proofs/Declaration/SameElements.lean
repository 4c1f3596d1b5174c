import JavaSource.Proofs.Declaration.TwinMember
import JavaSource.Proofs.Renaming.Counterpart

/-!
# Declaration sets with the same elements

Two declaration sets with the same type elements are built into two models. A name leads to a class in the one and
to its counterpart in the other, so what is written stands for the same in both.
-/

namespace JavaSource

/-- The dotted name of a type element, from its package on. -/
def TypeElement.dottedName (e : TypeElement) : String := e.scope.owner

theorem Placed.exists_get?_table {ps : List Placed} {p : Placed} (hp : p ∈ ps) :
    ∃ c, (table ps).get? p.scope.owner = some c := by
  have hkeep : ∀ (qs : List Placed) (names : Table ClassId), (∃ c, names.get? p.scope.owner = some c) →
      ∃ c, (qs.foldl (fun names q ↦ names.insert q.scope.owner q.id) names).get? p.scope.owner = some c := by
    intro qs
    induction qs with
    | nil => exact fun _ h ↦ h
    | cons q qs ih =>
        rintro names ⟨c, hc⟩
        refine ih _ ?_
        rw [Table.get?_insert]
        split
        · exact ⟨_, rfl⟩
        · exact ⟨c, hc⟩
  obtain ⟨before, after, rfl⟩ := List.append_of_mem hp
  rw [table, List.foldl_append, List.foldl_cons]
  refine hkeep after _ ⟨p.id, ?_⟩
  rw [Table.get?_insert, if_pos rfl]

/-- A name is found among the declared types or in the model. -/
theorem Context.found_of_classOf {x : Context} {s : Assembly} {name : String} {c : ClassId} (hs : s.Sound)
    (h : (x.classOf name).Yields s c s) :
    x.declared? name = some c ∨ x.declared? name = none ∧ s.model.lookup name = some c := by
  unfold classOf at h
  split at h
  · rename_i d hd
    exact Or.inl ((Assemble.yields_pure.mp h).1 ▸ hd)
  · rename_i hnone
    obtain ⟨m, hm, hsame⟩ := Assemble.yields_build.mp h
    obtain rfl : s.model = m := congrArg Assembly.model hsame
    exact Or.inr ⟨hnone, Model.lookup_of_reference hs.wellFormed hm⟩

theorem Model.Stands.isNamed {m : Model} {package : String} {types : List TypeDeclaration} {c : ClassId}
    (h : m.Stands package types c) : (m.address c).IsNamed := by
  rw [h.address_eq]
  intro y hy
  obtain ⟨_, -, rfl⟩ := List.mem_map.mp hy
  exact nofun

namespace Declarations.Assembled

variable {d d' : Declarations} {x x' : Context} {t t' : Assembly} {ps ps' : List Placed}

theorem exists_place (h : d.Assembled x t ps) {e : TypeElement} (he : e ∈ d.elements) :
    ∃ p ∈ ps, t.model.IsPlace e p :=
  List.exists_mem_right_of_forall₂ h.places he

theorem exists_of_defined (h : d.Assembled x t ps) {c : ClassId} (hc : (t.model.entry c).origin = .defined) :
    ∃ e ∈ d.elements, ∃ p ∈ ps, p.id = c ∧ t.model.IsPlace e p := by
  obtain ⟨p, hp, rfl⟩ := List.mem_map.mp (h.defined c hc)
  obtain ⟨e, he, hplace⟩ := h.exists_element hp
  exact ⟨e, he, p, hp, rfl, hplace⟩

theorem knownTo (h : d.Assembled x t ps) : x.KnownTo t.model := by
  intro name c hc
  rw [h.declared] at hc
  obtain ⟨p, hp, -, rfl⟩ := Placed.of_get?_table hc
  obtain ⟨e, -, hplace⟩ := h.exists_element hp
  exact hplace.stands.knows

section

variable (h : d.Assembled x t ps) (h' : d'.Assembled x' t' ps') (hsame : ∀ e ∈ d.elements, e ∈ d'.elements)

include h h' hsame

/-- A top-level class that the first set declares is declared by the second. -/
theorem defined_of_topLevel {c c' : ClassId} (hc : (t.model.entry c).origin = .defined)
    (houter : (t.model.entry c).outer = none) (hc' : t'.model.Knows c') (hlisted : (t'.model.entry c').IsListed)
    (houter' : (t'.model.entry c').outer = none) (hname : (t'.model.entry c').name = (t.model.entry c).name)
    (hpackage : (t'.model.packageEntry (t'.model.entry c').package).name =
      (t.model.packageEntry (t.model.entry c).package).name) : (t'.model.entry c').origin = .defined := by
  have hn := h'.sound.wellFormed
  obtain ⟨e, he, p, -, rfl, hplace⟩ := h.exists_of_defined hc
  obtain ⟨p', hp', hplace'⟩ := h'.exists_place (hsame e he)
  have htop : (t'.model.entry p'.id).outer = none :=
    (hplace'.stands.outer_eq_none_iff hn).mpr ((hplace.stands.outer_eq_none_iff h.sound.wellFormed).mp houter)
  have hdefined := hplace'.stands.represents.origin
  have hlisted' : (t'.model.entry p'.id).IsListed := Or.inl hdefined
  have hsamePackage : (t'.model.entry c').package = (t'.model.entry p'.id).package :=
    hn.package_eq_of_name (hn.package_known c' hc') (hn.package_known _ hplace'.stands.knows)
      (by rw [hpackage, hplace.stands.package, hplace'.stands.package])
  have hget := hn.listed_top c' hc' hlisted houter'
  have hget' := hn.listed_top p'.id hplace'.stands.knows hlisted' htop
  rw [hsamePackage, hname, hplace.stands.represents.name, ← hplace'.stands.represents.name, hget'] at hget
  exact Option.some.inj hget ▸ hdefined

/-- A name that the first set declares is declared by the second, for the class with the same address if no two
types share the name. -/
theorem address_eq_of_declared? (hnames : (d'.elements.map TypeElement.dottedName).Nodup) {name : String}
    {c : ClassId} (hc : x.declared? name = some c) :
    ∃ c', x'.declared? name = some c' ∧ t'.model.Knows c' ∧ t'.model.address c' = t.model.address c ∧
      t.model.Knows c ∧ (t.model.address c).IsNamed := by
  rw [Context.declared?, h.declared] at hc
  obtain ⟨p, hp, hkey, rfl⟩ := Placed.of_get?_table hc
  obtain ⟨e, he, hplace⟩ := h.exists_element hp
  obtain ⟨p', hp', hplace'⟩ := h'.exists_place (hsame e he)
  obtain ⟨c', hc'⟩ := Placed.exists_get?_table hp'
  obtain ⟨q, hq, hkey', rfl⟩ := Placed.of_get?_table hc'
  obtain ⟨e', he', hplaceq⟩ := h'.exists_element hq
  have hdotted : e'.dottedName = e.dottedName := by
    rw [TypeElement.dottedName, TypeElement.dottedName, ← hplaceq.scope, ← hplace'.scope, hkey']
  obtain rfl := List.inj_on_of_nodup_map hnames he' (hsame e he) hdotted
  refine ⟨q.id, ?_, hplaceq.stands.knows, ?_, hplace.stands.knows, hplace.stands.isNamed⟩
  · rw [Context.declared?, h'.declared, ← hkey, hplace.scope, ← hplace'.scope, hc']
  · rw [hplaceq.stands.address_eq, hplace.stands.address_eq]

end

section

variable (h : d.Assembled x t ps) (h' : d'.Assembled x' t' ps') (hsame : ∀ e, e ∈ d.elements ↔ e ∈ d'.elements)

include h h' hsame

theorem address_eq_of_lookup {name : String} {c c' : ClassId} (hc : t.model.lookup name = some c)
    (hc' : t'.model.lookup name = some c') :
    t'.model.address c' = t.model.address c ∧ (t.model.address c).IsNamed := by
  obtain ⟨top, hknows, hlisted, houter, hname, hpackage, haddress⟩ := Model.address_of_lookup h.sound.wellFormed hc
  obtain ⟨top', hknows', hlisted', houter', hname', hpackage', haddress'⟩ :=
    Model.address_of_lookup h'.sound.wellFormed hc'
  have horigin : (t'.model.entry top').origin = (t.model.entry top).origin := by
    have hforth : (t.model.entry top).origin = .defined → (t'.model.entry top').origin = .defined := fun hdefined ↦
      defined_of_topLevel h h' (fun e ↦ (hsame e).mp) hdefined houter hknows' hlisted' houter'
        (hname'.trans hname.symm) (hpackage'.trans hpackage.symm)
    have hback : (t'.model.entry top').origin = .defined → (t.model.entry top).origin = .defined := fun hdefined ↦
      defined_of_topLevel h' h (fun e ↦ (hsame e).mpr) hdefined houter' hknows hlisted houter
        (hname.trans hname'.symm) (hpackage.trans hpackage'.symm)
    rcases hlisted with hown | hown <;> rcases hlisted' with hown' | hown'
    · rw [hown, hown']
    · exact hforth hown ▸ hown.symm
    · exact absurd (hback hown') (hown ▸ nofun)
    · rw [hown, hown']
  refine ⟨by rw [haddress, haddress', horigin], ?_⟩
  rw [haddress]
  intro y hy
  obtain ⟨_, -, rfl⟩ := List.mem_map.mp hy
  rcases hlisted with hown | hown <;> exact hown ▸ nofun

/-- A name leads to the class with the same address. -/
theorem address_eq_of_classOf (hnames : (d.elements.map TypeElement.dottedName).Nodup)
    (hnames' : (d'.elements.map TypeElement.dottedName).Nodup) {name : String} {c c' : ClassId}
    (hc : (x.classOf name).Yields t c t) (hc' : (x'.classOf name).Yields t' c' t') :
    t'.model.address c' = t.model.address c ∧ (t.model.address c).IsNamed := by
  rcases Context.found_of_classOf h.sound hc with hfound | ⟨hnone, hlookup⟩
  · obtain ⟨e, he, -, haddress, -, hnamed⟩ := address_eq_of_declared? h h' (fun e ↦ (hsame e).mp) hnames' hfound
    rcases Context.found_of_classOf h'.sound hc' with hfound' | ⟨hnone', -⟩
    · rw [he] at hfound'
      exact Option.some.inj hfound' ▸ ⟨haddress, hnamed⟩
    · rw [he] at hnone'
      cases hnone'
  · rcases Context.found_of_classOf h'.sound hc' with hfound' | ⟨-, hlookup'⟩
    · obtain ⟨e, he, -⟩ := address_eq_of_declared? h' h (fun e ↦ (hsame e).mpr) hnames hfound'
      rw [he] at hnone
      cases hnone
    · exact address_eq_of_lookup h h' hsame hlookup hlookup'

omit hsame in
/-- A name that could not be resolved leads to the placeholder with the same address. -/
theorem address_eq_of_placeholder {name : String} {c c' : ClassId}
    (hc : (Assemble.build (Model.placeholder name)).Yields t c t)
    (hc' : (Assemble.build (Model.placeholder name)).Yields t' c' t') :
    t'.model.address c' = t.model.address c ∧ (t.model.address c).IsNamed := by
  have haddress : ∀ (k : Assembly) (a : ClassId), k.Sound → (Assemble.build (Model.placeholder name)).Yields k a k →
      k.model.address a = ⟨"", [(name, .placeholder)]⟩ := fun k a hk ha ↦ by
    obtain ⟨m, hm, hsame⟩ := Assemble.yields_build.mp ha
    obtain rfl : k.model = m := congrArg Assembly.model hsame
    obtain ⟨horigin, hname⟩ := (hk.reachable.orderly.get?_placeholders name a).mp
      (Model.get?_placeholders_of_placeholder hm)
    rw [hk.wellFormed.address_of_placeholder horigin, hname]
  rw [haddress t c h.sound hc, haddress t' c' h'.sound hc']
  exact ⟨rfl, List.forall_mem_singleton.mpr nofun⟩

/-! ## Counterparts of declared types -/

omit h hsame in
theorem eq_counterpart {c c' : ClassId} (hc : t.model.Knows c) (hc' : t'.model.Knows c')
    (haddress : t'.model.address c' = t.model.address c ∧ (t.model.address c).IsNamed) :
    c' = t.model.counterpart t'.model c ∧ t.model.Shared t'.model c :=
  ⟨(Model.counterpart_eq h'.sound.wellFormed h'.sound.reachable.orderly hc haddress.2 hc' haddress.1).symm,
    hc, haddress.2, c', hc', haddress.1⟩

omit h hsame in
theorem matches_of_isPlace {e : TypeElement} {p p' : Placed} (hp : t.model.IsPlace e p) (hp' : t'.model.IsPlace e p') :
    p.Matches (t.model.counterpart t'.model) (t.model.Shared t'.model) p' := by
  obtain ⟨hid, hmem⟩ := eq_counterpart h' hp.stands.knows hp'.stands.knows
    ⟨hp'.stands.address_eq.trans hp.stands.address_eq.symm, hp.stands.isNamed⟩
  exact ⟨hmem, hid, hp'.type.trans hp.type.symm, hp'.scope.trans hp.scope.symm⟩

/-- Names lead to counterparts. -/
theorem twins (hpolicy : x'.policy = x.policy) (hnames : (d.elements.map TypeElement.dottedName).Nodup)
    (hnames' : (d'.elements.map TypeElement.dottedName).Nodup) :
    Twins x x' t t' (t.model.counterpart t'.model) (t.model.Shared t'.model) where
  sound := h.sound
  sound' := h'.sound
  known := h.knownTo
  known' := h'.knownTo
  policy_eq := hpolicy
  corresponds := by
    refine Model.corresponds_counterpart h.sound.wellFormed h.sound.reachable.orderly h'.sound.wellFormed
      h'.sound.reachable.orderly h.grown.address_object h'.grown.address_object fun c c' hc hc' hdefined haddress ↦ ?_
    obtain ⟨e, he, p, -, rfl, hplace⟩ := h.exists_of_defined hdefined
    obtain ⟨p', -, hplace'⟩ := h'.exists_place ((hsame e).mp he)
    have hsameClass := (eq_counterpart h' hc hc' ⟨haddress, hplace.stands.isNamed⟩).1.trans
      (matches_of_isPlace h' hplace hplace').id_eq.symm
    rw [hsameClass]
    exact Except.ok.inj (hplace'.stands.represents.kind.symm.trans hplace.stands.represents.kind)
  classOf name c c' hc hc' :=
    eq_counterpart h' (Context.looks_classOf h.sound h.knownTo name c t hc).good
      (Context.looks_classOf h'.sound h'.knownTo name c' t' hc').good
      (address_eq_of_classOf h h' hsame hnames hnames' hc hc')
  placeholder name c c' hc hc' := by
    have haddress := address_eq_of_placeholder h h' hc hc'
    have hknows : ∀ (k : Assembly) (a : ClassId), k.Sound → (Assemble.build (Model.placeholder name)).Yields k a k →
        k.model.Knows a := fun k a hk ha ↦ (Assembly.looks_placeholder hk name a k ha).good
    exact eq_counterpart h' (hknows t c h.sound hc) (hknows t' c' h'.sound hc') haddress

end

end Declarations.Assembled
end JavaSource
