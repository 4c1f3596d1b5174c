import JavaSource.Declaration.Units
import JavaSource.Proofs.Declaration.Filling
import JavaSource.Proofs.Declaration.Placing

/-!
# Defaults and annotations of declared types

After all members are there, the methods of annotations get their defaults and everything gets its annotations.
Then the class of a placed type is what was written: the members as they were added, with the defaults and the
annotations as they are found.
-/

namespace JavaSource

theorem List.map_modify_eq {α β : Type} {f : α → α} {g : α → β} (h : ∀ a, g (f a) = g a) (l : List α) (i : Nat) :
    (l.modify i f).map g = l.map g := by
  refine List.ext_getElem? fun j ↦ ?_
  simp only [List.getElem?_map, List.getElem?_modify]
  cases l[j]? with
  | none => rfl
  | some a => split <;> simp [h]

namespace ClassEntry

/-- Gives a method a default. -/
def withDefault (e : ClassEntry) (i : Nat) (v : AnnotationValue) : ClassEntry :=
  e.modifyMethod i ({ · with defaultValue := some v })

theorem signatures_modifyMethod {f : Method → Method} (hname : ∀ m, (f m).name = m.name)
    (htype : ∀ m, (f m).returnType = m.returnType) (e : ClassEntry) (i : Nat) :
    (e.modifyMethod i f).signatures = e.signatures :=
  List.map_modify_eq (g := fun m : Method ↦ (m.name, m.returnType)) (fun m ↦ Prod.ext (hname m) (htype m)) _ i

theorem signatures_withDefault (e : ClassEntry) (i : Nat) (v : AnnotationValue) :
    (e.withDefault i v).signatures = e.signatures :=
  signatures_modifyMethod (f := ({ · with defaultValue := some v })) (fun _ ↦ rfl) (fun _ ↦ rfl) e i

theorem getElem?_signatures {e f : ClassEntry} (h : e.signatures = f.signatures) {i : Nat} {m : Method}
    (hm : e.methods[i]? = some m) :
    ∃ n, f.methods[i]? = some n ∧ n.name = m.name ∧ n.returnType = m.returnType := by
  have hsame : f.signatures[i]? = some (m.name, m.returnType) := by
    rw [← h, signatures, List.getElem?_map, hm]
    rfl
  obtain ⟨n, hn, heq⟩ := List.getElem?_map .. ▸ hsame |> Option.map_eq_some_iff.mp
  exact ⟨n, hn, (Prod.ext_iff.mp heq).1, (Prod.ext_iff.mp heq).2⟩

end ClassEntry

/-- What a type tells about plain values hangs on the kinds of the classes in it. -/
theorem Model.memberHint_congr {m n : Model} : ∀ {t : JavaType},
    (∀ c ∈ t.classes, (n.entry c).kind = (m.entry c).kind) → n.memberHint t = m.memberHint t
  | .primitive p, _ => by
      cases p <;> rfl
  | .array t, ht => by
      rw [memberHint, memberHint, memberHint_congr (t := t) ht]
  | .reference c, ht => by
      rw [memberHint, memberHint, ht c (List.mem_singleton_self c)]
  | .narrowed _ _, _ | .var _ _, _ | .wildcard, _ | .wildcardExtends _, _ | .wildcardSuper _, _ | .anonymous _, _ =>
      rfl

theorem Model.Extends.memberHint_eq {m n : Model} (h : m.Extends n) (t : JavaType)
    (ht : ∀ c ∈ t.classes, m.Knows c) : n.memberHint t = m.memberHint t :=
  memberHint_congr fun c hc ↦ (h.sameOrigin c (ht c hc)).kind

/-- The value is the default of a method as it is found. The entry has the methods as they were added. -/
def DeferredDefault.Found (x : Context) (e : ClassEntry) (s : Assembly) (d : DeferredDefault)
    (v : AnnotationValue) : Prop :=
  ∃ m, e.methods[d.method]? = some m ∧ (∀ c ∈ m.returnType.toList.flatMap JavaType.classes, s.model.Knows c) ∧
    s.Finds (x.valueOf m.name (m.returnType.bind s.model.memberHint) d.value) v

theorem DeferredDefault.Found.later {x : Context} {e : ClassEntry} {s t : Assembly} {d : DeferredDefault}
    {v : AnnotationValue} (h : d.Found x e s v) (ht : s.Later t) : d.Found x e t v := by
  obtain ⟨m, hm, hknown, hfinds⟩ := h
  refine ⟨m, hm, fun c hc ↦ ht.grown.knows (hknown c hc), ?_⟩
  have hhint : m.returnType.bind t.model.memberHint = m.returnType.bind s.model.memberHint := by
    cases hr : m.returnType with
    | none => rfl
    | some r => exact ht.grown.memberHint_eq r fun c hc ↦ hknown c (by simpa [hr] using hc)
  rw [hhint]
  exact hfinds.later ht

namespace Placed

theorem of_mem_defaults {p : Placed} {d : DeferredDefault} (h : d ∈ p.defaults) :
    d.id = p.id ∧ d.method < p.type.methods.length := by
  obtain ⟨⟨w, i⟩, hw, hd⟩ := List.mem_filterMap.mp h
  obtain ⟨v, -, rfl⟩ := Option.map_eq_some_iff.mp hd
  exact ⟨rfl, by simpa using (List.mem_zipIdx hw).2.1⟩

theorem of_mem_deferred {p : Placed} {a : DeferredAnnotation} (h : a ∈ p.deferred) : a.id = p.id := by
  have hmethod : ∀ (w : MethodDeclaration) i, a ∈ w.deferred p.id i → a.id = p.id := by
    intro w i ha
    rcases List.mem_append.mp ha with ha | ha
    · obtain ⟨_, -, rfl⟩ := List.mem_map.mp ha
      rfl
    · obtain ⟨_, -, ha⟩ := List.mem_flatMap.mp ha
      obtain ⟨_, -, rfl⟩ := List.mem_map.mp ha
      rfl
  rcases List.mem_append.mp h with h | h
  · rcases List.mem_append.mp h with h | h
    · obtain ⟨_, -, h⟩ := List.mem_flatMap.mp h
      obtain ⟨_, -, rfl⟩ := List.mem_map.mp h
      rfl
    · obtain ⟨⟨w, i⟩, -, h⟩ := List.mem_flatMap.mp h
      exact hmethod w i h
  · obtain ⟨_, -, rfl⟩ := List.mem_map.mp h
    rfl

end Placed

namespace Context

open Assembly

variable {x : Context} {s t : Assembly} {e : ClassEntry}

theorem changes_setDefault {d : DeferredDefault} (hs : s.Ready x d.id)
    (hsame : (s.model.entry d.id).signatures = e.signatures) (hd : d.method < e.methods.length) {u : Unit}
    (h : (x.setDefault d).Yields s u t) :
    ∃ v, s.Changes d.id t ((s.model.entry d.id).withDefault d.method v) ∧ d.Found x e t v := by
  simp only [setDefault, Assemble.yields_bind, Assemble.yields_model] at h
  obtain ⟨_, _, ⟨rfl, rfl⟩, h⟩ := h
  obtain ⟨m, hm, hname, htype⟩ := ClassEntry.getElem?_signatures hsame.symm (List.getElem?_eq_getElem hd)
  rw [hm] at h
  obtain ⟨v, k, hv, hmodify⟩ := Assemble.yields_bind.mp h
  have hknown : ∀ r, m.returnType = some r → ∀ c ∈ r.classes, s.model.Knows c := fun r hr c hc ↦
    hs.sound.wellFormed.knows_of_returnType (List.mem_of_getElem? hm) hr hc
  have hhint := hs.sound.wellFormed.knows_of_memberHint (List.mem_of_getElem? hm)
  have hsaw := looks_valueOf m.name d.value _ hs.sound hs.known hhint v k hv
  have hlook := hsaw.changes hs
  rw [Assemble.yields_modify, hlook.entry_eq] at hmodify
  have hstep : MemberStep.apply (s.model.entry d.id) (.inMethod d.method (.defaultValue v)) =
      .ok ((s.model.entry d.id).withDefault d.method v) := by
    rw [MemberStep.apply, ClassEntry.updateMethod, hm, ClassEntry.withDefault, ClassEntry.modifyMethod,
      List.modify_eq_set_getElem?, hm]
    rfl
  have hsteps : (k.model.entry d.id).Steps v.mentions ((s.model.entry d.id).withDefault d.method v) :=
    .single (by rw [hlook.entry_eq]; exact hstep) (List.Subset.refl _)
  have hchanges := (hlook.ready hs).changes hsteps hsaw.good
  refine ⟨v, hmodify ▸ hlook.trans hchanges, _, List.getElem?_eq_getElem hd, ?_⟩
  rw [← hname, ← htype]
  have hlater : s.Later t := hmodify ▸ (hlook.trans hchanges).worked.later
  refine ⟨fun c hc ↦ ?_, fun w hw hsound ↦ ?_⟩
  · obtain ⟨r, hr, hc⟩ := List.mem_flatMap.mp hc
    exact hlater.grown.knows (hknown r (Option.mem_toList.mp hr) c hc)
  · have hagain : m.returnType.bind t.model.memberHint = m.returnType.bind s.model.memberHint := by
      cases hr : m.returnType with
      | none => rfl
      | some r => exact hlater.grown.memberHint_eq r (hknown r hr)
    rw [hagain]
    exact hsaw.again w ((hmodify ▸ hchanges.worked.later).trans hw) hsound

/-- Setting a default leaves every class ready, with as many methods as it has. -/
theorem ready_of_setDefault {ps : List Placed} (hs : ∀ q ∈ ps, s.Ready x q.id ∧
      (s.model.entry q.id).methods.length = q.type.methods.length) {p : Placed} (hp : p ∈ ps) {d : DeferredDefault}
    (hd : d ∈ p.defaults) {u : Unit} (h : (x.setDefault d).Yields s u t) :
    ∀ q ∈ ps, t.Ready x q.id ∧ (t.model.entry q.id).methods.length = q.type.methods.length := by
  obtain ⟨hid, hlt⟩ := Placed.of_mem_defaults hd
  have hready : s.Ready x d.id := hid ▸ (hs p hp).1
  have hmethod : d.method < (s.model.entry d.id).methods.length := by
    rw [hid, (hs p hp).2]
    exact hlt
  obtain ⟨v, hchanges, -⟩ := changes_setDefault hready rfl hmethod h
  intro q hq
  obtain ⟨hready', hlength⟩ := hs q hq
  refine ⟨hready'.later hchanges.sound hchanges.worked.later, ?_⟩
  by_cases hqd : q.id = d.id
  · rw [← hlength, hqd, hchanges.entry_eq]
    simp [ClassEntry.withDefault, ClassEntry.modifyMethod]
  · rw [hchanges.worked.entry_eq q.id hqd hready'.knows hready'.origin_eq, hlength]

theorem changes_annotate {a : DeferredAnnotation} (hs : s.Ready x a.id) {u : Unit}
    (h : (x.annotate a).Yields s u t) :
    ∃ w, s.Changes a.id t ((s.model.entry a.id).annotate a.target w) ∧ t.Finds (x.useOf a.written) w := by
  obtain ⟨w, k, hw, hmodify⟩ := Assemble.yields_bind.mp h
  have hsaw := looks_useOf hs.sound hs.known a.written w k hw
  have hlook := hsaw.changes hs
  rw [Assemble.yields_modify, hlook.entry_eq] at hmodify
  have hchanges := (hlook.ready hs).changes (.single (s := .annotate a.target w) (by rw [hlook.entry_eq]; rfl)
    (List.Subset.refl _)) hsaw.good
  rw [← hmodify] at hchanges
  exact ⟨w, hlook.trans hchanges, fun v hv ↦ hsaw.again v (hchanges.worked.later.trans hv)⟩

/-- What holds of a state where every class is ready holds after the annotations if each of them keeps it. -/
theorem annotations_induction {ps : List Placed} {P : Assembly → Prop} (hready : ∀ p ∈ ps, s.Ready x p.id)
    (hstep : ∀ (a : DeferredAnnotation) (k l : Assembly), k.Ready x a.id → P k → (x.annotate a).Yields k ⟨⟩ l → P l)
    (hs : P s) {u : PUnit} (h : (ps.forM fun p ↦ p.deferred.forM x.annotate).Yields s u t) : P t := by
  let AllReady (k : Assembly) : Prop := P k ∧ ∀ p ∈ ps, k.Ready x p.id
  have hend : AllReady t := by
    refine Assemble.forM_induction (fun p hp k l hk hl ↦ ?_) ⟨hs, hready⟩ h
    refine Assemble.forM_induction (fun a ha k l hk hl ↦ ?_) hk hl
    have hr : k.Ready x a.id := Placed.of_mem_deferred ha ▸ hk.2 p hp
    obtain ⟨w, hchanges, -⟩ := changes_annotate hr hl
    exact ⟨hstep a k l hr hk.1 hl, fun q hq ↦ (hk.2 q hq).later hchanges.sound hchanges.worked.later⟩
  exact hend.1

theorem changes_defaults {p : Placed} (hs : s.Ready x p.id)
    (hlength : (s.model.entry p.id).methods.length = p.type.methods.length) {u : PUnit}
    (h : (p.defaults.forM x.setDefault).Yields s u t) :
    ∃ vs : List (Nat × AnnotationValue),
      s.Changes p.id t (vs.foldl (fun e w ↦ e.withDefault w.1 w.2) (s.model.entry p.id)) ∧
      List.Forall₂ (fun d w ↦ w.1 = d.method ∧ d.Found x (s.model.entry p.id) t w.2) p.defaults vs := by
  let R (t : Assembly) (d : DeferredDefault) (w : Nat × AnnotationValue) : Prop :=
    w.1 = d.method ∧ d.Found x (s.model.entry p.id) t w.2
  have hlater : ∀ d ∈ p.defaults, ∀ w k l, R k d w → k.Later l → R l d w :=
    fun _ _ _ _ _ hR hl ↦ ⟨hR.1, hR.2.later hl⟩
  refine Changes.forM_of (fun e ↦ e.signatures = (s.model.entry p.id).signatures)
    (fun e w ↦ e.withDefault w.1 w.2) R (fun e w he ↦ (e.signatures_withDefault w.1 w.2).trans he) hlater
    (fun d hd k l hk hsame hstep ↦ ?_) hs rfl h
  obtain ⟨hid, hlt⟩ := Placed.of_mem_defaults hd
  rw [← hid] at hk hsame hlength ⊢
  obtain ⟨v, hchanges, hfound⟩ := changes_setDefault hk hsame (hlength ▸ hlt) hstep
  exact ⟨(d.method, v), hchanges, rfl, hid ▸ hfound⟩

theorem changes_annotations {p : Placed} (hs : s.Ready x p.id) {u : PUnit}
    (h : (p.deferred.forM x.annotate).Yields s u t) :
    ∃ us : List (AnnotationTarget × AnnotationUse),
      s.Changes p.id t (us.foldl (fun e w ↦ e.annotate w.1 w.2) (s.model.entry p.id)) ∧
      List.Forall₂ (fun a w ↦ w.1 = a.target ∧ t.Finds (x.useOf a.written) w.2) p.deferred us := by
  let R (t : Assembly) (a : DeferredAnnotation) (w : AnnotationTarget × AnnotationUse) : Prop :=
    w.1 = a.target ∧ t.Finds (x.useOf a.written) w.2
  have hlater : ∀ a ∈ p.deferred, ∀ w k l, R k a w → k.Later l → R l a w :=
    fun _ _ _ _ _ hR hl ↦ ⟨hR.1, hR.2.later hl⟩
  refine Changes.forM (fun e w ↦ e.annotate w.1 w.2) R hlater (fun a ha k l hk hstep ↦ ?_) hs h
  rw [← Placed.of_mem_deferred ha] at hk ⊢
  obtain ⟨w, hchanges, hfinds⟩ := changes_annotate hk hstep
  exact ⟨(a.target, w), hchanges, rfl, hfinds⟩

end Context

/-! ## Finished classes -/

/-- The entry of a class is that of a placed type with everything that was written for it. -/
def Placed.Built (x : Context) (s : Assembly) (p : Placed) (e : ClassEntry) : Prop :=
  ∃ bare vs us, p.type.Filled x p.scope s p.id bare ∧
    List.Forall₂ (fun d (w : Nat × AnnotationValue) ↦ w.1 = d.method ∧ d.Found x bare s w.2) p.defaults vs ∧
    List.Forall₂ (fun a (w : AnnotationTarget × AnnotationUse) ↦
      w.1 = a.target ∧ s.Finds (x.useOf a.written) w.2) p.deferred us ∧
    e = us.foldl (fun e w ↦ e.annotate w.1 w.2) (vs.foldl (fun e w ↦ e.withDefault w.1 w.2) bare)

theorem TypeDeclaration.Filled.later {x : Context} {scope : Scope} {s t : Assembly} {d : TypeDeclaration}
    {c : ClassId} {e : ClassEntry} (h : d.Filled x scope s c e) (ht : s.Later t) : d.Filled x scope t c e where
  mods := h.mods
  typeParams := h.typeParams.imp fun _ _ h ↦ h.later ht
  superclass := h.superclass.imp fun _ h ↦ ⟨h.1.later ht, h.2⟩
  interfaces := h.interfaces.imp fun _ h ↦ ⟨h.1.imp fun _ _ h ↦ h.later ht, h.2⟩
  javadoc := h.javadoc
  constants := h.constants
  fields := h.fields.imp fun _ _ ⟨type, h, hf⟩ ↦ ⟨type, h.later ht, hf⟩
  methods := h.methods.imp fun _ _ h ↦ h.later ht
  initBlocks := h.initBlocks
  annotations := h.annotations

theorem Model.IsBlank.entry {m : Model} {p : Placed} (h : m.IsBlank p) :
    (m.entry p.id).IsBlank p.type.modifiers := by
  obtain ⟨kind, -, hentry⟩ := h.entry_eq
  constructor <;> rw [hentry]

theorem Placed.of_get?_table {ps : List Placed} {name : String} {c : ClassId}
    (h : (table ps).get? name = some c) : ∃ p ∈ ps, p.scope.owner = name ∧ p.id = c := by
  have hfold : ∀ names : Table ClassId,
      (ps.foldl (fun names p ↦ names.insert p.scope.owner p.id) names).get? name = some c →
        names.get? name = some c ∨ ∃ p ∈ ps, p.scope.owner = name ∧ p.id = c := by
    clear h
    induction ps with
    | nil => exact fun _ ↦ Or.inl
    | cons p ps ih =>
        intro names h
        rcases ih _ h with h | ⟨q, hq, hfound⟩
        · rw [Table.get?_insert] at h
          split at h
          · rename_i hname
            exact Or.inr ⟨p, List.mem_cons_self .., hname, Option.some.inj h⟩
          · exact Or.inl h
        · exact Or.inr ⟨q, List.mem_cons_of_mem _ hq, hfound⟩
  exact (hfold {} h).resolve_left nofun

theorem List.exists_mem_left_of_forall₂ {α β : Type} {R : α → β → Prop} {as : List α} {bs : List β}
    (h : List.Forall₂ R as bs) {b : β} (hb : b ∈ bs) : ∃ a ∈ as, R a b := by
  induction h with
  | nil => cases hb
  | cons hab _ ih =>
      rcases List.mem_cons.mp hb with rfl | hb
      · exact ⟨_, List.mem_cons_self .., hab⟩
      · obtain ⟨a, ha, hR⟩ := ih hb
        exact ⟨a, List.mem_cons_of_mem _ ha, hR⟩

theorem List.exists_mem_right_of_forall₂ {α β : Type} {R : α → β → Prop} {as : List α} {bs : List β}
    (h : List.Forall₂ R as bs) {a : α} (ha : a ∈ as) : ∃ b ∈ bs, R a b :=
  List.exists_mem_left_of_forall₂ h.flip ha

/-- The state holds the declarations and nothing else that is defined. -/
structure Declarations.Assembled (d : Declarations) (x : Context) (t : Assembly) (ps : List Placed) : Prop where
  sound : t.Sound
  grown : Model.initial.Extends t.model
  declared : x.declared = Placed.table ps
  ids : ps.map (·.id) = (List.range' 1 ps.length).map ClassId.mk
  places : List.Forall₂ t.model.IsPlace d.elements ps
  outer : ∀ p ∈ ps, (t.model.entry p.id).outer = p.owner.class?
  nested : ∀ p ∈ ps, (t.model.entry p.id).nested.values = (ps.filter (·.owner = .class p.id)).map (·.id)
  defined : ∀ c, (t.model.entry c).origin = .defined → c ∈ ps.map (·.id)
  built : ∀ p ∈ ps, p.Built x t (t.model.entry p.id)

namespace Declarations

open Assembly

theorem nodup_of_ids {ps : List Placed} (h : ps.map (·.id) = (List.range' 1 ps.length).map ClassId.mk) :
    (ps.map (·.id)).Nodup := by
  rw [h]
  exact (List.nodup_range' _ Nat.one_pos).map fun i j hij ↦ congrArg ClassId.index hij

theorem Assembled.nodup {d : Declarations} {x : Context} {t : Assembly} {ps : List Placed} (h : d.Assembled x t ps) :
    (ps.map (·.id)).Nodup :=
  nodup_of_ids h.ids

theorem sound_initial : Sound ⟨.initial, []⟩ := ⟨.initial, Model.declarative_initial, fun _ _ h ↦ nomatch h⟩

/-- The stages of building: the types are placed, then they get their members, and then the defaults and the
annotations are set. -/
structure Stages (d : Declarations) (policy : UnresolvedPolicy) (ps : List Placed) (s s₁ s₂ t : Assembly) : Prop where
  enters : Enters ⟨.initial, []⟩ s ps d.elements
  ready : ∀ p ∈ ps, s.Ready ⟨policy, Placed.table ps⟩ p.id
  filling : (ps.forM (Context.mk policy (Placed.table ps)).fill).Yields s ⟨⟩ s₁
  sound : s₁.Sound
  developed : s.Developed s₁
  filled : ∀ p ∈ ps, p.type.Filled ⟨policy, Placed.table ps⟩ p.scope s₁ p.id (s₁.model.entry p.id)
  defaults : (ps.forM fun p ↦ p.defaults.forM (Context.mk policy (Placed.table ps)).setDefault).Yields s₁ ⟨⟩ s₂
  annotations : (ps.forM fun p ↦ p.deferred.forM (Context.mk policy (Placed.table ps)).annotate).Yields s₂ ⟨⟩ t

namespace Stages

variable {policy : UnresolvedPolicy} {d : Declarations} {ps : List Placed} {s s₁ s₂ t : Assembly}

theorem ids (h : d.Stages policy ps s s₁ s₂ t) : ps.map (·.id) = (List.range' 1 ps.length).map ClassId.mk :=
  h.enters.placing.ids

theorem nodup (h : d.Stages policy ps s s₁ s₂ t) : (ps.map (·.id)).Nodup := nodup_of_ids h.ids

/-- Every class is ready for the defaults and the annotations. -/
theorem ready_filled (h : d.Stages policy ps s s₁ s₂ t) : ∀ p ∈ ps, s₁.Ready ⟨policy, Placed.table ps⟩ p.id :=
  fun p hp ↦ (h.ready p hp).later h.sound h.developed.later

/-- The state after the defaults, and what each class is then. -/
theorem defaulted (h : d.Stages policy ps s s₁ s₂ t) : s₂.Sound ∧ s₁.Developed s₂ ∧
    ∀ p ∈ ps, ∃ vs : List (Nat × AnnotationValue),
      s₂.model.entry p.id = vs.foldl (fun e w ↦ e.withDefault w.1 w.2) (s₁.model.entry p.id) ∧
        List.Forall₂ (fun d w ↦ w.1 = d.method ∧
          d.Found ⟨policy, Placed.table ps⟩ (s₁.model.entry p.id) s₂ w.2) p.defaults vs :=
  Developed.forM (fun p e ↦ e.methods.length = p.type.methods.length)
    (fun k p e f ↦ ∃ vs : List (Nat × AnnotationValue), f = vs.foldl (fun e w ↦ e.withDefault w.1 w.2) e ∧
      List.Forall₂ (fun d w ↦ w.1 = d.method ∧ d.Found ⟨policy, Placed.table ps⟩ e k w.2) p.defaults vs)
    (fun _ _ _ _ _ _ ⟨vs, hf, hvs⟩ ht ↦ ⟨vs, hf, hvs.imp fun _ _ h ↦ ⟨h.1, h.2.later ht⟩⟩)
    (fun p _ k l hk hlength hstep ↦ by
      obtain ⟨vs, hchanges, hvs⟩ := Context.changes_defaults hk hlength hstep
      exact ⟨_, hchanges, vs, rfl, hvs⟩)
    h.nodup h.sound h.ready_filled (fun p hp ↦ (h.filled p hp).methods.length_eq.symm) h.defaults

/-- The state after the annotations, and what each class is then. -/
theorem annotated (h : d.Stages policy ps s s₁ s₂ t) : t.Sound ∧ s₂.Developed t ∧
    ∀ p ∈ ps, ∃ us : List (AnnotationTarget × AnnotationUse),
      t.model.entry p.id = us.foldl (fun e w ↦ e.annotate w.1 w.2) (s₂.model.entry p.id) ∧
        List.Forall₂ (fun a w ↦ w.1 = a.target ∧
          t.Finds (Context.useOf ⟨policy, Placed.table ps⟩ a.written) w.2) p.deferred us := by
  obtain ⟨hsound, hdev, -⟩ := h.defaulted
  have hready : ∀ p ∈ ps, s₂.Ready ⟨policy, Placed.table ps⟩ p.id := fun p hp ↦
    (h.ready_filled p hp).later hsound hdev.later
  exact Developed.forM (fun _ _ ↦ True)
    (fun k p e f ↦ ∃ us : List (AnnotationTarget × AnnotationUse), f = us.foldl (fun e w ↦ e.annotate w.1 w.2) e ∧
      List.Forall₂ (fun a w ↦ w.1 = a.target ∧ k.Finds (Context.useOf ⟨policy, Placed.table ps⟩ a.written) w.2)
        p.deferred us)
    (fun _ _ _ _ _ _ ⟨us, hf, hus⟩ ht ↦ ⟨us, hf, hus.imp fun _ _ h ↦ ⟨h.1, h.2.later ht⟩⟩)
    (fun p _ k l hk _ hstep ↦ by
      obtain ⟨us, hchanges, hus⟩ := Context.changes_annotations hk hstep
      exact ⟨_, hchanges, us, rfl, hus⟩)
    h.nodup hsound hready (fun _ _ ↦ trivial) h.annotations

theorem developed_all (h : d.Stages policy ps s s₁ s₂ t) : s.Developed t :=
  (h.developed.trans h.defaulted.2.1).trans h.annotated.2.1

theorem mem_ids_iff (h : d.Stages policy ps s s₁ s₂ t) (c : ClassId) :
    c ∈ ps.map (·.id) ↔ 1 ≤ c.index ∧ c.index < 1 + ps.length := by
  rw [h.ids, List.mem_map, ← List.mem_range'_1]
  exact ⟨fun ⟨i, hi, h⟩ ↦ h ▸ hi, fun h ↦ ⟨c.index, h, rfl⟩⟩

/-- Nothing is defined that was not placed. -/
theorem mem_ids_of_defined (h : d.Stages policy ps s s₁ s₂ t) {c : ClassId}
    (hc : (t.model.entry c).origin = .defined) : c ∈ ps.map (·.id) := by
  have hknown : s.model.Knows c := by
    by_contra hnew
    refine h.developed_all.fresh c ?_ hnew hc
    by_contra hunknown
    rw [Model.entry_of_not_knows hunknown] at hc
    cases hc
  have horigin : (s.model.entry c).origin = .defined :=
    (h.developed_all.later.grown.sameOrigin c hknown).origin ▸ hc
  refine (h.mem_ids_iff c).mpr ⟨Nat.pos_of_ne_zero fun hzero ↦ ?_, h.enters.placing.length ▸ hknown⟩
  -- the class that all classes extend is the first one, and it is not defined
  have hobject : c = Model.object := ClassId.eq_of_index_eq hzero
  have hsame := h.enters.placing.grown.sameOrigin Model.object (by decide)
  rw [hobject, hsame.origin] at horigin
  cases horigin

theorem nested_eq (h : d.Stages policy ps s s₁ s₂ t) {p : Placed} (hp : p ∈ ps) :
    (t.model.entry p.id).nested.values = (ps.filter (·.owner = .class p.id)).map (·.id) := by
  have hnew : ¬ Model.initial.Knows p.id := fun hknows ↦ by
    have hle := (h.mem_ids_iff p.id).mp (List.mem_map_of_mem hp)
    simp only [Model.Knows, Model.initial, List.length_singleton] at hknows
    omega
  rw [h.developed_all.nested_eq p.id (h.ready p hp).knows (h.ready p hp).origin_eq, h.enters.placing.nested,
    Model.entry_of_not_knows hnew]
  rfl

theorem built (h : d.Stages policy ps s s₁ s₂ t) {p : Placed} (hp : p ∈ ps) :
    p.Built ⟨policy, Placed.table ps⟩ t (t.model.entry p.id) := by
  obtain ⟨-, hdev, hdefaulted⟩ := h.defaulted
  obtain ⟨-, hdev', hannotated⟩ := h.annotated
  obtain ⟨vs, hvs, hvsFound⟩ := hdefaulted p hp
  obtain ⟨us, hus, husFound⟩ := hannotated p hp
  refine ⟨s₁.model.entry p.id, vs, us, (h.filled p hp).later (hdev.trans hdev').later, ?_, husFound, ?_⟩
  · exact hvsFound.imp fun _ _ h ↦ ⟨h.1, h.2.later hdev'.later⟩
  · rw [hus, hvs]

theorem assembled (h : d.Stages policy ps s s₁ s₂ t) : d.Assembled ⟨policy, Placed.table ps⟩ t ps where
  sound := h.annotated.1
  grown := h.enters.placing.grown.trans h.developed_all.later.grown
  declared := rfl
  ids := h.ids
  places := h.enters.places.imp fun _ _ he ↦ he.later h.developed_all.later.grown h.enters.sound.wellFormed
  outer := fun p hp ↦ by
    rw [(h.developed_all.later.grown.sameOrigin p.id (h.ready p hp).knows).outer]
    exact (h.enters.placing.new p hp).outer_eq
  nested := fun _ hp ↦ h.nested_eq hp
  defined := fun _ hc ↦ h.mem_ids_of_defined hc
  built := fun _ hp ↦ h.built hp

end Stages

/-- The types are placed and get their members. -/
theorem filled_of_place {policy : UnresolvedPolicy} {d : Declarations} {ps : List Placed} {s s₁ : Assembly}
    (hplace : d.place.Yields ⟨.initial, []⟩ ps s) {u : PUnit}
    (hfill : (ps.forM (Context.mk policy (Placed.table ps)).fill).Yields s u s₁) :
    Enters ⟨.initial, []⟩ s ps d.elements ∧ (∀ p ∈ ps, s.Ready ⟨policy, Placed.table ps⟩ p.id) ∧ s₁.Sound ∧
      s.Developed s₁ ∧
      ∀ p ∈ ps, p.type.Filled ⟨policy, Placed.table ps⟩ p.scope s₁ p.id (s₁.model.entry p.id) := by
  have henters := enters_of_place sound_initial hplace
  have hnodup : (ps.map (·.id)).Nodup := nodup_of_ids henters.placing.ids
  -- every class is ready for work
  have hstands : ∀ p ∈ ps, s.model.Knows p.id ∧ (s.model.entry p.id).origin = .defined := fun p hp ↦ by
    obtain ⟨e, -, he⟩ := List.exists_mem_left_of_forall₂ henters.places hp
    obtain ⟨_, _, hrepresents, -, -⟩ := List.forall₂_cons_left_iff.mp he.stands.chain
    exact ⟨he.stands.knows, hrepresents.origin⟩
  let x : Context := ⟨policy, Placed.table ps⟩
  have hknown : x.KnownTo s.model := fun name c hc ↦ by
    obtain ⟨p, hp, -, rfl⟩ := Placed.of_get?_table hc
    exact (hstands p hp).1
  have hready : ∀ p ∈ ps, s.Ready x p.id := fun p hp ↦
    ⟨henters.sound, hknown, (hstands p hp).1, (hstands p hp).2⟩
  obtain ⟨hsound₁, hdev₁, hfilled⟩ := Developed.forM (fun p e ↦ e.IsBlank p.type.modifiers)
    (fun k p _ e ↦ p.type.Filled x p.scope k p.id e) (fun _ _ _ _ _ _ h ht ↦ h.later ht)
    (fun p _ k l hk hblank hstep ↦ Context.filled_of_fill hk hblank hstep) hnodup henters.sound hready
    (fun p hp ↦ (henters.placing.new p hp).entry) hfill
  exact ⟨henters, hready, hsound₁, hdev₁, hfilled⟩

theorem stages_of_assemble {policy : UnresolvedPolicy} {d : Declarations} {classes : List ClassId} {t : Assembly}
    (h : (d.assemble policy).Yields ⟨.initial, []⟩ classes t) :
    ∃ ps s s₁ s₂, d.Stages policy ps s s₁ s₂ t ∧ classes = (ps.filter (·.isTopLevel)).map (·.id) := by
  simp only [assemble, Assemble.yields_bind, Assemble.yields_pure] at h
  obtain ⟨ps, s, hplace, _, s₁, hfill, _, s₂, hdefaults, _, _, hannotations, rfl, rfl⟩ := h
  obtain ⟨henters, hready, hsound₁, hdev₁, hfilled⟩ := filled_of_place hplace hfill
  exact ⟨ps, s, s₁, s₂, ⟨henters, hready, hfill, hsound₁, hdev₁, hfilled, hdefaults, hannotations⟩, rfl⟩

theorem exists_build_eq_ok {policy : UnresolvedPolicy} {d : Declarations} (h : (d.build policy).isOk = true) :
    ∃ m classes, d.build policy = .ok (m, classes) := by
  cases hbuild : d.build policy with
  | error e =>
      rw [hbuild] at h
      cases h
  | ok r => exact ⟨r.1, r.2, rfl⟩

theorem yields_of_build {policy : UnresolvedPolicy} {d : Declarations} {m : Model} {classes : List ClassId}
    (h : d.build policy = .ok (m, classes)) :
    ∃ t, (d.assemble policy).Yields ⟨.initial, []⟩ classes t ∧ t.model = m := by
  have hexec : d.buildInto policy .initial =
      (((d.assemble policy).exec ⟨.initial, []⟩).1, ((d.assemble policy).exec ⟨.initial, []⟩).2.model) := rfl
  rw [build, hexec] at h
  rcases hrun : (d.assemble policy).exec ⟨.initial, []⟩ with ⟨_ | classes', t⟩
  · rw [hrun] at h
    cases h
  · rw [hrun] at h
    cases h
    exact ⟨t, hrun, rfl⟩

theorem assembled_of_assemble {policy : UnresolvedPolicy} {d : Declarations} {classes : List ClassId} {t : Assembly}
    (h : (d.assemble policy).Yields ⟨.initial, []⟩ classes t) :
    ∃ ps, d.Assembled ⟨policy, Placed.table ps⟩ t ps ∧ classes = (ps.filter (·.isTopLevel)).map (·.id) := by
  obtain ⟨ps, _, _, _, hstages, hclasses⟩ := stages_of_assemble h
  exact ⟨ps, hstages.assembled, hclasses⟩

theorem stages_of_build {policy : UnresolvedPolicy} {d : Declarations} {m : Model} {classes : List ClassId}
    (h : d.build policy = .ok (m, classes)) :
    ∃ ps s s₁ s₂ t, d.Stages policy ps s s₁ s₂ t ∧ t.model = m ∧ classes = (ps.filter (·.isTopLevel)).map (·.id) := by
  obtain ⟨t, hyields, hmodel⟩ := yields_of_build h
  obtain ⟨ps, s, s₁, s₂, hstages, hclasses⟩ := stages_of_assemble hyields
  exact ⟨ps, s, s₁, s₂, t, hstages, hmodel, hclasses⟩

theorem assembled_of_build {policy : UnresolvedPolicy} {d : Declarations} {m : Model} {classes : List ClassId}
    (h : d.build policy = .ok (m, classes)) :
    ∃ t ps, d.Assembled ⟨policy, Placed.table ps⟩ t ps ∧ t.model = m ∧
      classes = (ps.filter (·.isTopLevel)).map (·.id) := by
  obtain ⟨t, hyields, hmodel⟩ := yields_of_build h
  obtain ⟨ps, hassembled, hclasses⟩ := assembled_of_assemble hyields
  exact ⟨t, ps, hassembled, hmodel, hclasses⟩

end Declarations
end JavaSource
