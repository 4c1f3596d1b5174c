import JavaSource.Proofs.Declaration.Carried
import JavaSource.Proofs.Declaration.Shapes
import JavaSource.Proofs.Model.MemberNames

/-!
# Where annotations and defaults land

An annotation that has to wait says what it stands on by its place in the class: a field by name, a method by
position, a parameter by the position of its method and its own. Everything that waited stands in the end on what it
was written on, in the order in which it was written, and nothing else stands there.
-/

namespace JavaSource

/-! ## Lists of keyed parts -/

/-- Of parts under different keys, only those of one key pass. -/
theorem List.filter_flatMap_of_nodup {α β γ : Type} {key : α → γ} {l : List α} (hnodup : (l.map key).Nodup) {a : α}
    (ha : a ∈ l) {g : α → List β} {q : β → Bool}
    (h : ∀ b ∈ l, key b ≠ key a → ∀ y ∈ g b, q y = false) :
    (l.flatMap g).filter q = (g a).filter q := by
  obtain ⟨before, after, rfl⟩ := List.append_of_mem ha
  have hapart : ∀ b ∈ before ++ after, key b ≠ key a := by
    intro b hb heq
    rw [List.map_append, List.map_cons, List.nodup_middle, ← List.map_append] at hnodup
    exact (List.nodup_cons.mp hnodup).1 (heq ▸ List.mem_map_of_mem hb)
  have hnone : ∀ bs, bs ⊆ before ++ after → (bs.flatMap g).filter q = [] := by
    intro bs hbs
    apply List.filter_eq_nil_iff.mpr
    intro y hy
    obtain ⟨b, hb, hy⟩ := List.mem_flatMap.mp hy
    have hmem : b ∈ before ++ a :: after := by
      have := hbs hb
      simp only [List.mem_append, List.mem_cons] at this ⊢
      tauto
    rw [h b hmem (hapart b (hbs hb)) y hy]
    exact Bool.false_ne_true
  rw [List.flatMap_append, List.flatMap_cons, List.filter_append, List.filter_append,
    hnone before (List.subset_append_left _ _), hnone after (List.subset_append_right _ _), List.nil_append,
    List.append_nil]

theorem List.nodup_zipIdx_snd {α : Type} (l : List α) : (l.zipIdx.map Prod.snd).Nodup := by
  rw [List.zipIdx_map_snd]
  exact List.nodup_range' _ Nat.one_pos

theorem List.forall₂_of_getElem? {α β : Type} {R : α → β → Prop} {as : List α} {bs : List β}
    (hlength : as.length = bs.length) (h : ∀ (i : Nat) a b, as[i]? = some a → bs[i]? = some b → R a b) :
    List.Forall₂ R as bs := by
  rw [List.forall₂_iff_get]
  refine ⟨hlength, fun i ha hb ↦ ?_⟩
  exact h i _ _ (List.getElem?_eq_getElem ha) (List.getElem?_eq_getElem hb)

theorem List.exists_getElem?_of_forall₂ {α β : Type} {R : α → β → Prop} {as : List α} {bs : List β}
    (h : List.Forall₂ R as bs) {i : Nat} {a : α} (ha : as[i]? = some a) : ∃ b, bs[i]? = some b ∧ R a b := by
  obtain ⟨hi, rfl⟩ := List.getElem?_eq_some_iff.mp ha
  have hi' : i < bs.length := h.length_eq ▸ hi
  exact ⟨bs[i], List.getElem?_eq_getElem hi', h.get hi hi'⟩

theorem Option.Rel.imp {α β : Type} {R Q : α → β → Prop} (hR : ∀ a b, R a b → Q a b) {a : Option α} {b : Option β}
    (h : Option.Rel R a b) : Option.Rel Q a b := by
  cases h with
  | some h => exact .some (hR _ _ h)
  | none => exact .none

/-! ## What stands on a part of a class -/

@[simp] theorem Method.allParams_modifyParam (m : Method) (j : Nat) (f : Param → Param) :
    (m.modifyParam j f).allParams = m.allParams.modify j f := by
  refine List.ext_getElem? fun k ↦ ?_
  unfold modifyParam allParams
  split
  · rename_i hj
    subst hj
    simp only [List.getElem?_modify, List.getElem?_append]
    split
    · rename_i hk
      simp [Nat.ne_of_gt hk]
    · cases m.varargs with
      | none => simp
      | some p =>
          by_cases hk : k = m.params.length
          · simp [hk]
          · have hk' : k - m.params.length ≠ 0 := by omega
            simp [Ne.symm hk, hk']
  · rename_i hj
    simp only [List.getElem?_modify, List.getElem?_append, List.length_modify]
    split
    · rfl
    · rename_i hk
      split
      · subst_vars
        have hlt : ¬ k - m.params.length < m.varargs.toList.length := by
          cases m.varargs <;> simp; omega
        simp [List.getElem?_eq_none (Nat.not_lt.mp hlt)]
      · simp

namespace ClassEntry

variable (e : ClassEntry)

/-- The annotations on a part of a class, if the class has the part. -/
def usesAt? : AnnotationTarget → Option (List AnnotationUse)
  | .type => some e.annotations
  | .field name => (e.field? name).map (·.annotations)
  | .method i => e.methods[i]?.map (·.annotations)
  | .param i j => (e.methods[i]?.bind (·.allParams[j]?)).map (·.annotations)

/-- The default of the method at a position, if there is the method. -/
def defaultAt? (i : Nat) : Option (Option AnnotationValue) := e.methods[i]?.map (·.defaultValue)

theorem field?_modifyField {f : Field → Field} (hf : ∀ x, (f x).name = x.name) (name other : String) :
    (e.modifyField name f).field? other = (e.field? other).map fun x ↦ if name = other then f x else x := by
  have hname : ∀ x : Field, (if x.name = name then f x else x).name = x.name := by
    intro x
    split
    · exact hf x
    · rfl
  simp only [field?, modifyField, List.find?_map, Function.comp_def, hname]
  cases hx : e.fields.find? (·.name = other) with
  | none => rfl
  | some x =>
      have hother : x.name = other := by simpa using List.find?_some hx
      simp [hother, eq_comm]

theorem field?_eq_some (he : e.fieldNames.Nodup) {f : Field} (hf : f ∈ e.fields) : e.field? f.name = some f := by
  cases hx : e.field? f.name with
  | none => exact absurd (List.find?_eq_none.mp hx f hf) (by simp)
  | some g =>
      have hname : g.name = f.name := by simpa using List.find?_some hx
      rw [List.inj_on_of_nodup_map he (List.mem_of_find?_eq_some hx) hf hname]

/-- An annotation comes behind those on its own part and leaves the other parts alone. -/
theorem usesAt?_annotate (target part : AnnotationTarget) (u : AnnotationUse) :
    (e.annotate target u).usesAt? part = (e.usesAt? part).map fun us ↦ if target = part then us ++ [u] else us := by
  cases target with
  | type => cases part <;> simp [usesAt?, annotate, field?, Function.comp_def]
  | field name =>
      cases part with
      | field other =>
          have hname : ∀ x : Field, (x.annotate u).name = x.name := fun _ ↦ rfl
          simp only [usesAt?, annotate, field?_modifyField e hname]
          by_cases h : name = other <;> simp [h, Field.annotate, Function.comp_def]
      | type | method i | param i j => simp [usesAt?, annotate, modifyField, Function.comp_def]
  | method i =>
      cases part with
      | method k =>
          by_cases h : i = k <;> simp [usesAt?, annotate, modifyMethod, h, Method.annotate, Function.comp_def]
      | param k j =>
          have hparams : ∀ m : Method, (m.annotate u).allParams = m.allParams := fun _ ↦ rfl
          cases hm : e.methods[k]? with
          | none => simp [usesAt?, annotate, modifyMethod, List.getElem?_modify, hm]
          | some m => by_cases h : i = k <;> simp [usesAt?, annotate, modifyMethod, hm, h, hparams, Function.comp_def]
      | type | field name => simp [usesAt?, annotate, modifyMethod, field?, Function.comp_def]
  | param i j =>
      have hown : ∀ m : Method, (m.modifyParam j (·.annotate u)).annotations = m.annotations := fun m ↦ by
        unfold Method.modifyParam
        split <;> rfl
      cases part with
      | method k =>
          cases hm : e.methods[k]? with
          | none => simp [usesAt?, annotate, modifyMethod, List.getElem?_modify, hm]
          | some m => by_cases h : i = k <;> simp [usesAt?, annotate, modifyMethod, hm, h, hown]
      | param k l =>
          cases hm : e.methods[k]? with
          | none => simp [usesAt?, annotate, modifyMethod, List.getElem?_modify, hm]
          | some m =>
              by_cases h : i = k
              · by_cases hj : j = l <;>
                  simp [usesAt?, annotate, modifyMethod, hm, h, hj, Param.annotate, Function.comp_def]
              · simp [usesAt?, annotate, modifyMethod, hm, h, Function.comp_def]
      | type | field name => simp [usesAt?, annotate, modifyMethod, field?, Function.comp_def]

theorem usesAt?_foldl_annotate (us : List (AnnotationTarget × AnnotationUse)) (part : AnnotationTarget) :
    (us.foldl (fun e w ↦ e.annotate w.1 w.2) e).usesAt? part =
      (e.usesAt? part).map (· ++ (us.filter (·.1 = part)).map (·.2)) := by
  induction us generalizing e with
  | nil => simp
  | cons w us ih =>
      rw [List.foldl_cons, ih, usesAt?_annotate, Option.map_map]
      by_cases hw : w.1 = part <;> simp [hw, Function.comp_def]

theorem usesAt?_withDefault (i : Nat) (v : AnnotationValue) (part : AnnotationTarget) :
    (e.withDefault i v).usesAt? part = e.usesAt? part := by
  have hget : ∀ k : Nat, (e.withDefault i v).methods[k]? =
      e.methods[k]?.map fun m ↦ if i = k then { m with defaultValue := some v } else m := fun k ↦
    List.getElem?_modify ..
  cases part with
  | type | field name => rfl
  | method k =>
      simp only [usesAt?, hget]
      cases e.methods[k]? with
      | none => rfl
      | some m => by_cases h : i = k <;> simp [h]
  | param k j =>
      simp only [usesAt?, hget]
      cases e.methods[k]? with
      | none => rfl
      | some m => by_cases h : i = k <;> simp [h, Method.allParams]

theorem usesAt?_foldl_withDefault (vs : List (Nat × AnnotationValue)) (part : AnnotationTarget) :
    (vs.foldl (fun e w ↦ e.withDefault w.1 w.2) e).usesAt? part = e.usesAt? part := by
  induction vs generalizing e with
  | nil => rfl
  | cons w vs ih => rw [List.foldl_cons, ih, usesAt?_withDefault]

theorem defaultAt?_annotate (target : AnnotationTarget) (u : AnnotationUse) (i : Nat) :
    (e.annotate target u).defaultAt? i = e.defaultAt? i := by
  have h := congrArg (·[i]?) (e.defaults_annotate target u)
  simp only [defaults, List.getElem?_map] at h
  exact h

theorem defaultAt?_foldl_annotate (us : List (AnnotationTarget × AnnotationUse)) (i : Nat) :
    (us.foldl (fun e w ↦ e.annotate w.1 w.2) e).defaultAt? i = e.defaultAt? i := by
  induction us generalizing e with
  | nil => rfl
  | cons w us ih => rw [List.foldl_cons, ih, defaultAt?_annotate]

theorem defaultAt?_withDefault (i j : Nat) (v : AnnotationValue) :
    (e.withDefault i v).defaultAt? j = (e.defaultAt? j).map fun old ↦ if i = j then some v else old := by
  by_cases h : i = j <;>
    simp [defaultAt?, withDefault, modifyMethod, h, Function.comp_def]

theorem defaultAt?_foldl_withDefault (vs : List (Nat × AnnotationValue)) (i : Nat) :
    (vs.foldl (fun e w ↦ e.withDefault w.1 w.2) e).defaultAt? i =
      (e.defaultAt? i).map fun old ↦ (vs.filter (·.1 = i)).foldl (fun _ w ↦ some w.2) old := by
  induction vs generalizing e with
  | nil => simp
  | cons w vs ih =>
      rw [List.foldl_cons, ih, defaultAt?_withDefault, Option.map_map]
      by_cases hw : w.1 = i <;> simp [hw, Function.comp_def]

end ClassEntry

/-! ## What waits for a part -/

theorem MethodDeclaration.target_of_mem_deferred {d : MethodDeclaration} {c : ClassId} {i : Nat}
    {a : DeferredAnnotation} (h : a ∈ d.deferred c i) : a.target = .method i ∨ ∃ j, a.target = .param i j := by
  rcases List.mem_append.mp h with h | h
  · obtain ⟨_, -, rfl⟩ := List.mem_map.mp h
    exact Or.inl rfl
  · obtain ⟨⟨_, j⟩, -, h⟩ := List.mem_flatMap.mp h
    obtain ⟨_, -, rfl⟩ := List.mem_map.mp h
    exact Or.inr ⟨j, rfl⟩

theorem DeferredAnnotation.filter_eq_nil {l : List DeferredAnnotation} (part : AnnotationTarget)
    (h : ∀ a ∈ l, a.target ≠ part) : l.filter (·.target = part) = [] := by
  apply List.filter_eq_nil_iff.mpr
  intro a ha
  simpa using h a ha

theorem DeferredAnnotation.filter_map_mk (c : ClassId) (part : AnnotationTarget) (l : List WrittenAnnotation) :
    (l.map (⟨c, part, ·⟩) : List DeferredAnnotation).filter (·.target = part) = l.map (⟨c, part, ·⟩) := by
  simp [List.filter_map, Function.comp_def]

theorem MethodDeclaration.deferred_own (d : MethodDeclaration) (c : ClassId) (i : Nat) :
    (d.deferred c i).filter (·.target = .method i) = d.annotations.map (⟨c, .method i, ·⟩) := by
  rw [deferred, List.filter_append, DeferredAnnotation.filter_map_mk, List.append_right_eq_self]
  apply DeferredAnnotation.filter_eq_nil
  intro a ha
  obtain ⟨_, -, ha⟩ := List.mem_flatMap.mp ha
  obtain ⟨_, -, rfl⟩ := List.mem_map.mp ha
  exact fun h ↦ AnnotationTarget.noConfusion h

theorem MethodDeclaration.deferred_param (d : MethodDeclaration) (c : ClassId) (i : Nat) {j : Nat}
    {p : ParamDeclaration} (hp : d.params[j]? = some p) :
    (d.deferred c i).filter (·.target = .param i j) = p.annotations.map (⟨c, .param i j, ·⟩) := by
  have hown := DeferredAnnotation.filter_eq_nil (.param i j)
    (l := d.annotations.map (⟨c, .method i, ·⟩)) fun a ha ↦ by
      obtain ⟨_, -, rfl⟩ := List.mem_map.mp ha
      exact fun h ↦ AnnotationTarget.noConfusion h
  have hmem : (p, j) ∈ d.params.zipIdx := List.mk_mem_zipIdx_iff_getElem?.mpr hp
  rw [deferred, List.filter_append, hown, List.nil_append,
    List.filter_flatMap_of_nodup (List.nodup_zipIdx_snd d.params) hmem, DeferredAnnotation.filter_map_mk]
  intro r _ hr a ha
  obtain ⟨_, -, rfl⟩ := List.mem_map.mp ha
  simpa using hr

namespace Placed

variable (p : Placed)

/-! What waits is on a field, on or in a method, or on the type itself. -/

theorem filter_deferred_fields (part : AnnotationTarget) (hpart : ∀ name, part ≠ .field name) :
    (p.type.fields.flatMap fun f ↦ f.annotations.map (⟨p.id, .field f.name, ·⟩) : List DeferredAnnotation).filter
      (·.target = part) = [] := by
  apply DeferredAnnotation.filter_eq_nil
  intro a ha
  obtain ⟨f, -, ha⟩ := List.mem_flatMap.mp ha
  obtain ⟨_, -, rfl⟩ := List.mem_map.mp ha
  exact Ne.symm (hpart f.name)

theorem filter_deferred_methods (part : AnnotationTarget) (hmethod : ∀ i, part ≠ .method i)
    (hparam : ∀ i j, part ≠ .param i j) :
    (p.type.methods.zipIdx.flatMap fun (d, i) ↦ d.deferred p.id i).filter (·.target = part) = [] := by
  apply DeferredAnnotation.filter_eq_nil
  intro a ha
  obtain ⟨⟨d, i⟩, -, ha⟩ := List.mem_flatMap.mp ha
  rcases MethodDeclaration.target_of_mem_deferred ha with h | ⟨j, h⟩
  · exact h ▸ Ne.symm (hmethod i)
  · exact h ▸ Ne.symm (hparam i j)

theorem filter_deferred_type (part : AnnotationTarget) (hpart : part ≠ .type) :
    (p.type.annotations.map (⟨p.id, .type, ·⟩) : List DeferredAnnotation).filter (·.target = part) = [] := by
  apply DeferredAnnotation.filter_eq_nil
  intro a ha
  obtain ⟨_, -, rfl⟩ := List.mem_map.mp ha
  exact Ne.symm hpart

theorem deferred_own : p.deferred.filter (·.target = .type) = p.type.annotations.map (⟨p.id, .type, ·⟩) := by
  rw [deferred, List.filter_append, List.filter_append, p.filter_deferred_fields .type nofun,
    p.filter_deferred_methods .type nofun nofun, DeferredAnnotation.filter_map_mk, List.nil_append, List.nil_append]

theorem deferred_field (hnodup : (p.type.fields.map (·.name)).Nodup) {f : FieldDeclaration}
    (hf : f ∈ p.type.fields) :
    p.deferred.filter (·.target = .field f.name) = f.annotations.map (⟨p.id, .field f.name, ·⟩) := by
  have hself := List.filter_flatMap_of_nodup hnodup hf
    (g := fun f ↦ (f.annotations.map (⟨p.id, .field f.name, ·⟩) : List DeferredAnnotation))
    (q := (·.target = .field f.name)) fun g _ hg a ha ↦ by
      obtain ⟨_, -, rfl⟩ := List.mem_map.mp ha
      simpa using hg
  rw [deferred, List.filter_append, List.filter_append, hself, p.filter_deferred_methods (.field f.name) nofun nofun,
    p.filter_deferred_type (.field f.name) nofun, DeferredAnnotation.filter_map_mk, List.append_nil, List.append_nil]

/-- What waits for a method or one of its parameters comes from the declaration of the method. -/
theorem deferred_method {i : Nat} {d : MethodDeclaration} (hd : p.type.methods[i]? = some d)
    {part : AnnotationTarget} (hpart : part = .method i ∨ ∃ j, part = .param i j) :
    p.deferred.filter (·.target = part) = (d.deferred p.id i).filter (·.target = part) := by
  have hmem : (d, i) ∈ p.type.methods.zipIdx := List.mk_mem_zipIdx_iff_getElem?.mpr hd
  have hself := List.filter_flatMap_of_nodup (List.nodup_zipIdx_snd p.type.methods) hmem
    (g := fun (d, i) ↦ d.deferred p.id i) (q := (·.target = part)) fun r _ hr a ha ↦ by
      rcases MethodDeclaration.target_of_mem_deferred ha with h | ⟨j, h⟩ <;>
        rcases hpart with rfl | ⟨k, rfl⟩ <;> simp_all
  have hfield : ∀ name, part ≠ .field name := by rcases hpart with rfl | ⟨j, rfl⟩ <;> exact nofun
  have htype : part ≠ .type := by rcases hpart with rfl | ⟨j, rfl⟩ <;> exact nofun
  rw [deferred, List.filter_append, List.filter_append, p.filter_deferred_fields part hfield, hself,
    p.filter_deferred_type part htype, List.nil_append, List.append_nil]

theorem defaults_method {i : Nat} {d : MethodDeclaration} (hd : p.type.methods[i]? = some d) :
    p.defaults.filter (·.method = i) = d.defaultValue.toList.map (⟨p.id, i, ·⟩) := by
  have hmem : (d, i) ∈ p.type.methods.zipIdx := List.mk_mem_zipIdx_iff_getElem?.mpr hd
  have hself := List.filter_flatMap_of_nodup (List.nodup_zipIdx_snd p.type.methods) hmem
    (g := fun (d, i) ↦ (d.defaultValue.map (DeferredDefault.mk p.id i)).toList) (q := (·.method = i))
    fun r _ hr a ha ↦ by
      obtain ⟨_, -, rfl⟩ := Option.map_eq_some_iff.mp (Option.mem_toList.mp ha)
      simpa using hr
  rw [defaults, List.filterMap_eq_flatMap_toList, hself]
  cases h : d.defaultValue <;> simp [h]

end Placed

/-! ## Everything where it was written -/

/-- The annotations of a method and of its parameters are those of the declaration, one for one and in order, and the
method has a default if and only if the declaration has one. -/
structure MethodDeclaration.Bears (R : WrittenAnnotation → AnnotationUse → Prop)
    (Q : Method → WrittenValue → AnnotationValue → Prop) (d : MethodDeclaration) (m : Method) : Prop where
  annotations : List.Forall₂ R d.annotations m.annotations
  params : List.Forall₂ (fun p q ↦ List.Forall₂ R p.annotations q.annotations) d.params m.allParams
  default : Option.Rel (Q m) d.defaultValue m.defaultValue

/-- The annotations of a class and of its members are those of the declared type, one for one and in order, and so are
the defaults of its methods. -/
structure TypeDeclaration.Bears (R : WrittenAnnotation → AnnotationUse → Prop)
    (Q : Method → WrittenValue → AnnotationValue → Prop) (d : TypeDeclaration) (e : ClassEntry) : Prop where
  annotations : List.Forall₂ R d.annotations e.annotations
  fields : List.Forall₂ (fun f g ↦ List.Forall₂ R f.annotations g.annotations) d.fields e.fields
  methods : List.Forall₂ (MethodDeclaration.Bears R Q) d.methods e.methods

/-- The uses that stand on a method and on its parameters. -/
def Method.uses (m : Method) : List AnnotationUse := m.annotations ++ m.allParams.flatMap (·.annotations)

/-- The uses that stand on a class and on its members. -/
def ClassEntry.uses (e : ClassEntry) : List AnnotationUse :=
  e.annotations ++ e.fields.flatMap (·.annotations) ++ e.methods.flatMap Method.uses

namespace TypeDeclaration.Bears

variable {R R' : WrittenAnnotation → AnnotationUse → Prop} {Q Q' : Method → WrittenValue → AnnotationValue → Prop}
  {d : TypeDeclaration} {e : ClassEntry}

theorem imp (h : d.Bears R Q e) (hR : ∀ a u, R a u → R' a u) (hQ : ∀ m ∈ e.methods, ∀ w v, Q m w v → Q' m w v) :
    d.Bears R' Q' e where
  annotations := h.annotations.imp hR
  fields := h.fields.imp fun _ _ hf ↦ hf.imp hR
  methods := by
    refine List.forall₂_iff_get.mpr ⟨h.methods.length_eq, fun i hi hi' ↦ ?_⟩
    have hm := h.methods.get hi hi'
    have hdefault := Option.Rel.imp (fun w v ↦ hQ _ (List.get_mem _ _) w v) hm.default
    exact ⟨hm.annotations.imp hR, hm.params.imp fun _ _ hp ↦ hp.imp hR, hdefault⟩

/-- Every use on a class or a member was written somewhere. -/
theorem exists_of_mem_uses (h : d.Bears R Q e) {u : AnnotationUse} (hu : u ∈ e.uses) : ∃ a, R a u := by
  have hwritten : ∀ {l : List WrittenAnnotation} {us : List AnnotationUse}, List.Forall₂ R l us → u ∈ us → ∃ a, R a u :=
    fun hl hmem ↦ (List.exists_mem_left_of_forall₂ hl hmem).imp fun _ ha ↦ ha.2
  rcases List.mem_append.mp hu with hu | hu
  · rcases List.mem_append.mp hu with hu | hu
    · exact hwritten h.annotations hu
    · obtain ⟨g, hg, hu⟩ := List.mem_flatMap.mp hu
      obtain ⟨f, -, hf⟩ := List.exists_mem_left_of_forall₂ h.fields hg
      exact hwritten hf hu
  · obtain ⟨m, hm, hu⟩ := List.mem_flatMap.mp hu
    obtain ⟨d, -, hd⟩ := List.exists_mem_left_of_forall₂ h.methods hm
    rcases List.mem_append.mp hu with hu | hu
    · exact hwritten hd.annotations hu
    · obtain ⟨q, hq, hu⟩ := List.mem_flatMap.mp hu
      obtain ⟨p, -, hp⟩ := List.exists_mem_left_of_forall₂ hd.params hq
      exact hwritten hp hu

theorem exists_of_default (h : d.Bears R Q e) {m : Method} (hm : m ∈ e.methods) {v : AnnotationValue}
    (hv : m.defaultValue = some v) : ∃ w, Q m w v := by
  obtain ⟨d, -, hd⟩ := List.exists_mem_left_of_forall₂ h.methods hm
  have hdefault := hd.default
  rw [hv] at hdefault
  generalize d.defaultValue = w at hdefault
  cases hdefault with
  | some hw => exact ⟨_, hw⟩

end TypeDeclaration.Bears

/-- A method that was only added bears nothing yet. -/
theorem MethodDeclaration.Found.blank {x : Context} {outer : Scope} {c : ClassId} {s : Assembly}
    {d : MethodDeclaration} {m : Method} (h : d.Found x outer c s m) :
    m.annotations = [] ∧ (∀ q ∈ m.allParams, q.annotations = []) ∧ m.defaultValue = none := by
  obtain ⟨-, typeParams, returnType, params, throws, -, -, -, -, rfl⟩ := h
  refine ⟨rfl, ?_, rfl⟩
  intro q hq
  rcases List.mem_append.mp hq with hq | hq
  · obtain ⟨_, -, rfl⟩ := List.mem_map.mp hq
    rfl
  · unfold toMethod at hq
    split at hq
    · obtain ⟨_, -, rfl⟩ := Option.map_eq_some_iff.mp (Option.mem_toList.mp hq)
      rfl
    · cases hq

theorem Method.allParams_stripped (m : Method) : m.stripped.allParams = m.allParams.map Param.stripped := by
  cases h : m.varargs <;> simp [stripped, allParams, h]

namespace Placed.Built

variable {x : Context} {s : Assembly} {p : Placed} {bare e : ClassEntry} {vs : List (Nat × AnnotationValue)}
  {us : List (AnnotationTarget × AnnotationUse)}

/-- What waited for a part is what stands on it. -/
theorem exists_usesAt?
    (he : e = us.foldl (fun e w ↦ e.annotate w.1 w.2) (vs.foldl (fun e w ↦ e.withDefault w.1 w.2) bare))
    (hus : List.Forall₂ (fun a (w : AnnotationTarget × AnnotationUse) ↦
      w.1 = a.target ∧ s.Finds (x.useOf a.written) w.2) p.deferred us)
    {part : AnnotationTarget} {l : List WrittenAnnotation}
    (hl : p.deferred.filter (·.target = part) = l.map (⟨p.id, part, ·⟩)) (hnone : bare.usesAt? part = some []) :
    ∃ ws, e.usesAt? part = some ws ∧ List.Forall₂ (fun a u ↦ s.Finds (x.useOf a) u) l ws := by
  refine ⟨(us.filter (·.1 = part)).map (·.2), ?_, ?_⟩
  · rw [he, ClassEntry.usesAt?_foldl_annotate, ClassEntry.usesAt?_foldl_withDefault, hnone]
    simp
  · have hfilter : List.Forall₂ _ (p.deferred.filter (·.target = part)) (us.filter (·.1 = part)) :=
      List.rel_filter (fun a w ha ↦ by simp [ha.1]) hus
    rw [hl, List.forall₂_map_left_iff] at hfilter
    exact List.forall₂_map_right_iff.mpr (hfilter.imp fun _ _ h ↦ h.2)

/-- The default of a method is the one that waited for it, if there was one. -/
theorem exists_defaultAt?
    (he : e = us.foldl (fun e w ↦ e.annotate w.1 w.2) (vs.foldl (fun e w ↦ e.withDefault w.1 w.2) bare))
    (hvs : List.Forall₂ (fun d (w : Nat × AnnotationValue) ↦ w.1 = d.method ∧ d.Found x bare s w.2) p.defaults vs)
    {i : Nat} {d : MethodDeclaration} (hd : p.type.methods[i]? = some d) (hnone : bare.defaultAt? i = some none) :
    ∃ v, e.defaultAt? i = some v ∧
      Option.Rel (fun w v ↦ DeferredDefault.Found x bare s ⟨p.id, i, w⟩ v) d.defaultValue v := by
  refine ⟨(vs.filter (·.1 = i)).foldl (fun _ w ↦ some w.2) none, ?_, ?_⟩
  · rw [he, ClassEntry.defaultAt?_foldl_annotate, ClassEntry.defaultAt?_foldl_withDefault, hnone]
    rfl
  · have hfilter : List.Forall₂ _ (p.defaults.filter (·.method = i)) (vs.filter (·.1 = i)) :=
      List.rel_filter (fun a w ha ↦ by simp [ha.1]) hvs
    rw [p.defaults_method hd] at hfilter
    cases hw : d.defaultValue with
    | none =>
        rw [hw] at hfilter
        rw [List.forall₂_nil_left_iff.mp hfilter]
        exact .none
    | some w =>
        rw [hw] at hfilter
        obtain ⟨v, rest, hfound, hrest, heq⟩ := List.forall₂_cons_left_iff.mp hfilter
        rw [heq, List.forall₂_nil_left_iff.mp hrest]
        exact .some hfound.2

end Placed.Built

/-- Annotations and defaults are where they were written. -/
theorem Placed.Built.bears {x : Context} {s : Assembly} {p : Placed} {e : ClassEntry} (hs : s.Sound) (h : p.Built x s e)
    (hnodup : e.fieldNames.Nodup) :
    p.type.Bears (fun a u ↦ s.Finds (x.useOf a) u)
      (fun m w v ↦ s.Finds (x.valueOf m.name (m.returnType.bind s.model.memberHint) w) v) e := by
  obtain ⟨bare, vs, us, hfilled, hvs, hus, he⟩ := h
  have hstripped : e.stripped = bare.stripped := by
    rw [he]
    exact bare.stripped_foldl vs us
  constructor
  case annotations =>
    obtain ⟨ws, hws, hfound⟩ := exists_usesAt? he hus p.deferred_own (by simp [ClassEntry.usesAt?, hfilled.annotations])
    obtain rfl : e.annotations = ws := by simpa [ClassEntry.usesAt?] using hws
    exact hfound
  case fields =>
    have hnames : e.fieldNames = bare.fieldNames := by
      have h := congrArg (fun e ↦ e.fields.map (·.name)) hstripped
      simpa [ClassEntry.stripped, Field.stripped, Function.comp_def, ClassEntry.fieldNames] using h
    have hwritten : bare.fieldNames = p.type.fields.map (·.name) :=
      List.map_eq_of_forall₂ (hfilled.fields.imp fun _ _ h ↦ by
        obtain ⟨_, _, hf⟩ := h
        rw [hf])
    have hsame : e.fields.map (·.name) = p.type.fields.map (·.name) := hnames.trans hwritten
    have hlength : p.type.fields.length = e.fields.length := by
      have h := congrArg List.length hsame
      simpa using h.symm
    refine List.forall₂_of_getElem? hlength fun i f g hf hg ↦ ?_
    have hname : g.name = f.name := by
      have h := congrArg (·[i]?) hsame
      simpa [hf, hg] using h
    replace hf := List.mem_of_getElem? hf
    replace hg := List.mem_of_getElem? hg
    have hnone : bare.usesAt? (.field f.name) = some [] := by
      have hin : f.name ∈ bare.fieldNames := hwritten ▸ List.mem_map_of_mem hf
      obtain ⟨b, hb⟩ := Option.isSome_iff_exists.mp (ClassEntry.isSome_field?_iff.mpr hin)
      obtain ⟨_, -, _, -, rfl⟩ := List.exists_mem_left_of_forall₂ hfilled.fields (List.mem_of_find?_eq_some hb)
      simp [ClassEntry.usesAt?, hb]
    obtain ⟨ws, hws, hfound⟩ := exists_usesAt? he hus (p.deferred_field (hwritten ▸ hnames ▸ hnodup) hf) hnone
    have hfield := e.field?_eq_some hnodup hg
    rw [hname] at hfield
    obtain rfl : g.annotations = ws := by simpa [ClassEntry.usesAt?, hfield] using hws
    exact hfound
  case methods =>
    have hmethods : e.methods.map Method.stripped = bare.methods.map Method.stripped := congrArg (·.methods) hstripped
    have hlength : p.type.methods.length = e.methods.length := by
      have h := congrArg List.length hmethods
      simp only [List.length_map] at h
      rw [hfilled.methods.length_eq, h]
    refine List.forall₂_of_getElem? hlength fun i d m hd hm ↦ ?_
    obtain ⟨b, hb, hbfound⟩ := List.exists_getElem?_of_forall₂ hfilled.methods hd
    obtain ⟨hbown, hbparams, hbdefault⟩ := hbfound.blank
    have hmb : m.stripped = b.stripped := by
      have h := congrArg (·[i]?) hmethods
      simpa [hm, hb] using h
    have hparams : m.allParams.map Param.stripped = b.allParams.map Param.stripped := by
      rw [← m.allParams_stripped, hmb, b.allParams_stripped]
    constructor
    case annotations =>
      have hnone : bare.usesAt? (.method i) = some [] := by simp [ClassEntry.usesAt?, hb, hbown]
      have hl := (p.deferred_method hd (Or.inl rfl)).trans (d.deferred_own p.id i)
      obtain ⟨ws, hws, hfound⟩ := exists_usesAt? he hus hl hnone
      obtain rfl : m.annotations = ws := by simpa [ClassEntry.usesAt?, hm] using hws
      exact hfound
    case params =>
      have hcount : d.params.length = m.allParams.length := by
        have hdeclared := congrArg List.length (MethodDeclaration.declares_of_found hs hbfound).params
        have hsame := congrArg List.length hparams
        simp only [List.length_map] at hdeclared hsame
        rw [hsame, hdeclared]
      refine List.forall₂_of_getElem? hcount fun j q r hq hr ↦ ?_
      have hnone : bare.usesAt? (.param i j) = some [] := by
        have h := congrArg (·[j]?) hparams
        simp only [List.getElem?_map, hr, Option.map_some] at h
        obtain ⟨b', hb', -⟩ := Option.map_eq_some_iff.mp h.symm
        simp [ClassEntry.usesAt?, hb, hb', hbparams b' (List.mem_of_getElem? hb')]
      have hl := (p.deferred_method hd (Or.inr ⟨j, rfl⟩)).trans (d.deferred_param p.id i hq)
      obtain ⟨ws, hws, hfound⟩ := exists_usesAt? he hus hl hnone
      obtain rfl : r.annotations = ws := by simpa [ClassEntry.usesAt?, hm, hr] using hws
      exact hfound
    case default =>
      have hnone : bare.defaultAt? i = some none := by simp [ClassEntry.defaultAt?, hb, hbdefault]
      obtain ⟨v, hv, hrel⟩ := exists_defaultAt? he hvs hd hnone
      obtain rfl : m.defaultValue = v := by simpa [ClassEntry.defaultAt?, hm] using hv
      have hname : m.name = b.name := congrArg (·.name) hmb
      have hreturn : m.returnType = b.returnType := congrArg (·.returnType) hmb
      refine Option.Rel.imp (fun w v hfound ↦ ?_) hrel
      obtain ⟨b', hb', -, hfinds⟩ := hfound
      obtain rfl := Option.some.inj (hb.symm.trans hb')
      rw [hname, hreturn]
      exact hfinds

theorem Declarations.Assembled.bears {d : Declarations} {x : Context} {s : Assembly} {ps : List Placed}
    (h : d.Assembled x s ps) {p : Placed} (hp : p ∈ ps) :
    p.type.Bears (fun a u ↦ s.Finds (x.useOf a) u)
      (fun m w v ↦ s.Finds (x.valueOf m.name (m.returnType.bind s.model.memberHint) w) v) (s.model.entry p.id) :=
  (h.built p hp).bears h.sound (h.sound.reachable.nodup_fieldNames p.id)

end JavaSource
