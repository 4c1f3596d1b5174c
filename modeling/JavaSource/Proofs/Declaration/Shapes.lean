import JavaSource.Proofs.Declaration.Annotating

/-!
# The shapes that are kept

The shape of an annotation is derived when it is first looked at and kept from then on. No shape is looked at
before all members are there, so what is kept is what would be derived in the end, unless the annotation got
defaults afterwards.
-/

namespace JavaSource

/-! ## Steps that look at no shape -/

namespace Assemble

/-- The step leaves the shapes as they are. -/
def KeepsShapes {α : Type} (a : Assemble α) : Prop := ∀ s v t, a.Yields s v t → t.shapes = s.shapes

namespace KeepsShapes

variable {α β : Type} {a : Assemble α}

theorem pure (v : α) : KeepsShapes (Pure.pure v : Assemble α) := by
  intro s w t h
  rw [(yields_pure.mp h).2]

theorem throw (e : DeclarationError) : KeepsShapes (MonadExcept.throw e : Assemble α) :=
  fun _ _ _ h ↦ absurd h yields_throw

theorem bind {f : α → Assemble β} (ha : KeepsShapes a) (hf : ∀ v, KeepsShapes (f v)) : KeepsShapes (a >>= f) := by
  intro s w t h
  obtain ⟨v, k, hv, hw⟩ := yields_bind.mp h
  rw [hf v k w t hw, ha s v k hv]

theorem map (ha : KeepsShapes a) (g : α → β) : KeepsShapes (g <$> a) := by
  intro s w t h
  obtain ⟨v, hv, -⟩ := yields_map.mp h
  exact ha s v t hv

theorem model : KeepsShapes Assemble.model := by
  intro s v t h
  rw [(yields_model.mp h).2]

theorem ofExcept (x : Except ModelError α) : KeepsShapes (Assemble.ofExcept x) := by
  intro s v t h
  rw [(yields_ofExcept.mp h).2]

theorem build (b : Build α) : KeepsShapes (Assemble.build b) := by
  intro s v t h
  obtain ⟨m, -, rfl⟩ := yields_build.mp h
  rfl

theorem update (c : ClassId) (f : ClassEntry → Except ModelError ClassEntry) : KeepsShapes (Assemble.update c f) :=
  build _

theorem modify (c : ClassId) (f : ClassEntry → ClassEntry) : KeepsShapes (Assemble.modify c f) := build _

theorem forM {f : α → Assemble PUnit} (hf : ∀ v, KeepsShapes (f v)) (l : List α) : KeepsShapes (l.forM f) := by
  induction l with
  | nil => exact pure _
  | cons v l ih => exact bind (hf v) fun _ ↦ ih

theorem mapM {f : α → Assemble β} (hf : ∀ v, KeepsShapes (f v)) (l : List α) : KeepsShapes (l.mapM f) := by
  induction l with
  | nil => exact pure _
  | cons v l ih =>
      rw [List.mapM_cons]
      exact bind (hf v) fun w ↦ bind ih fun ws ↦ pure _

end KeepsShapes
end Assemble

namespace Context

open Assemble

variable (x : Context)

theorem keepsShapes_classOf (name : String) : KeepsShapes (x.classOf name) := by
  unfold classOf
  split
  · exact .pure _
  · exact .build _

mutual

theorem keepsShapes_typeOf (scope : Scope) : ∀ w : WrittenType, KeepsShapes (x.typeOf scope w)
  | .primitive name => by
      rw [typeOf]
      split
      · exact .pure _
      · exact .throw _
  | .declared name args => by
      rw [typeOf]
      refine .bind (x.keepsShapes_classOf name) fun c ↦ ?_
      split
      · exact .pure _
      · exact .bind (keepsShapes_typesOf scope args) fun ts ↦ .ofExcept _
  | .array w => by
      rw [typeOf]
      exact .bind (keepsShapes_typeOf scope w) fun t ↦ .ofExcept _
  | .typeVar name => by
      rw [typeOf]
      split
      · exact .pure _
      · exact .throw _
  | .wildcard none none => by
      rw [typeOf]
      exact .pure _
  | .wildcard (some upper) none => by
      rw [typeOf]
      exact .map (keepsShapes_typeOf scope upper) _
  | .wildcard none (some lower) => by
      rw [typeOf]
      exact .map (keepsShapes_typeOf scope lower) _
  | .wildcard (some _) (some _) => by
      rw [typeOf]
      exact .throw _
  | .unresolved name => by
      rw [typeOf]
      split
      · exact .throw _
      · exact .map (.build _) _

theorem keepsShapes_typesOf (scope : Scope) : ∀ ws : List WrittenType, KeepsShapes (x.typesOf scope ws)
  | [] => by
      rw [typesOf]
      exact .pure _
  | w :: ws => by
      rw [typesOf]
      exact .bind (keepsShapes_typeOf scope w) fun t ↦ .bind (keepsShapes_typesOf scope ws) fun ts ↦ .pure _

end

theorem keepsShapes_typeOf? (scope : Scope) (w : Option WrittenType) : KeepsShapes (x.typeOf? scope w) := by
  cases w with
  | none => exact .pure _
  | some w => exact .map (x.keepsShapes_typeOf scope w) _

theorem keepsShapes_addParams (c : ClassId) (i : Nat) (hasVarargs : Bool) :
    ∀ ps : List TypedParam, KeepsShapes (addParams c i hasVarargs ps)
  | [] => .pure _
  | [_] => .update _ _
  | _ :: q :: ps => .bind (.update _ _) fun _ ↦ keepsShapes_addParams c i hasVarargs (q :: ps)

theorem keepsShapes_addMethod (outer : Scope) (c : ClassId) (d : MethodDeclaration) :
    KeepsShapes (x.addMethod outer c d) := by
  have hsignature : ∀ returnType, KeepsShapes (addSignature c d returnType) := fun returnType ↦ by
    unfold addSignature
    split
    · exact .modify _ _
    · exact .update _ _
  refine .bind .model fun m ↦ .bind (.mapM (fun p ↦ ?_) _) fun typeParams ↦ ?_
  · exact .bind (x.keepsShapes_typeOf? _ _) fun _ ↦ .pure _
  refine .bind (x.keepsShapes_typeOf? _ _) fun returnType ↦ .bind (.mapM (fun p ↦ ?_) _) fun params ↦ ?_
  · exact .bind (x.keepsShapes_typeOf _ _) fun _ ↦ .pure _
  refine .bind (x.keepsShapes_typesOf _ _) fun throws ↦ .bind (hsignature _) fun _ ↦ ?_
  refine .bind (.forM (fun _ ↦ .update _ _) _) fun _ ↦ .bind (keepsShapes_addParams _ _ _ _) fun _ ↦ .modify _ _

theorem keepsShapes_fill (p : Placed) : KeepsShapes (x.fill p) := by
  refine .bind (.forM (fun d ↦ .bind ?_ fun v ↦ .update _ _) _) fun _ ↦ .bind ?_ fun _ ↦ ?_
  · exact .bind (x.keepsShapes_typeOf? _ _) fun _ ↦ .pure _
  · cases p.type.superclass with
    | none => exact .pure _
    | some w =>
        refine .bind (x.keepsShapes_typeOf _ _) fun t ↦ .bind .model fun m ↦ ?_
        split
        · exact .update _ _
        · exact .pure _
  refine .bind (.forM (fun t ↦ .bind (x.keepsShapes_typeOf _ _) fun _ ↦ .update _ _) _) fun _ ↦ ?_
  refine .bind (.modify _ _) fun _ ↦ .bind (.forM (fun _ ↦ .update _ _) _) fun _ ↦ ?_
  refine .bind (.forM (fun d ↦ ?_) _) fun _ ↦ .forM (fun d ↦ x.keepsShapes_addMethod _ _ d) _
  exact .bind (x.keepsShapes_typeOf _ _) fun t ↦ .bind (.update _ _) fun _ ↦ .modify _ _

end Context

/-! ## Where shapes come from -/

namespace Assembly

variable {x : Context} {names others : List String} {s t k : Assembly}

/-- Every shape that came in on the way to the second state was derived on the way, for an annotation of one of the
names. -/
def Derives (x : Context) (names : List String) (s t : Assembly) : Prop :=
  ∀ c shape, t.shapes.lookup c = some shape → s.shapes.lookup c = some shape ∨
    ∃ k, s.Looked k ∧ k.Looked t ∧ k.Sound ∧ k.model.Knows c ∧ shape = k.model.declaredShape? c ∧
      ∃ name ∈ names, (x.classOf name).Yields k c k

namespace Derives

theorem of_shapes_eq (h : t.shapes = s.shapes) : Derives x names s t := fun _ _ hc ↦ Or.inl (h ▸ hc)

theorem trans (h : Derives x names s k) (hs : s.Looked k) (ht : Derives x others k t) (hk : k.Looked t) :
    Derives x (names ++ others) s t := by
  intro c shape hc
  rcases ht c shape hc with hc | ⟨j, hkj, hjt, hj, hknown, hshape, name, hname, hclass⟩
  · rcases h c shape hc with hc | ⟨j, hsj, hjk, hj, hknown, hshape, name, hname, hclass⟩
    · exact Or.inl hc
    · exact Or.inr ⟨j, hsj, hjk.trans hk, hj, hknown, hshape, name, List.mem_append_left _ hname, hclass⟩
  · exact Or.inr ⟨j, hs.trans hkj, hjt, hj, hknown, hshape, name, List.mem_append_right _ hname, hclass⟩

end Derives

end Assembly

namespace Context

open Assembly

variable {x : Context} {s t : Assembly}

theorem derives_shape? {name : String} {k : Assembly} {c : ClassId} {shape : Option AnnotationShape} (hs : s.Sound)
    (hx : x.KnownTo s.model) (hc : (x.classOf name).Yields s c k) (h : (Assemble.shape? c).Yields k shape t) :
    Derives x [name] s t := by
  have hclass := looks_classOf hs hx name c k hc
  have hlook := looks_shape? hclass.sound c shape t h
  have hkeep := x.keepsShapes_classOf name s c k hc
  intro d shape' hd
  rcases yields_shape?.mp h with ⟨-, rfl⟩ | ⟨-, rfl, rfl⟩
  · exact Or.inl (hkeep ▸ hd)
  · rw [List.lookup_cons] at hd
    cases hdc : d == c with
    | true =>
        rw [hdc] at hd
        obtain rfl : d = c := by simpa using hdc
        exact Or.inr ⟨k, hclass.looked, hlook.looked, hclass.sound, hclass.good, (Option.some.inj hd).symm, name,
          List.mem_singleton_self _, hclass.again k (.refl k) hclass.sound⟩
    | false =>
        rw [hdc] at hd
        exact Or.inl (hkeep ▸ hd)

/-- The shapes that came in with a use are those of the annotations in it. -/
theorem derives_useOf_of_values {a : WrittenAnnotation} (hs : s.Sound) (hx : x.KnownTo s.model)
    (hvalues : ∀ {shape : Option AnnotationShape} {vs : List (String × AnnotationValue)} {k l : Assembly}, k.Sound →
      x.KnownTo k.model → KnownShape k.model shape → (x.valuesOf shape a.values).Yields k vs l →
        Derives x (WrittenValue.annotationsIn a.values) k l)
    {u : AnnotationUse} (h : (x.useOf a).Yields s u t) :
    Derives x a.names s t := by
  simp only [useOf, Assemble.yields_bind, Assemble.yields_ofExcept] at h
  obtain ⟨c, k, hc, shape, l, hshape, vs, _, hvs, -, rfl⟩ := h
  have hclass := looks_classOf hs hx a.type c k hc
  have hlook := looks_shape? hclass.sound c shape l hshape
  have hfirst := hclass.looked.trans hlook.looked
  have hx' := hx.later hfirst.grown
  have hrest := looks_valuesOf shape a.values hlook.sound hx' hlook.good vs _ hvs
  exact (derives_shape? hs hx hc hshape).trans hfirst (hvalues hlook.sound hx' hlook.good hvs) hrest.looked

mutual

theorem derives_valueOf (member : String) : ∀ (w : WrittenValue) {hint : Option MemberKind} {v : AnnotationValue}
    {s t : Assembly}, s.Sound → x.KnownTo s.model → (∀ e ∈ MemberKind.enumsOf hint, s.model.Knows e) →
    (x.valueOf member hint w).Yields s v t → Derives x w.annotations s t
  | .bool _, hint, v, s, t, _, _, _, h | .int _, hint, v, s, t, _, _, _, h | .float _, hint, v, s, t, _, _, _, h
  | .char _, hint, v, s, t, _, _, _, h | .long _, hint, v, s, t, _, _, _, h => by
      rw [valueOf, Assemble.yields_pure] at h
      exact .of_shapes_eq (by rw [h.2])
  | .string str, hint, v, s, t, _, _, _, h => by
      rw [valueOf] at h
      split at h
      · exact .of_shapes_eq (by rw [(Assemble.yields_pure.mp h).2])
      · exact absurd h Assemble.yields_throw
  | .classLiteral w, hint, v, s, t, _, _, _, h => by
      rw [valueOf] at h
      exact .of_shapes_eq ((x.keepsShapes_typeOf _ w).map _ s v t h)
  | .enumConstant type constant, hint, v, s, t, _, _, _, h => by
      rw [valueOf] at h
      exact .of_shapes_eq ((x.keepsShapes_classOf type).bind (fun _ ↦ .pure _) s v t h)
  | .array items, hint, v, s, t, hs, hx, hh, h => by
      rw [valueOf] at h
      obtain ⟨vs, hvs, -⟩ := Assemble.yields_map.mp h
      exact derives_itemsOf member items hs hx (MemberKind.enumsOf_itemKind hint ▸ hh) hvs
  | .nested type values, hint, v, s, t, hs, hx, _, h => by
      obtain ⟨u, hu, -⟩ := yields_nested.mp h
      exact derives_useOf_of_values hs hx (derives_valuesOf values) hu

theorem derives_itemsOf (member : String) : ∀ (ws : List WrittenValue) {hint : Option MemberKind}
    {vs : List AnnotationValue} {s t : Assembly}, s.Sound → x.KnownTo s.model →
    (∀ e ∈ MemberKind.enumsOf hint, s.model.Knows e) → (x.itemsOf member hint ws).Yields s vs t →
      Derives x (WrittenValue.annotationsEach ws) s t
  | [], hint, vs, s, t, _, _, _, h => by
      rw [itemsOf, Assemble.yields_pure] at h
      exact .of_shapes_eq (by rw [h.2])
  | w :: ws, hint, vs, s, t, hs, hx, hh, h => by
      rw [itemsOf] at h
      split at h
      · obtain ⟨_, _, h, -⟩ := Assemble.yields_bind.mp h
        exact absurd h Assemble.yields_throw
      · simp only [Assemble.yields_bind, Assemble.yields_pure] at h
        obtain ⟨v, k, hv, us, _, hus, -, rfl⟩ := h
        have hsaw := looks_valueOf member w hint hs hx hh v k hv
        have hx' := hx.later hsaw.looked.grown
        have hh' : ∀ e ∈ MemberKind.enumsOf hint, k.model.Knows e := fun e he ↦ hsaw.looked.grown.knows (hh e he)
        have hrest := looks_itemsOf member ws hint hsaw.sound hx' hh' us _ hus
        exact (derives_valueOf member w hs hx hh hv).trans hsaw.looked
          (derives_itemsOf member ws hsaw.sound hx' hh' hus) hrest.looked

theorem derives_valuesOf : ∀ (ws : List (String × WrittenValue)) {shape : Option AnnotationShape}
    {vs : List (String × AnnotationValue)} {s t : Assembly}, s.Sound → x.KnownTo s.model → KnownShape s.model shape →
    (x.valuesOf shape ws).Yields s vs t → Derives x (WrittenValue.annotationsIn ws) s t
  | [], shape, vs, s, t, _, _, _, h => by
      rw [valuesOf, Assemble.yields_pure] at h
      exact .of_shapes_eq (by rw [h.2])
  | (name, w) :: ws, shape, vs, s, t, hs, hx, hshape, h => by
      simp only [valuesOf, Assemble.yields_bind, Assemble.yields_pure] at h
      obtain ⟨v, k, hv, us, _, hus, -, rfl⟩ := h
      have hsaw := looks_valueOf name w _ hs hx (hshape.hint name) v k hv
      have hx' := hx.later hsaw.looked.grown
      have hshape' : KnownShape k.model shape := fun sh hsh ↦ (hshape sh hsh).later hsaw.looked.grown
      have hrest := looks_valuesOf shape ws hsaw.sound hx' hshape' us _ hus
      exact (derives_valueOf name w hs hx (hshape.hint name) hv).trans hsaw.looked
        (derives_valuesOf ws hsaw.sound hx' hshape' hus) hrest.looked

end

theorem derives_useOf {a : WrittenAnnotation} {u : AnnotationUse} (hs : s.Sound) (hx : x.KnownTo s.model)
    (h : (x.useOf a).Yields s u t) : Derives x a.names s t :=
  derives_useOf_of_values hs hx (derives_valuesOf a.values) h

end Context

/-! ## Shapes that stay true -/

namespace ClassEntry

theorem defaults_modifyMethod {f : Method → Method} (h : ∀ m, (f m).defaultValue = m.defaultValue) (e : ClassEntry)
    (i : Nat) : (e.modifyMethod i f).defaults = e.defaults :=
  List.map_modify_eq h _ i

theorem signatures_annotate (e : ClassEntry) (target : AnnotationTarget) (u : AnnotationUse) :
    (e.annotate target u).signatures = e.signatures := by
  cases target with
  | type | field name => rfl
  | method i => exact signatures_modifyMethod (f := (·.annotate u)) (fun _ ↦ rfl) (fun _ ↦ rfl) e i
  | param i j =>
      refine signatures_modifyMethod (fun m ↦ ?_) (fun m ↦ ?_) e i <;> unfold Method.modifyParam <;> split <;> rfl

theorem defaults_annotate (e : ClassEntry) (target : AnnotationTarget) (u : AnnotationUse) :
    (e.annotate target u).defaults = e.defaults := by
  cases target with
  | type | field name => rfl
  | method i => exact defaults_modifyMethod (f := (·.annotate u)) (fun _ ↦ rfl) e i
  | param i j =>
      refine defaults_modifyMethod (fun m ↦ ?_) e i
      unfold Method.modifyParam
      split <;> rfl

theorem defaults_foldl_annotate (us : List (AnnotationTarget × AnnotationUse)) (e : ClassEntry) :
    (us.foldl (fun e w ↦ e.annotate w.1 w.2) e).defaults = e.defaults := by
  induction us generalizing e with
  | nil => rfl
  | cons w us ih => exact (ih _).trans (e.defaults_annotate w.1 w.2)

end ClassEntry

namespace Assembly

variable {x : Context} {names : List String} {s t k : Assembly}

/-- The second state came of the first, and the defined classes kept their signatures. -/
structure Signed (s t : Assembly) : Prop extends Later s t where
  signatures_eq : ∀ d, s.model.Knows d → (s.model.entry d).origin = .defined →
    (t.model.entry d).signatures = (s.model.entry d).signatures

theorem Signed.trans (h : s.Signed k) (hk : k.Signed t) : s.Signed t where
  toLater := h.toLater.trans hk.toLater
  signatures_eq d hd hdefined := by
    have horigin := (h.grown.sameOrigin d hd).origin.trans hdefined
    rw [hk.signatures_eq d (h.grown.knows hd) horigin, h.signatures_eq d hd hdefined]

theorem Looked.signed (h : s.Looked t) : s.Signed t where
  toLater := h.toLater
  signatures_eq d hd hdefined := by rw [h.entry_eq d hd hdefined]

/-- A change to the entry of a class that keeps its signatures. -/
theorem Signed.modify {c : ClassId} {e : ClassEntry} (hsame : (s.model.entry c).SameOrigin e)
    (hsignatures : e.signatures = (s.model.entry c).signatures) :
    s.Signed { s with model := s.model.modifyClass c fun _ ↦ e } where
  grown := by
    refine ⟨by simp, Nat.le_refl _, fun d _ ↦ ?_, fun _ _ ↦ rfl⟩
    rw [Model.entry_modifyClass]
    split
    · rename_i hd
      exact hd.1 ▸ hsame
    · exact .refl _
  shapes _ _ h := h
  signatures_eq d _ _ := by
    rw [Model.entry_modifyClass]
    split
    · rename_i hd
      rw [hsignatures, hd.1]
    · rfl

/-- Every shape that is kept was derived when the defined classes had the members that they have now and the
annotation had the defaults that it has now. -/
def Faithful (t : Assembly) : Prop :=
  ∀ c shape, t.shapes.lookup c = some shape → ∃ k : Assembly, k.Sound ∧ k.Signed t ∧ k.model.Knows c ∧
    shape = k.model.declaredShape? c ∧
    ((k.model.entry c).origin = .defined → (t.model.entry c).defaults = (k.model.entry c).defaults)

theorem faithful_of_shapes_eq_nil (h : t.shapes = []) : t.Faithful := by
  intro c shape hc
  rw [h] at hc
  cases hc

/-- Looking things up, then changing an entry without touching the defaults of an annotation that was looked at. -/
theorem Faithful.step (h : s.Faithful) (hlook : s.Looked k) (hderives : Derives x names s k) (hkt : k.Signed t)
    (hshapes : t.shapes = k.shapes)
    (hdefaults : ∀ c shape, k.shapes.lookup c = some shape → k.model.Knows c → (k.model.entry c).origin = .defined →
      (t.model.entry c).defaults = (k.model.entry c).defaults) : t.Faithful := by
  intro c shape hc
  rw [hshapes] at hc
  -- a shape that was derived at `j` with the defaults that `c` has at `k`
  have hend : ∀ j : Assembly, j.Sound → j.Signed k → j.model.Knows c → shape = j.model.declaredShape? c →
      ((j.model.entry c).origin = .defined → (k.model.entry c).defaults = (j.model.entry c).defaults) →
      ∃ j : Assembly, j.Sound ∧ j.Signed t ∧ j.model.Knows c ∧ shape = j.model.declaredShape? c ∧
        ((j.model.entry c).origin = .defined → (t.model.entry c).defaults = (j.model.entry c).defaults) := by
    intro j hj hjk hknown hshape hsame
    refine ⟨j, hj, hjk.trans hkt, hknown, hshape, fun hdefined ↦ ?_⟩
    have horigin := (hjk.grown.sameOrigin c hknown).origin.trans hdefined
    rw [hdefaults c shape hc (hjk.grown.knows hknown) horigin, hsame hdefined]
  rcases hderives c shape hc with hold | ⟨j, -, hjk, hj, hknown, hshape, -⟩
  · obtain ⟨j, hj, hjs, hknown, hshape, hsame⟩ := h c shape hold
    refine hend j hj (hjs.trans hlook.signed) hknown hshape fun hdefined ↦ ?_
    have horigin := (hjs.grown.sameOrigin c hknown).origin.trans hdefined
    rw [hlook.entry_eq c (hjs.grown.knows hknown) horigin, hsame hdefined]
  · exact hend j hj hjk.signed hknown hshape fun hdefined ↦ by rw [hjk.entry_eq c hknown hdefined]

end Assembly

namespace Context

open Assembly

variable {x : Context} {s t : Assembly}

theorem faithful_annotate {a : DeferredAnnotation} (hs : s.Ready x a.id) (h : s.Faithful) {u : Unit}
    (hannotate : (x.annotate a).Yields s u t) : t.Faithful := by
  obtain ⟨w, k, hw, hmodify⟩ := Assemble.yields_bind.mp hannotate
  have hsaw := looks_useOf hs.sound hs.known a.written w k hw
  rw [Assemble.yields_modify] at hmodify
  subst hmodify
  refine h.step hsaw.looked (derives_useOf hs.sound hs.known hw) (.modify ?_ ?_) rfl fun c shape _ _ _ ↦ ?_
  · exact (MemberStep.reworked (s := .annotate a.target w) rfl).sameOrigin
  · exact ClassEntry.signatures_annotate _ _ _
  · rw [Model.entry_modifyClass]
    split
    · rename_i hc
      rw [ClassEntry.defaults_annotate, hc.1]
    · rfl

/-- A default is looked up and set. -/
theorem exists_of_setDefault {d : DeferredDefault} {u : Unit} (h : (x.setDefault d).Yields s u t) :
    t = s ∨ ∃ m v k, (s.model.entry d.id).methods[d.method]? = some m ∧
      (x.valueOf m.name (m.returnType.bind s.model.memberHint) d.value).Yields s v k ∧
      t = { k with model := k.model.modifyClass d.id fun _ ↦ (k.model.entry d.id).withDefault d.method v } := by
  simp only [setDefault, Assemble.yields_bind, Assemble.yields_model] at h
  obtain ⟨_, _, ⟨rfl, rfl⟩, h⟩ := h
  split at h
  · exact Or.inl (Assemble.yields_pure.mp h).2.symm
  · rename_i m hm
    obtain ⟨v, k, hv, hmodify⟩ := Assemble.yields_bind.mp h
    exact Or.inr ⟨m, v, k, hm, hv, Assemble.yields_modify.mp hmodify⟩

/-- Setting a default keeps the shapes faithful when its class is not one of the annotations that were looked at. -/
theorem faithful_setDefault {d : DeferredDefault} (hs : s.Ready x d.id) (h : s.Faithful) {u : Unit}
    (hset : (x.setDefault d).Yields s u t)
    (hnames : ∀ name ∈ d.value.annotations, ∀ (j : Assembly) (c : ClassId), s.Later j → j.Sound →
      (x.classOf name).Yields j c j → c ≠ d.id)
    (hold : ∀ c shape, s.shapes.lookup c = some shape → c ≠ d.id) :
    t.Faithful ∧ ∃ k, s.Looked k ∧ t.shapes = k.shapes ∧ Derives x d.value.annotations s k := by
  rcases exists_of_setDefault hset with rfl | ⟨m, v, k, hm, hv, rfl⟩
  · exact ⟨h, t, .refl t, rfl, .of_shapes_eq rfl⟩
  have hhint := hs.sound.wellFormed.knows_of_memberHint (List.mem_of_getElem? hm)
  have hsaw := looks_valueOf m.name d.value _ hs.sound hs.known hhint v k hv
  have hderives := derives_valueOf m.name d.value hs.sound hs.known hhint hv
  refine ⟨h.step hsaw.looked hderives (.modify ⟨rfl, rfl, rfl, rfl, rfl, rfl⟩ ?_) rfl fun c shape hc _ _ ↦ ?_,
    k, hsaw.looked, rfl, hderives⟩
  · exact ClassEntry.signatures_withDefault _ _ _
  · have hne : c ≠ d.id := by
      rcases hderives c shape hc with hc | ⟨j, hsj, -, hj, -, -, name, hname, hclass⟩
      · exact hold c shape hc
      · exact hnames name hname j c hsj.toLater hj hclass
    exact congrArg ClassEntry.defaults (Model.entry_modifyClass_ne _ hne.symm _)

/-- When no default holds an annotation of a class that gets defaults, all defaults are set and the shapes are
faithful. -/
theorem faithful_defaults {ps : List Placed} (hs : s.Sound)
    (hready : ∀ p ∈ ps, s.Ready x p.id ∧ (s.model.entry p.id).methods.length = p.type.methods.length)
    (hnone : s.shapes = [])
    (hnames : ∀ p ∈ ps, ∀ d ∈ p.defaults, ∀ name ∈ d.value.annotations, ∀ (j : Assembly) (c : ClassId), s.Later j →
      j.Sound → (x.classOf name).Yields j c j → ∀ q ∈ ps, q.defaults ≠ [] → c ≠ q.id)
    {u : PUnit} (h : (ps.forM fun p ↦ p.defaults.forM x.setDefault).Yields s u t) :
    t.Faithful ∧ t.Sound ∧ ∀ p ∈ ps, t.Ready x p.id := by
  let P (k : Assembly) : Prop := k.Faithful ∧ k.Sound ∧ s.Later k ∧
    (∀ p ∈ ps, k.Ready x p.id ∧ (k.model.entry p.id).methods.length = p.type.methods.length) ∧
    ∀ c shape, k.shapes.lookup c = some shape → ∀ q ∈ ps, q.defaults ≠ [] → c ≠ q.id
  have hstart : P s := ⟨faithful_of_shapes_eq_nil hnone, hs, .refl s, hready, fun c shape hc ↦ by
    rw [hnone] at hc
    cases hc⟩
  have hend : P t := by
    refine Assemble.forM_induction (fun p hp k l hk hl ↦ ?_) hstart h
    refine Assemble.forM_induction (fun d hd k l hk hl ↦ ?_) hk hl
    obtain ⟨hfaithful, hsound, hlater, hall, hapart⟩ := hk
    obtain ⟨hid, hlt⟩ := Placed.of_mem_defaults hd
    have hne : p.defaults ≠ [] := List.ne_nil_of_mem hd
    obtain ⟨hr, hlength⟩ := hall p hp
    have hr : k.Ready x d.id := hid ▸ hr
    obtain ⟨v, hchanges, -⟩ := changes_setDefault hr rfl (by rw [hid, hlength]; exact hlt) hl
    obtain ⟨hfaithful', j, hkj, hshapes, hderives⟩ := faithful_setDefault hr hfaithful hl
      (fun name hname j c hj hsound hc ↦ hid ▸ hnames p hp d hd name hname j c (hlater.trans hj) hsound hc p hp hne)
      (fun c shape hc ↦ hid ▸ hapart c shape hc p hp hne)
    have hready' := ready_of_setDefault hall hp hd hl
    refine ⟨hfaithful', hchanges.sound, hlater.trans hchanges.worked.later, hready', fun c shape hc ↦ ?_⟩
    rw [hshapes] at hc
    rcases hderives c shape hc with hc | ⟨i, hki, -, hi, -, -, name, hname, hclass⟩
    · exact hapart c shape hc
    · exact hnames p hp d hd name hname i c (hlater.trans hki.toLater) hi hclass
  exact ⟨hend.1, hend.2.1, fun p hp ↦ (hend.2.2.2.1 p hp).1⟩

end Context

end JavaSource
