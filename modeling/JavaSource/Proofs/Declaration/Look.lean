import JavaSource.Proofs.Declaration.Run
import JavaSource.Proofs.Model.Placeholder

/-!
# Looking up classes and types

A look at a name may enter classes that the model does not have yet, but it defines none and leaves the defined
ones alone. What it has found it finds again in every later state, and then it changes nothing. So a look that
was made while a model was built can be made again in the model that came of it.
-/

namespace JavaSource

/-- The enum types whose constants a member takes. -/
def MemberKind.enums : MemberKind → List ClassId
  | enum c => [c]
  | array k => k.enums
  | _ => []

/-- Whether the kinds in a shape are about classes of the model. -/
def Model.KnowsShape (m : Model) (shape : AnnotationShape) : Prop :=
  ∀ name member, shape.members.get? name = some member → ∀ e ∈ member.1.enums, m.Knows e

theorem Model.KnowsShape.later {m n : Model} {shape : AnnotationShape} (h : m.KnowsShape shape)
    (hn : m.Extends n) : n.KnowsShape shape :=
  fun name member hmember e he ↦ hn.knows (h name member hmember e he)

namespace Assembly

/-- The model is one that callers can build by declarations alone, and the shapes speak of its classes. -/
structure Sound (s : Assembly) : Prop where
  reachable : s.model.Reachable
  declarative : s.model.Declarative
  shapes : ∀ c shape, s.shapes.lookup c = some (some shape) → s.model.KnowsShape shape

/-- The second state came of the first. -/
structure Later (s t : Assembly) : Prop where
  grown : s.model.Extends t.model
  shapes : ∀ c shape, s.shapes.lookup c = some shape → t.shapes.lookup c = some shape

/-- The second state came of the first by looking things up. -/
structure Looked (s t : Assembly) : Prop extends Later s t where
  suffix : s.shapes <:+ t.shapes
  entry_eq : ∀ c, s.model.Knows c → (s.model.entry c).origin = .defined → t.model.entry c = s.model.entry c
  fresh : ∀ c, t.model.Knows c → ¬ s.model.Knows c → (t.model.entry c).origin ≠ .defined
  model_eq : t.model.classes.length ≤ s.model.classes.length →
    t.model.packages.length ≤ s.model.packages.length → t.model = s.model

variable {s t k u : Assembly}

theorem Sound.wellFormed (hs : s.Sound) : s.model.WellFormed := hs.reachable.wellFormed

theorem Later.refl (s : Assembly) : s.Later s := ⟨.refl _, fun _ _ h ↦ h⟩

theorem Later.trans (h : s.Later k) (hk : k.Later t) : s.Later t :=
  ⟨h.grown.trans hk.grown, fun c shape hc ↦ hk.shapes c shape (h.shapes c shape hc)⟩

theorem Looked.refl (s : Assembly) : s.Looked s where
  toLater := .refl s
  suffix := List.suffix_refl _
  entry_eq _ _ _ := rfl
  fresh _ hc hnew := absurd hc hnew
  model_eq _ _ := rfl

theorem Looked.trans (h : s.Looked k) (hk : k.Looked t) : s.Looked t where
  toLater := h.toLater.trans hk.toLater
  suffix := h.suffix.trans hk.suffix
  entry_eq c hc hdefined := by
    have hsame := h.entry_eq c hc hdefined
    rw [hk.entry_eq c (h.grown.knows hc) (hsame ▸ hdefined), hsame]
  fresh c hc hnew := by
    by_cases hck : k.model.Knows c
    · rw [(hk.grown.sameOrigin c hck).origin]
      exact h.fresh c hck hnew
    · exact hk.fresh c hc hck
  model_eq hclasses hpackages := by
    have hle₁ := h.grown.classes
    have hle₂ := h.grown.packages
    have hle₃ := hk.grown.classes
    have hle₄ := hk.grown.packages
    rw [hk.model_eq (by omega) (by omega), h.model_eq (by omega) (by omega)]

theorem Looked.antisymm (h : s.Looked t) (h' : t.Looked s) : t = s := by
  obtain ⟨m, shapes⟩ := s
  obtain ⟨n, shapes'⟩ := t
  have hmodel : n = m := h.model_eq h'.grown.classes h'.grown.packages
  have hshapes : shapes = shapes' := h.suffix.eq_of_length (Nat.le_antisymm h.suffix.length_le h'.suffix.length_le)
  rw [hmodel, hshapes]

/-- What a step saw: it looked things up, the answer is good, and it stays the answer. -/
structure Saw {α : Type} (s : Assembly) (a : Assemble α) (good : Model → α → Prop) (v : α) (t : Assembly) :
    Prop where
  looked : s.Looked t
  sound : t.Sound
  good : good t.model v
  again : ∀ u, t.Later u → u.Sound → a.Yields u v u

/-- All that a step does from a state on is to look things up. -/
def Looks {α : Type} (s : Assembly) (a : Assemble α) (good : Model → α → Prop) : Prop :=
  ∀ v t, a.Yields s v t → s.Saw a good v t

namespace Looks

variable {α β : Type} {a : Assemble α} {f : α → Assemble β} {good : Model → α → Prop}
  {better : Model → β → Prop}

theorem pure (hs : s.Sound) {v : α} (hv : good s.model v) : s.Looks (Pure.pure v) good := by
  intro w t h
  obtain ⟨rfl, rfl⟩ := Assemble.yields_pure.mp h
  exact ⟨.refl s, hs, hv, fun u _ _ ↦ Assemble.yields_pure.mpr ⟨rfl, rfl⟩⟩

theorem throw (e : DeclarationError) : s.Looks (throw e : Assemble α) good :=
  fun _ _ h ↦ absurd h Assemble.yields_throw

theorem throw_bind (e : DeclarationError) : s.Looks ((MonadExcept.throw e : Assemble α) >>= f) better := by
  intro v t h
  obtain ⟨_, _, h, -⟩ := Assemble.yields_bind.mp h
  exact absurd h Assemble.yields_throw

theorem ofExcept (hs : s.Sound) {x : Except ModelError α} (hx : ∀ v, x = .ok v → good s.model v) :
    s.Looks (Assemble.ofExcept x) good := by
  intro v t h
  obtain ⟨rfl, rfl⟩ := Assemble.yields_ofExcept.mp h
  exact ⟨.refl s, hs, hx v rfl, fun u _ _ ↦ Assemble.yields_ofExcept.mpr ⟨rfl, rfl⟩⟩

theorem bind (ha : s.Looks a good)
    (hf : ∀ v k, s.Looked k → k.Sound → good k.model v → k.Looks (f v) better) :
    s.Looks (a >>= f) better := by
  intro w t h
  obtain ⟨v, k, hv, hw⟩ := Assemble.yields_bind.mp h
  have hfirst := ha v k hv
  have hnext := hf v k hfirst.looked hfirst.sound hfirst.good w t hw
  refine ⟨hfirst.looked.trans hnext.looked, hnext.sound, hnext.good, fun u hu hsound ↦ ?_⟩
  have hagain := hfirst.again u (hnext.looked.toLater.trans hu) hsound
  exact Assemble.yields_bind.mpr ⟨v, u, hagain, hnext.again u hu hsound⟩

theorem map (ha : s.Looks a good) {g : α → β} (hg : ∀ k v, s.Looked k → good k.model v → better k.model (g v)) :
    s.Looks (g <$> a) better := by
  intro w t h
  obtain ⟨v, hv, rfl⟩ := Assemble.yields_map.mp h
  have hsaw := ha v t hv
  exact ⟨hsaw.looked, hsaw.sound, hg t v hsaw.looked hsaw.good,
    fun u hu hsound ↦ Assemble.yields_map.mpr ⟨v, hsaw.again u hu hsound, rfl⟩⟩

/-- Each of a list is looked up. -/
theorem mapM {x : Model → Prop} (hx : ∀ m n, m.Extends n → x m → x n)
    (hgood : ∀ m n v, m.Extends n → better m v → better n v)
    (hf : ∀ v (k : Assembly), k.Sound → x k.model → k.Looks (f v) better) (l : List α) (hs : s.Sound) (hm : x s.model) :
    s.Looks (l.mapM f) fun m vs ↦ ∀ v ∈ vs, better m v := by
  induction l generalizing s with
  | nil =>
      rw [List.mapM_nil]
      exact .pure hs nofun
  | cons v l ih =>
      rw [List.mapM_cons]
      refine .bind (hf v s hs hm) fun w k hk hsound hw ↦ ?_
      refine .bind (ih hsound (hx _ _ hk.grown hm)) fun ws j hj hjsound hws ↦ ?_
      refine .pure hjsound (List.forall_mem_cons.mpr ⟨hgood _ _ w hj.grown hw, hws⟩)

end Looks

theorem Sound.grow (hs : s.Sound) {m : Model} (hm : m.Reachable) (hdeclarative : m.Declarative)
    (h : s.model.Extends m) : Sound { s with model := m } where
  reachable := hm
  declarative := hdeclarative
  shapes c shape hc := (hs.shapes c shape hc).later h

theorem Looked.of_grown (hs : s.Sound) {m : Model}
    (h : Relation.ReflTransGen (Model.Addition Model.nowhere) s.model m) : s.Looked { s with model := m } where
  grown := Model.extends_of_grown h
  shapes _ _ hc := hc
  suffix := List.suffix_refl _
  entry_eq _ hc hdefined := Model.entry_eq_of_defined hs.wellFormed h hc hdefined
  fresh _ hc hnew := Model.origin_ne_defined_of_new hs.wellFormed h hc hnew
  model_eq := Model.eq_of_grown h

theorem Looks.build {α : Type} {b : Build α} {good : Model → α → Prop} (hs : s.Sound)
    (hgrown : Model.Growing Model.nowhere s.model (b.exec s.model) good)
    (hreachable : (b.exec s.model).2.Reachable)
    (hagain : ∀ v m n, b.exec s.model = (.ok v, m) → m.Extends n → n.Reachable → b.exec n = (.ok v, n)) :
    s.Looks (Assemble.build b) good := by
  intro v t h
  obtain ⟨m, hb, rfl⟩ := Assemble.yields_build.mp h
  rw [hb] at hgrown hreachable
  have hextends := Model.extends_of_grown hgrown.grown
  have hsound := hs.grow hreachable (hs.declarative.grow id hgrown.grown) hextends
  refine ⟨.of_grown hs hgrown.grown, hsound, hgrown.answer v rfl, fun u hu hsound ↦ ?_⟩
  have hb' := hagain v m u.model hb hu.grown hsound.reachable
  exact Assemble.yields_build.mpr ⟨u.model, hb', rfl⟩

theorem looks_reference (hs : s.Sound) (name : String) :
    s.Looks (Assemble.build (Model.reference name)) Model.Knows := by
  have hgrown := Model.growing_reference (s := Model.nowhere) hs.wellFormed name
  have hstep : ((Model.reference name).exec s.model).2 = (Operation.reference name).step s.model := by
    rw [Operation.step, Operation.perform, Build.exec_map]
  refine .build hs ⟨hgrown.grown, fun c hc ↦ (hgrown.answer c hc).1⟩ ?_ ?_
  · rw [hstep]
    exact hs.reachable.step ⟨List.forall_mem_nil _, List.forall_mem_nil _⟩
  · intro c m n hc hn hreachable
    rw [hc] at hgrown
    have hlookup := Model.lookup_of_reference hs.wellFormed hc
    have hm := hs.wellFormed.grow hgrown.grown
    exact Model.reference_of_lookup (hn.lookup hm hreachable.wellFormed hlookup)

theorem looks_placeholder (hs : s.Sound) (name : String) :
    s.Looks (Assemble.build (Model.placeholder name)) Model.Knows := by
  have hgrown := Model.growing_placeholder (s := Model.nowhere) hs.wellFormed name
  have hstep : ((Model.placeholder name).exec s.model).2 = (Operation.placeholder name).step s.model := by
    rw [Operation.step, Operation.perform, Build.exec_map]
  have hreachable : ((Model.placeholder name).exec s.model).2.Reachable := by
    rw [hstep]
    exact hs.reachable.step ⟨List.forall_mem_nil _, List.forall_mem_nil _⟩
  refine .build hs ⟨hgrown.grown, fun c hc ↦ ?_⟩ hreachable ?_
  · have hget := Model.get?_placeholders_of_placeholder (Prod.ext hc rfl)
    have horigin := ((hreachable.orderly.get?_placeholders name c).mp hget).1
    by_contra hunknown
    rw [Model.entry_of_not_knows hunknown] at horigin
    cases horigin
  · intro c m n hc hn hlater
    rw [hc] at hreachable
    have hget := Model.get?_placeholders_of_placeholder hc
    exact Model.placeholder_of_get?_placeholders (hn.get?_placeholders hreachable.orderly hlater.orderly hget)

end Assembly

namespace Context

open Assembly

/-- The model has the declared classes. -/
def KnownTo (x : Context) (m : Model) : Prop := ∀ name c, x.declared.get? name = some c → m.Knows c

variable {x : Context} {s : Assembly}

theorem KnownTo.later {m n : Model} (hx : x.KnownTo m) (h : m.Extends n) : x.KnownTo n :=
  fun name c hc ↦ h.knows (hx name c hc)

theorem looks_classOf (hs : s.Sound) (hx : x.KnownTo s.model) (name : String) :
    s.Looks (x.classOf name) Model.Knows := by
  unfold classOf
  split
  · rename_i c hc
    exact .pure hs (hx _ c hc)
  · exact looks_reference hs name

mutual

theorem looks_typeOf (scope : Scope) : ∀ (w : WrittenType) {s : Assembly}, s.Sound → x.KnownTo s.model →
    s.Looks (x.typeOf scope w) fun m t ↦ ∀ c ∈ t.classes, m.Knows c
  | .primitive name, s, hs, hx => by
      rw [typeOf]
      split
      · exact .pure hs (by simp [JavaType.classes])
      · exact .throw _
  | .declared name args, s, hs, hx => by
      rw [typeOf]
      refine .bind (looks_classOf hs hx name) fun c k hk hsound hc ↦ ?_
      split
      · exact .pure hsound (by simpa [JavaType.classes] using hc)
      · refine .bind (looks_typesOf scope args hsound (hx.later hk.grown)) fun ts l hl hsound hts ↦ ?_
        refine .ofExcept hsound fun t ht ↦ ?_
        obtain rfl : t = .narrowed c ts := by
          unfold JavaType.narrow at ht
          split at ht <;> cases ht
          rfl
        simpa [JavaType.classes] using ⟨hl.grown.knows hc, hts⟩
  | .array w, s, hs, hx => by
      rw [typeOf]
      refine .bind (looks_typeOf scope w hs hx) fun t k hk hsound ht ↦ ?_
      refine .ofExcept hsound fun u hu ↦ ?_
      obtain rfl := (JavaType.arrayOf_eq_ok_iff.mp hu).2
      intro c hc
      refine ht c ?_
      cases t <;> simp_all [JavaType.raw, JavaType.classes]
  | .typeVar name, s, hs, hx => by
      rw [typeOf]
      split
      · exact .pure hs (by simp [JavaType.classes])
      · exact .throw _
  | .wildcard none none, s, hs, hx => by
      rw [typeOf]
      exact .pure hs (by simp [JavaType.classes])
  | .wildcard (some upper) none, s, hs, hx => by
      rw [typeOf]
      exact (looks_typeOf scope upper hs hx).map fun _ _ _ h ↦ by simpa [JavaType.classes] using h
  | .wildcard none (some lower), s, hs, hx => by
      rw [typeOf]
      exact (looks_typeOf scope lower hs hx).map fun _ _ _ h ↦ by simpa [JavaType.classes] using h
  | .wildcard (some _) (some _), s, hs, hx => by
      rw [typeOf]
      exact .throw _
  | .unresolved name, s, hs, hx => by
      rw [typeOf]
      split
      · exact .throw _
      · exact (looks_placeholder hs name).map fun _ _ _ h ↦ by simpa [JavaType.classes] using h

theorem looks_typesOf (scope : Scope) : ∀ (ws : List WrittenType) {s : Assembly}, s.Sound → x.KnownTo s.model →
    s.Looks (x.typesOf scope ws) fun m ts ↦ ∀ c ∈ JavaType.classesEach ts, m.Knows c
  | [], s, hs, hx => by
      rw [typesOf]
      exact .pure hs (by simp [JavaType.classesEach])
  | w :: ws, s, hs, hx => by
      rw [typesOf]
      refine .bind (looks_typeOf scope w hs hx) fun t k hk hsound ht ↦ ?_
      refine .bind (looks_typesOf scope ws hsound (hx.later hk.grown)) fun ts l hl hsound hts ↦ ?_
      refine .pure hsound fun c hc ↦ ?_
      rcases List.mem_append.mp hc with hc | hc
      · exact hl.grown.knows (ht c hc)
      · exact hts c hc

end

theorem looks_typeOf? (hs : s.Sound) (hx : x.KnownTo s.model) (scope : Scope) (w : Option WrittenType) :
    s.Looks (x.typeOf? scope w) fun m t ↦ ∀ c ∈ t.toList.flatMap JavaType.classes, m.Knows c := by
  cases w with
  | none => exact .pure hs (by simp)
  | some w => exact (looks_typeOf scope w hs hx).map fun _ _ _ h ↦ by simpa using h

theorem looks_typeParam (hs : s.Sound) (hx : x.KnownTo s.model) (scope : Scope) (d : TypeParamDeclaration) :
    s.Looks (x.typeParam scope d) fun m v ↦ ∀ c ∈ v.bound.toList.flatMap JavaType.classes, m.Knows c := by
  refine .bind (looks_typeOf? hs hx scope d.bound) fun t k hk hsound ht ↦ ?_
  exact .pure hsound ht

theorem looks_typedParam (hs : s.Sound) (hx : x.KnownTo s.model) (scope : Scope) (d : ParamDeclaration) :
    s.Looks (x.typedParam scope d) fun m p ↦ ∀ c ∈ p.type.classes, m.Knows c := by
  refine .bind (looks_typeOf scope d.type hs hx) fun t k hk hsound ht ↦ ?_
  exact .pure hsound ht

end Context
end JavaSource
