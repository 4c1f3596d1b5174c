import JavaSource.Proofs.Declaration.Twin
import JavaSource.Proofs.Renaming.Shape

/-!
# Finding the same values in two models

Where types stand for the same in two models and the shapes of annotations agree, so do values and annotations.
-/

namespace JavaSource

namespace AnnotationValue

variable {f : ClassId → ClassId}

theorem ofInteger_via (hint : Option MemberKind) (n : Int64) :
    ofInteger (hint.map (·.via f)) n = ofInteger hint n := by
  cases hint with
  | none => rfl
  | some k => cases k <;> rfl

theorem ofFloat_via (hint : Option MemberKind) (y : Ieee.Datum Ieee.double) :
    ofFloat (hint.map (·.via f)) y = ofFloat hint y := by
  cases hint with
  | none => rfl
  | some k => cases k <;> rfl

theorem ofString_via (hint : Option MemberKind) (s : String) :
    ofString (hint.map (·.via f)) s = (ofString hint s).map (rename f) := by
  cases hint with
  | none => rfl
  | some k =>
      cases k with
      | char =>
          simp only [Option.map_some, MemberKind.via, ofString]
          split <;> rfl
      | _ => rfl

theorem ofString_via_id (hint : Option MemberKind) (s : String) :
    ofString (hint.map (·.via id)) s = ofString hint s := by
  cases hint with
  | none => rfl
  | some k => cases k <;> rfl

end AnnotationValue

/-! ## Values -/

open Assembly

namespace Context

variable {x : Context} {s : Assembly}

/-- A use that is found is that of a class that is found, with the shape that was kept for it. -/
theorem settled_useOf (hs : s.Sound) (hx : x.KnownTo s.model) {a : WrittenAnnotation} {u : AnnotationUse}
    (h : (x.useOf a).Yields s u s) :
    ∃ c shape vs, (x.classOf a.type).Yields s c s ∧ s.shapes.lookup c = some shape ∧
      (x.valuesOf shape a.values).Yields s vs s ∧ AnnotationUse.ofValues c shape vs = .ok u := by
  simp only [useOf, Assemble.yields_bind, Assemble.yields_ofExcept] at h
  obtain ⟨c, k, hc, shape, l, hshape, vs, _, hvs, hu, rfl⟩ := h
  have hclass := looks_classOf hs hx a.type c k hc
  have hlook := looks_shape? hclass.sound c shape l hshape
  have hx' := hx.later (hclass.looked.grown.trans hlook.looked.grown)
  have hrest := looks_valuesOf shape a.values hlook.sound hx' hlook.good vs _ hvs
  obtain rfl := hclass.looked.antisymm (hlook.looked.trans hrest.looked)
  obtain rfl := hlook.looked.antisymm hrest.looked
  rcases yields_shape?.mp hshape with ⟨hcached, -⟩ | ⟨-, -, hsame⟩
  · exact ⟨c, shape, vs, hc, hcached, hvs, hu⟩
  · have hlonger := congrArg (fun k : Assembly ↦ k.shapes.length) hsame
    simp at hlonger

theorem settled_itemsOf_cons (hs : s.Sound) (hx : x.KnownTo s.model) {member : String} {hint : Option MemberKind}
    (hhint : ∀ e ∈ MemberKind.enumsOf hint, s.model.Knows e) {w : WrittenValue} {ws : List WrittenValue}
    {vs : List AnnotationValue} (h : (x.itemsOf member hint (w :: ws)).Yields s vs s) :
    ∃ v us, (x.valueOf member hint w).Yields s v s ∧ (x.itemsOf member hint ws).Yields s us s ∧ vs = v :: us := by
  rw [itemsOf] at h
  split at h
  · obtain ⟨_, _, h, -⟩ := Assemble.yields_bind.mp h
    exact absurd h Assemble.yields_throw
  · simp only [Assemble.yields_bind, Assemble.yields_pure] at h
    obtain ⟨v, k, hv, us, _, hus, rfl, rfl⟩ := h
    have hsaw := looks_valueOf member w hint hs hx hhint v k hv
    have hhint' : ∀ e ∈ MemberKind.enumsOf hint, k.model.Knows e := fun e he ↦
      hsaw.looked.grown.knows (hhint e he)
    have hrest := looks_itemsOf member ws hint hsaw.sound (hx.later hsaw.looked.grown) hhint' us _ hus
    obtain rfl := hsaw.looked.antisymm hrest.looked
    exact ⟨v, us, hv, hus, rfl⟩

theorem settled_valuesOf_cons (hs : s.Sound) (hx : x.KnownTo s.model) {shape : Option AnnotationShape}
    (hshape : KnownShape s.model shape) {name : String} {w : WrittenValue} {ws : List (String × WrittenValue)}
    {vs : List (String × AnnotationValue)} (h : (x.valuesOf shape ((name, w) :: ws)).Yields s vs s) :
    ∃ v us, (x.valueOf name (AnnotationShape.hint shape name) w).Yields s v s ∧
      (x.valuesOf shape ws).Yields s us s ∧ vs = (name, v) :: us := by
  simp only [valuesOf, Assemble.yields_bind, Assemble.yields_pure] at h
  obtain ⟨v, k, hv, us, _, hus, rfl, rfl⟩ := h
  have hsaw := looks_valueOf name w _ hs hx (hshape.hint name) v k hv
  have hshape' : KnownShape k.model shape := fun sh hsh ↦ (hshape sh hsh).later hsaw.looked.grown
  have hrest := looks_valuesOf shape ws hsaw.sound (hx.later hsaw.looked.grown) hshape' us _ hus
  obtain rfl := hsaw.looked.antisymm hrest.looked
  exact ⟨v, us, hv, hus, rfl⟩

end Context

namespace Twins

variable {x x' : Context} {s s' : Assembly} {f : ClassId → ClassId} {S : ClassId → Prop}

/-- The shapes that were kept for annotations of some names are alike in both states. -/
def AgreeOn (x : Context) (s s' : Assembly) (f : ClassId → ClassId) (S : ClassId → Prop) (names : List String) :
    Prop :=
  ∀ name ∈ names, ∀ c, (x.classOf name).Yields s c s → S c → ∀ shape shape', s.shapes.lookup c = some shape →
    s'.shapes.lookup (f c) = some shape' → AnnotationShape.Alike f S shape shape'

theorem AgreeOn.append {names others : List String} (h : AgreeOn x s s' f S (names ++ others)) :
    AgreeOn x s s' f S names ∧ AgreeOn x s s' f S others :=
  ⟨fun name hname ↦ h name (List.mem_append_left _ hname), fun name hname ↦ h name (List.mem_append_right _ hname)⟩

theorem AgreeOn.cons {name : String} {names : List String} (h : AgreeOn x s s' f S (name :: names)) :
    AgreeOn x s s' f S [name] ∧ AgreeOn x s s' f S names :=
  append (by simpa using h)

/-- A hint speaks of the same in both states. -/
structure Hints (s s' : Assembly) (f : ClassId → ClassId) (S : ClassId → Prop) (hint hint' : Option MemberKind) :
    Prop where
  eq : hint'.map (·.via id) = hint.map (·.via f)
  knows : ∀ e ∈ MemberKind.enumsOf hint, s.model.Knows e
  knows' : ∀ e ∈ MemberKind.enumsOf hint', s'.model.Knows e
  within : ∀ e ∈ MemberKind.enumsOf hint, S e

theorem Hints.itemKind {hint hint' : Option MemberKind} (h : Hints s s' f S hint hint') :
    Hints s s' f S (hint.map (·.itemKind)) (hint'.map (·.itemKind)) where
  eq := by
    have hitems := congrArg (Option.map MemberKind.itemKind) h.eq
    simpa [Function.comp_def] using hitems
  knows := MemberKind.enumsOf_itemKind hint ▸ h.knows
  knows' := MemberKind.enumsOf_itemKind hint' ▸ h.knows'
  within := MemberKind.enumsOf_itemKind hint ▸ h.within

theorem Hints.none : Hints s s' f S none none :=
  ⟨rfl, List.forall_mem_nil _, List.forall_mem_nil _, List.forall_mem_nil _⟩

/-- The type of a member gives the same hint in both states. -/
theorem Hints.ofType (h : s.model.Corresponds s'.model f S) : ∀ {t : JavaType}, t.Within S →
    Hints s s' f S (s.model.memberHint t) (s'.model.memberHint (t.rename f))
  | .primitive p, _ => by
      cases p <;> exact ⟨rfl, List.forall_mem_nil _, List.forall_mem_nil _, List.forall_mem_nil _⟩
  | .reference c, hc => by
      have hc : S c := hc
      simp only [JavaType.rename, Model.memberHint, h.kind_eq c hc]
      split
      · exact ⟨rfl, List.forall_mem_singleton.mpr (h.knows c hc), List.forall_mem_singleton.mpr (h.knows' c hc),
          List.forall_mem_singleton.mpr hc⟩
      · exact .none
  | .array t, ht => by
      obtain ⟨heq, hknows, hknows', hwithin⟩ := @Hints.ofType h t ht
      have henums : ∀ hint : Option MemberKind, MemberKind.enumsOf (hint.map .array) = MemberKind.enumsOf hint :=
        fun hint ↦ by cases hint <;> rfl
      simp only [JavaType.rename, Model.memberHint]
      constructor
      · have harray := congrArg (Option.map MemberKind.array) heq
        simpa [Function.comp_def, MemberKind.via] using harray
      · rwa [henums]
      · rwa [henums]
      · rwa [henums]
  | .narrowed _ _, _ | .var _ _, _ | .wildcard, _ | .wildcardExtends _, _ | .wildcardSuper _, _ => .none

/-- A use is found alike in both states when its values are. -/
theorem useOf_of_values (h : Twins x x' s s' f S) {a : WrittenAnnotation} (hagree : AgreeOn x s s' f S [a.type])
    (hvalues : ∀ {shape shape' : Option AnnotationShape} {vs vs' : List (String × AnnotationValue)},
      KnownShape s.model shape → KnownShape s'.model shape' → AnnotationShape.Alike f S shape shape' →
      (x.valuesOf shape a.values).Yields s vs s → (x'.valuesOf shape' a.values).Yields s' vs' s' →
        vs' = AnnotationValue.renameMembers f vs ∧ ∀ y ∈ AnnotationValue.mentionsMembers vs, y.Within S)
    {u u' : AnnotationUse} (hu : (x.useOf a).Yields s u s) (hu' : (x'.useOf a).Yields s' u' s') :
    u' = u.rename f ∧ ∀ y ∈ u.mentions, y.Within S := by
  obtain ⟨c, shape, vs, hc, hshape, hvs, huse⟩ := Context.settled_useOf h.sound h.known hu
  obtain ⟨c', shape', vs', hc', hshape', hvs', huse'⟩ := Context.settled_useOf h.sound' h.known' hu'
  obtain ⟨rfl, hS⟩ := h.classOf a.type c c' hc hc'
  have halike := hagree a.type (List.mem_singleton_self _) c hc hS shape shape' hshape hshape'
  obtain ⟨rfl, hwithin⟩ := hvalues (h.sound.knownShape hshape) (h.sound'.knownShape hshape') halike hvs hvs'
  refine ⟨AnnotationUse.ofValues_alike h.corresponds.injective halike huse huse', fun y hy ↦ ?_⟩
  rcases List.mem_cons.mp (AnnotationUse.mentions_ofValues huse hy) with rfl | hy
  · exact hS
  · exact hwithin y hy

mutual

theorem valueOf (h : Twins x x' s s' f S) (member : String) :
    ∀ (w : WrittenValue) {hint hint' : Option MemberKind} {v v' : AnnotationValue}, Hints s s' f S hint hint' →
    AgreeOn x s s' f S w.annotations → (x.valueOf member hint w).Yields s v s →
    (x'.valueOf member hint' w).Yields s' v' s' →
      v' = v.rename f ∧ ∀ y ∈ v.mentions, y.Within S
  | .bool b, hint, hint', v, v', _, _, hv, hv' | .char b, hint, hint', v, v', _, _, hv, hv'
  | .long b, hint, hint', v, v', _, _, hv, hv' => by
      rw [Context.valueOf] at hv hv'
      obtain ⟨rfl, -⟩ := Assemble.yields_pure.mp hv
      obtain ⟨rfl, -⟩ := Assemble.yields_pure.mp hv'
      exact ⟨rfl, nofun⟩
  | .int n, hint, hint', v, v', hh, _, hv, hv' => by
      rw [Context.valueOf] at hv hv'
      obtain ⟨rfl, -⟩ := Assemble.yields_pure.mp hv
      obtain ⟨rfl, -⟩ := Assemble.yields_pure.mp hv'
      rw [← AnnotationValue.ofInteger_via (f := id), hh.eq, AnnotationValue.ofInteger_via]
      unfold AnnotationValue.ofInteger
      repeat' split
      all_goals exact ⟨rfl, nofun⟩
  | .float y, hint, hint', v, v', hh, _, hv, hv' => by
      rw [Context.valueOf] at hv hv'
      obtain ⟨rfl, -⟩ := Assemble.yields_pure.mp hv
      obtain ⟨rfl, -⟩ := Assemble.yields_pure.mp hv'
      rw [← AnnotationValue.ofFloat_via (f := id), hh.eq, AnnotationValue.ofFloat_via]
      unfold AnnotationValue.ofFloat
      split <;> exact ⟨rfl, nofun⟩
  | .string str, hint, hint', v, v', hh, _, hv, hv' => by
      rw [Context.valueOf] at hv hv'
      rw [← AnnotationValue.ofString_via_id, hh.eq, AnnotationValue.ofString_via] at hv'
      split at hv
      · rename_i w hw
        simp only [hw, Except.map] at hv'
        obtain ⟨rfl, -⟩ := Assemble.yields_pure.mp hv
        obtain ⟨rfl, -⟩ := Assemble.yields_pure.mp hv'
        refine ⟨rfl, ?_⟩
        unfold AnnotationValue.ofString at hw
        split at hw
        · split at hw <;> cases hw
          exact nofun
        · rename_i c
          cases hw
          have hc : S c := hh.within c (by simp [MemberKind.enumsOf, MemberKind.enums])
          simpa [AnnotationValue.mentions, Mention.Within] using hc
        · cases hw
          exact nofun
      · exact absurd hv Assemble.yields_throw
  | .array items, hint, hint', v, v', hh, hagree, hv, hv' => by
      rw [Context.valueOf] at hv hv'
      obtain ⟨vs, hvs, rfl⟩ := Assemble.yields_map.mp hv
      obtain ⟨vs', hvs', rfl⟩ := Assemble.yields_map.mp hv'
      obtain ⟨rfl, hwithin⟩ := itemsOf h member items hh.itemKind hagree hvs hvs'
      exact ⟨rfl, hwithin⟩
  | .classLiteral w, hint, hint', v, v', _, _, hv, hv' => by
      rw [Context.valueOf] at hv hv'
      obtain ⟨t, ht, rfl⟩ := Assemble.yields_map.mp hv
      obtain ⟨t', ht', rfl⟩ := Assemble.yields_map.mp hv'
      obtain ⟨rfl, hwithin⟩ := h.typeOf _ w ht ht'
      exact ⟨rfl, List.forall_mem_singleton.mpr hwithin⟩
  | .enumConstant type constant, hint, hint', v, v', _, _, hv, hv' => by
      simp only [Context.valueOf, Assemble.yields_bind, Assemble.yields_pure] at hv hv'
      obtain ⟨c, _, hc, rfl, rfl⟩ := hv
      obtain ⟨c', _, hc', rfl, rfl⟩ := hv'
      obtain ⟨rfl, hS⟩ := h.classOf type c c' hc hc'
      exact ⟨rfl, List.forall_mem_singleton.mpr hS⟩
  | .nested type values, hint, hint', v, v', _, hagree, hv, hv' => by
      obtain ⟨u, hu, rfl⟩ := Context.yields_nested.mp hv
      obtain ⟨u', hu', rfl⟩ := Context.yields_nested.mp hv'
      obtain ⟨htype, hvalues⟩ := hagree.cons
      obtain ⟨rfl, hwithin⟩ := h.useOf_of_values htype (valuesOf h values · · · hvalues) hu hu'
      exact ⟨AnnotationUse.use_rename u, hwithin⟩

theorem itemsOf (h : Twins x x' s s' f S) (member : String) :
    ∀ (ws : List WrittenValue) {hint hint' : Option MemberKind} {vs vs' : List AnnotationValue},
    Hints s s' f S hint hint' → AgreeOn x s s' f S (WrittenValue.annotationsEach ws) →
    (x.itemsOf member hint ws).Yields s vs s →
    (x'.itemsOf member hint' ws).Yields s' vs' s' →
      vs' = AnnotationValue.renameEach f vs ∧ ∀ y ∈ AnnotationValue.mentionsEach vs, y.Within S
  | [], hint, hint', vs, vs', _, _, hvs, hvs' => by
      rw [Context.itemsOf] at hvs hvs'
      obtain ⟨rfl, -⟩ := Assemble.yields_pure.mp hvs
      obtain ⟨rfl, -⟩ := Assemble.yields_pure.mp hvs'
      exact ⟨rfl, nofun⟩
  | w :: ws, hint, hint', vs, vs', hh, hagree, hvs, hvs' => by
      obtain ⟨v, us, hv, hus, rfl⟩ := Context.settled_itemsOf_cons h.sound h.known hh.knows hvs
      obtain ⟨v', us', hv', hus', rfl⟩ := Context.settled_itemsOf_cons h.sound' h.known' hh.knows' hvs'
      obtain ⟨hagree, hagree'⟩ := hagree.append
      obtain ⟨rfl, hwithin⟩ := valueOf h member w hh hagree hv hv'
      obtain ⟨rfl, hwithin'⟩ := itemsOf h member ws hh hagree' hus hus'
      exact ⟨rfl, List.forall_mem_append.mpr ⟨hwithin, hwithin'⟩⟩

theorem valuesOf (h : Twins x x' s s' f S) :
    ∀ (ws : List (String × WrittenValue)) {shape shape' : Option AnnotationShape}
      {vs vs' : List (String × AnnotationValue)},
    KnownShape s.model shape → KnownShape s'.model shape' → AnnotationShape.Alike f S shape shape' →
    AgreeOn x s s' f S (WrittenValue.annotationsIn ws) → (x.valuesOf shape ws).Yields s vs s →
    (x'.valuesOf shape' ws).Yields s' vs' s' →
      vs' = AnnotationValue.renameMembers f vs ∧ ∀ y ∈ AnnotationValue.mentionsMembers vs, y.Within S
  | [], shape, shape', vs, vs', _, _, _, _, hvs, hvs' => by
      rw [Context.valuesOf] at hvs hvs'
      obtain ⟨rfl, -⟩ := Assemble.yields_pure.mp hvs
      obtain ⟨rfl, -⟩ := Assemble.yields_pure.mp hvs'
      exact ⟨rfl, nofun⟩
  | (name, w) :: ws, shape, shape', vs, vs', hk, hk', hh, hagree, hvs, hvs' => by
      obtain ⟨v, us, hv, hus, rfl⟩ := Context.settled_valuesOf_cons h.sound h.known hk hvs
      obtain ⟨v', us', hv', hus', rfl⟩ := Context.settled_valuesOf_cons h.sound' h.known' hk' hvs'
      have hhint : Hints s s' f S (AnnotationShape.hint shape name) (AnnotationShape.hint shape' name) :=
        ⟨hh.hint name, hk.hint name, hk'.hint name, hh.within name⟩
      obtain ⟨hagree, hagree'⟩ := hagree.append
      obtain ⟨rfl, hwithin⟩ := valueOf h name w hhint hagree hv hv'
      obtain ⟨rfl, hwithin'⟩ := valuesOf h ws hk hk' hh hagree' hus hus'
      exact ⟨rfl, List.forall_mem_append.mpr ⟨hwithin, hwithin'⟩⟩

end

theorem useOf (h : Twins x x' s s' f S) {a : WrittenAnnotation} (hagree : AgreeOn x s s' f S a.names)
    {u u' : AnnotationUse} (hu : (x.useOf a).Yields s u s) (hu' : (x'.useOf a).Yields s' u' s') :
    u' = u.rename f ∧ ∀ y ∈ u.mentions, y.Within S := by
  obtain ⟨htype, hvalues⟩ := hagree.cons
  exact h.useOf_of_values htype (h.valuesOf a.values · · · hvalues) hu hu'

end Twins
end JavaSource
