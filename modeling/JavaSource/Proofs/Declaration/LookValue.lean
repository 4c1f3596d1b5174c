import JavaSource.Proofs.Declaration.Look

/-!
# Looking up values

The values of an annotation are looked up like types, and the shape of an annotation stays what it was when it
was first looked at. Values, shapes and uses speak only of classes that the model has.
-/

namespace JavaSource

theorem Except.foldlM_induction {ε α β : Type} {P : β → Prop} {f : β → α → Except ε β} {l : List α} {b c : β}
    (hstep : ∀ a ∈ l, ∀ b c, P b → f b a = .ok c → P c) (hb : P b) (h : l.foldlM f b = .ok c) : P c := by
  induction l generalizing b with
  | nil =>
      cases h
      exact hb
  | cons a l ih =>
      rw [List.foldlM_cons, Except.bind_eq_ok] at h
      obtain ⟨d, hd, h⟩ := h
      have hfirst := hstep a (List.mem_cons_self ..) b d hb hd
      exact ih (fun a' ha' ↦ hstep a' (List.mem_cons_of_mem _ ha')) hfirst h

/-- The name and the type of each method. -/
def ClassEntry.signatures (e : ClassEntry) : List (String × Option JavaType) :=
  e.methods.map fun m ↦ (m.name, m.returnType)

/-- The defaults of the methods. -/
def ClassEntry.defaults (e : ClassEntry) : List (Option AnnotationValue) := e.methods.map (·.defaultValue)

/-- The enum types behind a kind that may not be there. -/
def MemberKind.enumsOf (hint : Option MemberKind) : List ClassId := hint.toList.flatMap enums

theorem ClassEntry.mem_mentions_of_returnType {e : ClassEntry} {m : Method} (hm : m ∈ e.methods) {t : JavaType}
    (ht : m.returnType = some t) : .type t ∈ e.mentions := by
  have hmem : Mention.type t ∈ m.mentions := by simp [Method.mem_mentions, ht]
  have hflat := List.mem_flatMap.mpr ⟨m, hm, hmem⟩
  simp only [mem_mentions, hflat, or_true]

theorem MemberKind.enumsOf_itemKind (hint : Option MemberKind) : enumsOf (hint.map itemKind) = enumsOf hint := by
  cases hint with
  | none => rfl
  | some k => cases k <;> rfl

namespace AnnotationValue

theorem mem_mentionsMembers {members : List (String × AnnotationValue)} {x : Mention} :
    x ∈ mentionsMembers members ↔ ∃ p ∈ members, x ∈ p.2.mentions := by
  induction members with
  | nil => simp [mentionsMembers]
  | cons p rest ih =>
      obtain ⟨name, v⟩ := p
      simp [mentionsMembers, ih]

theorem mentionsMembers_put_subset (name : String) (v : AnnotationValue) (l : List (String × AnnotationValue)) :
    mentionsMembers (Table.put name v l) ⊆ mentionsMembers l ++ v.mentions := by
  induction l with
  | nil => simp [Table.put, mentionsMembers]
  | cons p rest ih =>
      obtain ⟨other, w⟩ := p
      rw [Table.put]
      intro x hx
      split at hx
      · simp only [mentionsMembers, List.mem_append] at hx ⊢
        exact hx.symm.imp_left Or.inr
      · simp only [mentionsMembers, List.mem_append] at hx ⊢
        have hrest := @ih x
        rw [List.mem_append] at hrest
        rcases hx with hx | hx
        · exact Or.inl (Or.inl hx)
        · exact (hrest hx).imp_left Or.inr

end AnnotationValue

theorem AnnotationShape.set_eq_ok {s : AnnotationShape} {u w : AnnotationUse} {name : String}
    {v : AnnotationValue} (h : s.set u name v = .ok w) : w = u ∨ w = u.set name v := by
  unfold AnnotationShape.set at h
  rw [Except.bind_eq_ok] at h
  obtain ⟨⟨k, default⟩, -, h⟩ := h
  simp only at h
  split at h
  · exact Or.inl (Except.ok.inj h).symm
  · split at h
    · exact Or.inr (Except.ok.inj h).symm
    · cases h

namespace AnnotationUse

/-- A use is put together by giving an empty one values in turn. -/
theorem ofValues_induction {P : AnnotationUse → Prop} {c : ClassId} {shape : Option AnnotationShape}
    {values : List (String × AnnotationValue)} {u : AnnotationUse} (hempty : P ⟨c, {}⟩)
    (hset : ∀ p ∈ values, ∀ w, P w → P (w.set p.1 p.2)) (h : ofValues c shape values = .ok u) : P u := by
  unfold ofValues at h
  split at h
  · refine Except.foldlM_induction (fun p hp w w' hw hstep ↦ ?_) hempty h
    rcases AnnotationShape.set_eq_ok hstep with rfl | rfl
    · exact hw
    · exact hset p hp w hw
  · obtain rfl := Except.ok.inj h
    exact List.foldlRecOn values _ hempty fun w hw p hp ↦ hset p hp w hw

/-- Nothing is in a use but its values. -/
theorem mentions_ofValues {c : ClassId} {shape : Option AnnotationShape}
    {values : List (String × AnnotationValue)} {u : AnnotationUse} (h : ofValues c shape values = .ok u) :
    u.mentions ⊆ .class c :: AnnotationValue.mentionsMembers values := by
  let P (w : AnnotationUse) : Prop := w.type = c ∧
    AnnotationValue.mentionsMembers w.members.entries ⊆ AnnotationValue.mentionsMembers values
  have hset : ∀ p ∈ values, ∀ w : AnnotationUse, P w → P (w.set p.1 p.2) := by
    rintro p hp w ⟨htype, hw⟩
    refine ⟨htype, fun x hx ↦ ?_⟩
    rcases List.mem_append.mp (AnnotationValue.mentionsMembers_put_subset p.1 p.2 _ hx) with hx | hx
    · exact hw hx
    · exact AnnotationValue.mem_mentionsMembers.mpr ⟨p, hp, hx⟩
  have hempty : P ⟨c, {}⟩ := ⟨rfl, List.nil_subset _⟩
  have hu : P u := ofValues_induction hempty hset h
  rw [mentions, hu.1]
  exact List.cons_subset_cons _ hu.2

end AnnotationUse

namespace Model

/-- Whether a model has all classes of some mentions. -/
def KnowsAll (m : Model) (xs : List Mention) : Prop := ∀ x ∈ xs, ∀ c ∈ x.classes, m.Knows c

variable {m n : Model}

theorem KnowsAll.later {xs : List Mention} (h : m.KnowsAll xs) (hn : m.Extends n) : n.KnowsAll xs :=
  fun x hx c hc ↦ hn.knows (h x hx c hc)

theorem KnowsAll.append {xs ys : List Mention} (hx : m.KnowsAll xs) (hy : m.KnowsAll ys) :
    m.KnowsAll (xs ++ ys) := by
  intro x hmem
  rcases List.mem_append.mp hmem with hmem | hmem
  · exact hx x hmem
  · exact hy x hmem

theorem enums_memberKindWith {shape : ClassId → Except ModelError AnnotationShape} : ∀ (t : JavaType)
    {k : MemberKind}, m.memberKindWith shape t = .ok k → k.enums ⊆ t.classes
  | .primitive p, k, h => by
      cases p <;> cases h <;> exact List.nil_subset _
  | .array t, k, h => by
      rw [memberKindWith] at h
      cases hk : m.memberKindWith shape t with
      | error e => simp [hk, Except.map] at h
      | ok k' =>
          simp only [hk, Except.map, Except.ok.injEq] at h
          subst h
          simpa [MemberKind.enums, JavaType.classes] using enums_memberKindWith t hk
  | .reference c, k, h => by
      simp only [memberKindWith] at h
      repeat' split at h
      all_goals cases h
      all_goals simp [MemberKind.enums, JavaType.classes, MemberKind.shape]
  | .narrowed c args, k, h => by
      simp only [memberKindWith] at h
      repeat' split at h
      all_goals cases h
      all_goals simp [MemberKind.enums, JavaType.classes, MemberKind.shape]
  | .var name bound, k, h => by cases h
  | .wildcard, k, h => by cases h
  | .wildcardExtends bound, k, h => by cases h
  | .wildcardSuper bound, k, h => by cases h
  | .anonymous c, k, h => by cases h

theorem WellFormed.knows_of_returnType (hm : m.WellFormed) {c : ClassId} {method : Method}
    (hmethod : method ∈ (m.entry c).methods) {t : JavaType} (ht : method.returnType = some t) {d : ClassId}
    (hd : d ∈ t.classes) : m.Knows d :=
  hm.mentions_known c (.type t) (ClassEntry.mem_mentions_of_returnType hmethod ht) d hd

/-- A shape speaks only of classes that the model has. -/
theorem WellFormed.knowsShape_of_shapeOf (hm : m.WellFormed) {c : ClassId} {shape : AnnotationShape}
    (h : m.shapeOf c = .ok shape) : m.KnowsShape shape := by
  unfold shapeOf at h
  rw [shapeWithin] at h
  split at h
  · cases h
  · split at h
    · cases h
    · have hempty : m.KnowsShape (AnnotationShape.empty m c) := by
        intro name member hnone
        cases hnone
      refine Except.foldlM_induction (fun method hmethod s s' hs hstep ↦ ?_) hempty h
      split at hstep
      · cases hstep
        exact hs
      · rename_i t ht
        split at hstep
        · rename_i k hk
          cases hstep
          intro name member hget e he
          simp only [AnnotationShape.declare, Table.get?_insert] at hget
          split at hget
          · cases hget
            exact hm.knows_of_returnType hmethod ht (enums_memberKindWith t hk he)
          · exact hs name member hget e he
        · cases hstep

/-- The shape of an annotation that the model declares. -/
def declaredShape? (m : Model) (c : ClassId) : Option AnnotationShape :=
  if (m.entry c).isDefined ∧ (m.entry c).kind = .annotationType then (m.shapeOf c).toOption else none

theorem enums_memberHint : ∀ (t : JavaType), MemberKind.enumsOf (m.memberHint t) ⊆ t.classes
  | .primitive p => by
      cases p <;> exact List.nil_subset _
  | .array t => by
      have ih := enums_memberHint t
      rw [memberHint]
      cases hk : m.memberHint t with
      | none => exact List.nil_subset _
      | some k => simpa [MemberKind.enumsOf, MemberKind.enums, JavaType.classes, hk] using ih
  | .reference c => by
      rw [memberHint]
      split
      · simp [MemberKind.enumsOf, MemberKind.enums, JavaType.classes]
      · exact List.nil_subset _
  | .narrowed _ _ | .var _ _ | .wildcard | .wildcardExtends _ | .wildcardSuper _ | .anonymous _ =>
      List.nil_subset _

theorem WellFormed.knows_of_memberHint (hm : m.WellFormed) {c : ClassId} {method : Method}
    (hmethod : method ∈ (m.entry c).methods) :
    ∀ e ∈ MemberKind.enumsOf (method.returnType.bind m.memberHint), m.Knows e := by
  cases ht : method.returnType with
  | none => exact nofun
  | some t => exact fun e he ↦ hm.knows_of_returnType hmethod ht (enums_memberHint t he)

end Model

namespace Assembly

/-- Whether a shape that may not be there is about classes of the model. -/
def KnownShape (m : Model) (shape : Option AnnotationShape) : Prop := ∀ s, shape = some s → m.KnowsShape s

variable {s : Assembly}

theorem KnownShape.hint {m : Model} {shape : Option AnnotationShape} (h : KnownShape m shape) (name : String) :
    ∀ e ∈ MemberKind.enumsOf (AnnotationShape.hint shape name), m.Knows e := by
  intro e he
  cases shape with
  | none => simp [AnnotationShape.hint, MemberKind.enumsOf] at he
  | some s =>
      cases hget : s.members.get? name with
      | none => simp [AnnotationShape.hint, MemberKind.enumsOf, hget] at he
      | some member =>
          have he : e ∈ member.1.enums := by
            simpa [AnnotationShape.hint, MemberKind.enumsOf, hget] using he
          exact h s rfl name member hget e he

theorem yields_shape? {c : ClassId} {v : Option AnnotationShape} {t : Assembly} :
    (Assemble.shape? c).Yields s v t ↔
      (s.shapes.lookup c = some v ∧ s = t) ∨
        (s.shapes.lookup c = none ∧ v = s.model.declaredShape? c ∧ t = { s with shapes := (c, v) :: s.shapes }) := by
  rw [Assemble.shape?, Assemble.yields_bind]
  simp only [Assemble.yields_get]
  cases h : s.shapes.lookup c with
  | some shape =>
      constructor
      · rintro ⟨_, _, ⟨rfl, rfl⟩, hrest⟩
        rw [h] at hrest
        obtain ⟨rfl, rfl⟩ := Assemble.yields_pure.mp hrest
        exact Or.inl ⟨rfl, rfl⟩
      · rintro (⟨hv, rfl⟩ | ⟨hnone, -⟩)
        · refine ⟨s, s, ⟨rfl, rfl⟩, ?_⟩
          rw [h]
          exact Assemble.yields_pure.mpr ⟨Option.some.inj hv, rfl⟩
        · cases hnone
  | none =>
      constructor
      · rintro ⟨_, _, ⟨rfl, rfl⟩, hrest⟩
        rw [h] at hrest
        simp only [Assemble.yields_bind, Assemble.yields_set, Assemble.yields_pure] at hrest
        obtain ⟨_, _, rfl, rfl, rfl⟩ := hrest
        exact Or.inr ⟨rfl, rfl, rfl⟩
      · rintro (⟨hv, -⟩ | ⟨-, rfl, rfl⟩)
        · cases hv
        · refine ⟨s, s, ⟨rfl, rfl⟩, ?_⟩
          rw [h]
          simp only [Assemble.yields_bind, Assemble.yields_set, Assemble.yields_pure]
          exact ⟨⟨⟩, _, rfl, rfl, rfl⟩

theorem Sound.knownShape (hs : s.Sound) {c : ClassId} {shape : Option AnnotationShape}
    (h : s.shapes.lookup c = some shape) : KnownShape s.model shape := by
  rintro sh rfl
  exact hs.shapes c sh h

theorem looks_shape? (hs : s.Sound) (c : ClassId) : s.Looks (Assemble.shape? c) KnownShape := by
  intro v t h
  rcases yields_shape?.mp h with ⟨hlookup, rfl⟩ | ⟨hlookup, rfl, rfl⟩
  · exact ⟨.refl s, hs, hs.knownShape hlookup,
      fun u hu _ ↦ yields_shape?.mpr (Or.inl ⟨hu.shapes c v hlookup, rfl⟩)⟩
  · have hgood : KnownShape s.model (s.model.declaredShape? c) := by
      intro sh hsh
      unfold Model.declaredShape? at hsh
      split at hsh
      · cases hshape : s.model.shapeOf c with
        | error fault => simp [hshape, Except.toOption] at hsh
        | ok sh' =>
            obtain rfl : sh' = sh := by simpa [hshape, Except.toOption] using hsh
            exact hs.wellFormed.knowsShape_of_shapeOf hshape
      · cases hsh
    have hcons : ∀ d v, s.shapes.lookup d = some v →
        List.lookup d ((c, s.model.declaredShape? c) :: s.shapes) = some v := by
      intro d v hd
      have hne : d ≠ c := by
        rintro rfl
        rw [hlookup] at hd
        cases hd
      rw [List.lookup_cons, beq_false_of_ne hne]
      exact hd
    refine ⟨⟨⟨.refl _, hcons⟩, List.suffix_cons _ _, fun _ _ _ ↦ rfl, fun _ hd hnew ↦ absurd hd hnew,
      fun _ _ ↦ rfl⟩, ⟨hs.reachable, hs.declarative, fun d sh hd ↦ ?_⟩, hgood, fun u hu _ ↦ ?_⟩
    · rw [List.lookup_cons] at hd
      cases hdc : d == c with
      | true =>
          rw [hdc] at hd
          exact hgood sh (Option.some.inj hd)
      | false =>
          rw [hdc] at hd
          exact hs.shapes d sh hd
    · have hnew := hu.shapes c (s.model.declaredShape? c) (by simp)
      exact yields_shape?.mpr (Or.inl ⟨hnew, rfl⟩)

end Assembly

namespace WrittenValue

mutual

/-- The names of the annotations that are written in a value. -/
def annotations : WrittenValue → List String
  | .nested type values => type :: annotationsIn values
  | .array items => annotationsEach items
  | _ => []

def annotationsIn : List (String × WrittenValue) → List String
  | [] => []
  | (_, v) :: rest => annotations v ++ annotationsIn rest

def annotationsEach : List WrittenValue → List String
  | [] => []
  | v :: vs => annotations v ++ annotationsEach vs

end

end WrittenValue

/-- The names of the annotations that are written in an annotation, its own first. -/
def WrittenAnnotation.names (a : WrittenAnnotation) : List String :=
  a.type :: WrittenValue.annotationsIn a.values

namespace Context

open Assembly

variable {x : Context} {s : Assembly}

theorem looks_ofValues (hs : s.Sound) {c : ClassId} (hc : s.model.Knows c) {shape : Option AnnotationShape}
    {values : List (String × AnnotationValue)} (hv : s.model.KnowsAll (AnnotationValue.mentionsMembers values)) :
    s.Looks (Assemble.ofExcept (AnnotationUse.ofValues c shape values)) fun m u ↦ m.KnowsAll u.mentions := by
  refine .ofExcept hs fun u hu y hy d hd ↦ ?_
  rcases List.mem_cons.mp (AnnotationUse.mentions_ofValues hu hy) with rfl | hy
  · rw [List.mem_singleton.mp hd]
    exact hc
  · exact hv y hy d hd

mutual

theorem looks_valueOf (member : String) : ∀ (w : WrittenValue) (hint : Option MemberKind) {s : Assembly},
    s.Sound → x.KnownTo s.model → (∀ e ∈ MemberKind.enumsOf hint, s.model.Knows e) →
    s.Looks (x.valueOf member hint w) fun m v ↦ m.KnowsAll v.mentions
  | .bool b, hint, s, hs, hx, hh => by
      rw [valueOf]
      exact .pure hs nofun
  | .int n, hint, s, hs, hx, hh => by
      rw [valueOf]
      refine .pure hs ?_
      unfold AnnotationValue.ofInteger
      repeat' split
      all_goals exact nofun
  | .float v, hint, s, hs, hx, hh => by
      rw [valueOf]
      refine .pure hs ?_
      unfold AnnotationValue.ofFloat
      split <;> exact nofun
  | .string str, hint, s, hs, hx, hh => by
      rw [valueOf]
      split
      · rename_i v hv
        refine .pure hs ?_
        unfold AnnotationValue.ofString at hv
        split at hv
        · split at hv <;> cases hv
          exact nofun
        · rename_i c
          cases hv
          have hc : s.model.Knows c := hh c (by simp [MemberKind.enumsOf, MemberKind.enums])
          simpa [Model.KnowsAll, AnnotationValue.mentions, Mention.classes] using hc
        · cases hv
          exact nofun
      · exact .throw _
  | .array items, hint, s, hs, hx, hh => by
      rw [valueOf]
      have hitems := looks_itemsOf member items (hint.map (·.itemKind)) hs hx
        (MemberKind.enumsOf_itemKind hint ▸ hh)
      exact hitems.map fun _ _ _ h ↦ h
  | .char c, hint, s, hs, hx, hh => by
      rw [valueOf]
      exact .pure hs nofun
  | .long n, hint, s, hs, hx, hh => by
      rw [valueOf]
      exact .pure hs nofun
  | .classLiteral t, hint, s, hs, hx, hh => by
      rw [valueOf]
      refine (looks_typeOf _ t hs hx).map fun k v _ h ↦ ?_
      simpa [Model.KnowsAll, AnnotationValue.mentions, Mention.classes] using h
  | .enumConstant type constant, hint, s, hs, hx, hh => by
      rw [valueOf]
      refine .bind (looks_classOf hs hx type) fun c k hk hsound hc ↦ ?_
      refine .pure hsound ?_
      simpa [Model.KnowsAll, AnnotationValue.mentions, Mention.classes] using hc
  | .nested type values, hint, s, hs, hx, hh => by
      rw [valueOf]
      refine .bind (looks_classOf hs hx type) fun c k hk hsound hc ↦ ?_
      refine .bind (looks_shape? hsound c) fun shape l hl hlsound hshape ↦ ?_
      have hx' := hx.later (hk.grown.trans hl.grown)
      refine .bind (looks_valuesOf shape values hlsound hx' hshape) fun vs j hj hjsound hvs ↦ ?_
      have huse : j.Looks (Assemble.ofExcept (AnnotationUse.ofValues c shape vs)) fun m u ↦ m.KnowsAll u.mentions :=
        looks_ofValues hjsound (hj.grown.knows (hl.grown.knows hc)) hvs
      exact huse.map fun _ _ _ h ↦ h

theorem looks_itemsOf (member : String) : ∀ (ws : List WrittenValue) (hint : Option MemberKind) {s : Assembly},
    s.Sound → x.KnownTo s.model → (∀ e ∈ MemberKind.enumsOf hint, s.model.Knows e) →
    s.Looks (x.itemsOf member hint ws) fun m vs ↦ m.KnowsAll (AnnotationValue.mentionsEach vs)
  | [], hint, s, hs, hx, hh => by
      rw [itemsOf]
      exact .pure hs nofun
  | w :: ws, hint, s, hs, hx, hh => by
      rw [itemsOf]
      split
      · exact .throw_bind _
      · refine .bind (looks_valueOf member w hint hs hx hh) fun v k hk hsound hv ↦ ?_
        have hh' : ∀ e ∈ MemberKind.enumsOf hint, k.model.Knows e := fun e he ↦ hk.grown.knows (hh e he)
        refine .bind (looks_itemsOf member ws hint hsound (hx.later hk.grown) hh') fun vs l hl hlsound hvs ↦ ?_
        exact .pure hlsound ((hv.later hl.grown).append hvs)

theorem looks_valuesOf (shape : Option AnnotationShape) : ∀ (ws : List (String × WrittenValue)) {s : Assembly},
    s.Sound → x.KnownTo s.model → KnownShape s.model shape →
    s.Looks (x.valuesOf shape ws) fun m vs ↦ m.KnowsAll (AnnotationValue.mentionsMembers vs)
  | [], s, hs, hx, hshape => by
      rw [valuesOf]
      exact .pure hs nofun
  | (name, w) :: ws, s, hs, hx, hshape => by
      rw [valuesOf]
      refine .bind (looks_valueOf name w _ hs hx (hshape.hint name)) fun v k hk hsound hv ↦ ?_
      have hshape' : KnownShape k.model shape := fun sh hsh ↦ (hshape sh hsh).later hk.grown
      refine .bind (looks_valuesOf shape ws hsound (hx.later hk.grown) hshape') fun vs l hl hlsound hvs ↦ ?_
      exact .pure hlsound ((hv.later hl.grown).append hvs)

end

theorem yields_nested {member : String} {hint : Option MemberKind} {type : String}
    {values : List (String × WrittenValue)} {v : AnnotationValue} {t : Assembly} :
    (x.valueOf member hint (.nested type values)).Yields s v t ↔
      ∃ u, (x.useOf ⟨type, values⟩).Yields s u t ∧ v = .use u := by
  simp only [valueOf, useOf, Assemble.yields_bind, Assemble.yields_map]
  constructor
  · rintro ⟨c, k, hc, shape, l, hshape, vs, j, hvs, u, hu, rfl⟩
    exact ⟨u, ⟨c, k, hc, shape, l, hshape, vs, j, hvs, hu⟩, rfl⟩
  · rintro ⟨u, ⟨c, k, hc, shape, l, hshape, vs, j, hvs, hu⟩, rfl⟩
    exact ⟨c, k, hc, shape, l, hshape, vs, j, hvs, u, hu, rfl⟩

theorem looks_useOf (hs : s.Sound) (hx : x.KnownTo s.model) (a : WrittenAnnotation) :
    s.Looks (x.useOf a) fun m u ↦ m.KnowsAll u.mentions := by
  refine .bind (looks_classOf hs hx a.type) fun c k hk hsound hc ↦ ?_
  refine .bind (looks_shape? hsound c) fun shape l hl hlsound hshape ↦ ?_
  have hx' := hx.later (hk.grown.trans hl.grown)
  refine .bind (looks_valuesOf shape a.values hlsound hx' hshape) fun vs j hj hjsound hvs ↦ ?_
  exact looks_ofValues hjsound (hj.grown.knows (hl.grown.knows hc)) hvs

end Context
end JavaSource
