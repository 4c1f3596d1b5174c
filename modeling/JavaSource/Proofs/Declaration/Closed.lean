import JavaSource.Proofs.Declaration.Landing

/-!
# Types of a built model are closed

A type is looked up in a scope, and a type variable is refused that the scope does not have. So every type variable
in a built model is a type parameter of the method around it, of its class, or of a class around that. Array types and
instantiations are made through the checks of their parts, and no check is passed by.
-/

namespace JavaSource

/-! ## Types in a scope -/

namespace JavaType

mutual

/-- A type and all types in it. -/
def parts (t : JavaType) : List JavaType :=
  t :: match t with
    | .primitive _ | .reference _ | .anonymous _ | .wildcard | .var _ none => []
    | .narrowed _ args => partsEach args
    | .array u | .var _ (some u) | .wildcardExtends u | .wildcardSuper u => parts u

def partsEach : List JavaType → List JavaType
  | [] => []
  | t :: ts => parts t ++ partsEach ts

end

theorem mem_partsEach {t : JavaType} {ts : List JavaType} : t ∈ partsEach ts ↔ ∃ u ∈ ts, t ∈ u.parts := by
  induction ts with
  | nil => simp [partsEach]
  | cons u us ih => simp [partsEach, ih]

/-- Whether a type may be the component of an array. -/
def IsComponent : JavaType → Prop
  | .narrowed _ _ | .wildcard | .wildcardExtends _ | .wildcardSuper _ | .anonymous _ | .primitive .void => False
  | _ => True

/-- The type by itself, apart from the types in it, is one that stands in the scope of the type variables. -/
def LegalIn (vars : List String) : JavaType → Prop
  | .array component => component.IsComponent
  | .narrowed _ args => ∀ a ∈ args, ¬ a.isPrimitive
  | .var name _ => name ∈ vars
  | _ => True

/-- The type stands in the scope of the type variables, with every type in it. -/
def ProperIn (vars : List String) (t : JavaType) : Prop := ∀ u ∈ t.parts, u.LegalIn vars

variable {vars : List String}

theorem LegalIn.mono {others : List String} (h : vars ⊆ others) {t : JavaType} (ht : t.LegalIn vars) :
    t.LegalIn others := by
  cases t with
  | var name bound => exact h ht
  | _ => exact ht

theorem ProperIn.mono {others : List String} (h : vars ⊆ others) {t : JavaType} (ht : t.ProperIn vars) :
    t.ProperIn others :=
  fun u hu ↦ (ht u hu).mono h

@[simp] theorem properIn_primitive (p : Primitive) : (primitive p).ProperIn vars := by
  simp [ProperIn, parts, LegalIn]

@[simp] theorem properIn_reference (c : ClassId) : (reference c).ProperIn vars := by
  simp [ProperIn, parts, LegalIn]

@[simp] theorem properIn_wildcard : wildcard.ProperIn vars := by
  simp [ProperIn, parts, LegalIn]

@[simp] theorem properIn_var (name : String) : (var name none).ProperIn vars ↔ name ∈ vars := by
  simp [ProperIn, parts, LegalIn]

@[simp] theorem properIn_wildcardExtends (t : JavaType) : (wildcardExtends t).ProperIn vars ↔ t.ProperIn vars := by
  simp [ProperIn, parts, LegalIn]

@[simp] theorem properIn_wildcardSuper (t : JavaType) : (wildcardSuper t).ProperIn vars ↔ t.ProperIn vars := by
  simp [ProperIn, parts, LegalIn]

@[simp] theorem properIn_array (t : JavaType) :
    (array t).ProperIn vars ↔ t.IsComponent ∧ t.ProperIn vars := by
  simp [ProperIn, parts, LegalIn]

@[simp] theorem properIn_narrowed (c : ClassId) (args : List JavaType) :
    (narrowed c args).ProperIn vars ↔ ∀ a ∈ args, ¬ a.isPrimitive ∧ a.ProperIn vars := by
  simp only [ProperIn, parts, List.forall_mem_cons, LegalIn, mem_partsEach]
  constructor
  · rintro ⟨hargs, hparts⟩ a ha
    exact ⟨hargs a ha, fun u hu ↦ hparts u ⟨a, ha, hu⟩⟩
  · intro h
    refine ⟨fun a ha ↦ (h a ha).1, ?_⟩
    rintro u ⟨a, ha, hu⟩
    exact (h a ha).2 u hu

theorem ProperIn.raw {t : JavaType} (h : t.ProperIn vars) : t.raw.ProperIn vars := by
  cases t with
  | narrowed c args => exact properIn_reference c
  | _ => exact h

theorem ProperIn.of_arrayOf {t s : JavaType} (h : t.ProperIn vars) (hs : arrayOf t = .ok s) : s.ProperIn vars := by
  obtain ⟨hfault, rfl⟩ := arrayOf_eq_ok_iff.mp hs
  refine (properIn_array t).mpr ⟨?_, h⟩
  cases t with
  | primitive p => cases p <;> trivial
  | reference _ | array _ | var _ _ => trivial
  | narrowed _ _ | wildcard | wildcardExtends _ | wildcardSuper _ | anonymous _ => cases hfault

theorem ProperIn.of_narrow {c : ClassId} {args : List JavaType} {s : JavaType} (h : ∀ a ∈ args, a.ProperIn vars)
    (hs : (reference c).narrow args = .ok s) : s.ProperIn vars := by
  unfold narrow at hs
  split at hs
  · cases hs
  · rename_i hnone
    cases hs
    exact (properIn_narrowed c args).mpr fun a ha ↦ ⟨List.find?_eq_none.mp hnone a ha, h a ha⟩

end JavaType

/-! ## What is looked up stands in its scope -/

namespace Context

variable {x : Context} {scope : Scope} {s s' : Assembly}

mutual

theorem properIn_of_typeOf : ∀ (w : WrittenType) {s s' : Assembly} {t : JavaType},
    (x.typeOf scope w).Yields s t s' → t.ProperIn scope.vars
  | .primitive name, s, s', t, h => by
      rw [typeOf] at h
      split at h
      · obtain ⟨rfl, -⟩ := Assemble.yields_pure.mp h
        exact JavaType.properIn_primitive _
      · exact absurd h Assemble.yields_throw
  | .declared name args, s, s', t, h => by
      simp only [typeOf, Assemble.yields_bind] at h
      obtain ⟨c, k, -, h⟩ := h
      split at h
      · obtain ⟨rfl, -⟩ := Assemble.yields_pure.mp h
        exact JavaType.properIn_reference c
      · simp only [Assemble.yields_bind, Assemble.yields_ofExcept] at h
        obtain ⟨ts, l, hts, hnarrow, rfl⟩ := h
        exact .of_narrow (properIn_of_typesOf args hts) hnarrow
  | .array w, s, s', t, h => by
      simp only [typeOf, Assemble.yields_bind, Assemble.yields_ofExcept] at h
      obtain ⟨u, _, hu, harray, rfl⟩ := h
      exact (properIn_of_typeOf w hu).raw.of_arrayOf harray
  | .typeVar name, s, s', t, h => by
      rw [typeOf] at h
      split at h
      · rename_i hname
        obtain ⟨rfl, -⟩ := Assemble.yields_pure.mp h
        exact (JavaType.properIn_var name).mpr hname
      · exact absurd h Assemble.yields_throw
  | .wildcard none none, s, s', t, h => by
      rw [typeOf] at h
      obtain ⟨rfl, -⟩ := Assemble.yields_pure.mp h
      exact JavaType.properIn_wildcard
  | .wildcard (some upper) none, s, s', t, h => by
      rw [typeOf] at h
      obtain ⟨u, hu, rfl⟩ := Assemble.yields_map.mp h
      exact (JavaType.properIn_wildcardExtends u).mpr (properIn_of_typeOf upper hu)
  | .wildcard none (some lower), s, s', t, h => by
      rw [typeOf] at h
      obtain ⟨u, hu, rfl⟩ := Assemble.yields_map.mp h
      exact (JavaType.properIn_wildcardSuper u).mpr (properIn_of_typeOf lower hu)
  | .wildcard (some _) (some _), s, s', t, h => by
      rw [typeOf] at h
      exact absurd h Assemble.yields_throw
  | .unresolved name, s, s', t, h => by
      rw [typeOf] at h
      split at h
      · exact absurd h Assemble.yields_throw
      · obtain ⟨c, -, rfl⟩ := Assemble.yields_map.mp h
        exact JavaType.properIn_reference c

theorem properIn_of_typesOf : ∀ (ws : List WrittenType) {s s' : Assembly} {ts : List JavaType},
    (x.typesOf scope ws).Yields s ts s' → ∀ t ∈ ts, t.ProperIn scope.vars
  | [], s, s', ts, h => by
      rw [typesOf] at h
      obtain ⟨rfl, -⟩ := Assemble.yields_pure.mp h
      exact nofun
  | w :: ws, s, s', ts, h => by
      simp only [typesOf, Assemble.yields_bind, Assemble.yields_pure] at h
      obtain ⟨t, k, ht, us, l, hus, rfl, -⟩ := h
      exact List.forall_mem_cons.mpr ⟨properIn_of_typeOf w ht, properIn_of_typesOf ws hus⟩

end

theorem properIn_of_typeOf? {w : Option WrittenType} {t : Option JavaType} (h : (x.typeOf? scope w).Yields s t s') :
    ∀ u, t = some u → u.ProperIn scope.vars := by
  cases w with
  | none =>
      obtain ⟨rfl, -⟩ := Assemble.yields_pure.mp h
      exact nofun
  | some w =>
      obtain ⟨v, hv, rfl⟩ := Assemble.yields_map.mp h
      rintro u ⟨⟩
      exact properIn_of_typeOf w hv

theorem properIn_of_typeParam {d : TypeParamDeclaration} {v : TypeVar} (h : (x.typeParam scope d).Yields s v s') :
    ∀ t, v.bound = some t → t.ProperIn scope.vars := by
  simp only [typeParam, Assemble.yields_bind, Assemble.yields_pure] at h
  obtain ⟨t, _, ht, rfl, -⟩ := h
  exact properIn_of_typeOf? ht

theorem properIn_of_typedParam {d : ParamDeclaration} {p : TypedParam} (h : (x.typedParam scope d).Yields s p s') :
    p.type.ProperIn scope.vars := by
  simp only [typedParam, Assemble.yields_bind, Assemble.yields_pure] at h
  obtain ⟨t, _, ht, rfl, -⟩ := h
  exact properIn_of_typeOf d.type ht

/-! Class literals are looked up where there are no type variables. -/

mutual

theorem properIn_of_valueOf (member : String) : ∀ (w : WrittenValue) (hint : Option MemberKind) {s s' : Assembly}
    {v : AnnotationValue}, (x.valueOf member hint w).Yields s v s' → ∀ t, .type t ∈ v.mentions → t.ProperIn []
  | .bool _, hint, s, s', v, h | .char _, hint, s, s', v, h | .long _, hint, s, s', v, h => by
      rw [valueOf] at h
      obtain ⟨rfl, -⟩ := Assemble.yields_pure.mp h
      exact nofun
  | .int n, hint, s, s', v, h => by
      rw [valueOf] at h
      obtain ⟨rfl, -⟩ := Assemble.yields_pure.mp h
      unfold AnnotationValue.ofInteger
      repeat' split
      all_goals exact nofun
  | .float y, hint, s, s', v, h => by
      rw [valueOf] at h
      obtain ⟨rfl, -⟩ := Assemble.yields_pure.mp h
      unfold AnnotationValue.ofFloat
      split <;> exact nofun
  | .string str, hint, s, s', v, h => by
      rw [valueOf] at h
      split at h
      · rename_i w hw
        obtain ⟨rfl, -⟩ := Assemble.yields_pure.mp h
        unfold AnnotationValue.ofString at hw
        split at hw
        · split at hw <;> cases hw
          exact nofun
        · cases hw
          intro t ht
          cases List.mem_singleton.mp ht
        · cases hw
          exact nofun
      · exact absurd h Assemble.yields_throw
  | .array items, hint, s, s', v, h => by
      rw [valueOf] at h
      obtain ⟨vs, hvs, rfl⟩ := Assemble.yields_map.mp h
      exact properIn_of_itemsOf member items _ hvs
  | .classLiteral w, hint, s, s', v, h => by
      rw [valueOf] at h
      obtain ⟨u, hu, rfl⟩ := Assemble.yields_map.mp h
      intro t ht
      cases List.mem_singleton.mp ht
      exact properIn_of_typeOf w hu
  | .enumConstant type constant, hint, s, s', v, h => by
      simp only [valueOf, Assemble.yields_bind, Assemble.yields_pure] at h
      obtain ⟨c, _, -, rfl, -⟩ := h
      intro t ht
      cases List.mem_singleton.mp ht
  | .nested type values, hint, s, s', v, h => by
      simp only [valueOf, Assemble.yields_bind, Assemble.yields_map, Assemble.yields_ofExcept] at h
      obtain ⟨c, _, -, shape, _, -, vs, _, hvs, u, ⟨hu, -⟩, rfl⟩ := h
      intro t ht
      rcases List.mem_cons.mp (AnnotationUse.mentions_ofValues hu ht) with heq | hmem
      · cases heq
      · exact properIn_of_valuesOf shape values hvs t hmem

theorem properIn_of_itemsOf (member : String) : ∀ (ws : List WrittenValue) (hint : Option MemberKind) {s s' : Assembly}
    {vs : List AnnotationValue}, (x.itemsOf member hint ws).Yields s vs s' →
      ∀ t, .type t ∈ AnnotationValue.mentionsEach vs → t.ProperIn []
  | [], hint, s, s', vs, h => by
      rw [itemsOf] at h
      obtain ⟨rfl, -⟩ := Assemble.yields_pure.mp h
      exact nofun
  | w :: ws, hint, s, s', vs, h => by
      rw [itemsOf] at h
      split at h
      · obtain ⟨_, _, h, -⟩ := Assemble.yields_bind.mp h
        exact absurd h Assemble.yields_throw
      · simp only [Assemble.yields_bind, Assemble.yields_pure] at h
        obtain ⟨v, k, hv, us, _, hus, rfl, -⟩ := h
        intro t ht
        rcases List.mem_append.mp ht with ht | ht
        · exact properIn_of_valueOf member w hint hv t ht
        · exact properIn_of_itemsOf member ws hint hus t ht

theorem properIn_of_valuesOf (shape : Option AnnotationShape) : ∀ (ws : List (String × WrittenValue)) {s s' : Assembly}
    {vs : List (String × AnnotationValue)}, (x.valuesOf shape ws).Yields s vs s' →
      ∀ t, .type t ∈ AnnotationValue.mentionsMembers vs → t.ProperIn []
  | [], s, s', vs, h => by
      rw [valuesOf] at h
      obtain ⟨rfl, -⟩ := Assemble.yields_pure.mp h
      exact nofun
  | (name, w) :: ws, s, s', vs, h => by
      simp only [valuesOf, Assemble.yields_bind, Assemble.yields_pure] at h
      obtain ⟨v, k, hv, us, _, hus, rfl, -⟩ := h
      intro t ht
      rcases List.mem_append.mp ht with ht | ht
      · exact properIn_of_valueOf name w _ hv t ht
      · exact properIn_of_valuesOf shape ws hus t ht

end

theorem properIn_of_useOf {a : WrittenAnnotation} {u : AnnotationUse} (h : (x.useOf a).Yields s u s') {t : JavaType}
    (ht : .type t ∈ u.mentions) : t.ProperIn [] := by
  simp only [useOf, Assemble.yields_bind, Assemble.yields_ofExcept] at h
  obtain ⟨c, _, -, shape, _, -, vs, _, hvs, hu, -⟩ := h
  rcases List.mem_cons.mp (AnnotationUse.mentions_ofValues hu ht) with heq | hmem
  · cases heq
  · exact properIn_of_valuesOf shape a.values hvs t hmem

end Context

/-! ## Members of a class -/

theorem Param.mem_mentions_cases {p : Param} {y : Mention} (hy : y ∈ p.mentions) :
    y ∈ p.stripped.mentions ∨ ∃ u ∈ p.annotations, y ∈ u.mentions := by
  rcases List.mem_append.mp hy with hy | hy
  · exact Or.inr (List.mem_flatMap.mp hy)
  · exact Or.inl hy

theorem Field.mem_mentions_cases {f : Field} {y : Mention} (hy : y ∈ f.mentions) :
    y ∈ f.stripped.mentions ∨ ∃ u ∈ f.annotations, y ∈ u.mentions := by
  rcases List.mem_append.mp hy with hy | hy
  · exact Or.inr (List.mem_flatMap.mp hy)
  · exact Or.inl hy

/-- What a method mentions is in its signature and body, in an annotation or in the default. -/
theorem Method.mem_mentions_cases {m : Method} {y : Mention} (hy : y ∈ m.mentions) :
    y ∈ m.stripped.mentions ∨ (∃ u ∈ m.uses, y ∈ u.mentions) ∨ ∃ v, m.defaultValue = some v ∧ y ∈ v.mentions := by
  have hparams : m.stripped.allParams = m.allParams.map Param.stripped := m.allParams_stripped
  simp only [mentions, List.mem_append, hparams] at hy ⊢
  rcases hy with (((((hy | hy) | hy) | hy) | hy) | hy) | hy
  · obtain ⟨u, hu, hy⟩ := List.mem_flatMap.mp hy
    exact Or.inr (Or.inl ⟨u, List.mem_append_left _ hu, hy⟩)
  · exact Or.inl (Or.inl (Or.inl (Or.inl (Or.inl (Or.inl (Or.inr hy))))))
  · exact Or.inl (Or.inl (Or.inl (Or.inl (Or.inl (Or.inr hy)))))
  · obtain ⟨p, hp, hy⟩ := List.mem_flatMap.mp hy
    rcases p.mem_mentions_cases hy with hy | ⟨u, hu, hy⟩
    · have hmem := List.mem_flatMap.mpr ⟨p.stripped, List.mem_map_of_mem hp, hy⟩
      exact Or.inl (Or.inl (Or.inl (Or.inl (Or.inr hmem))))
    · have hmem := List.mem_flatMap.mpr ⟨p, hp, hu⟩
      exact Or.inr (Or.inl ⟨u, List.mem_append_right _ hmem, hy⟩)
  · exact Or.inl (Or.inl (Or.inl (Or.inr hy)))
  · obtain ⟨v, hv, hy⟩ := List.mem_flatMap.mp hy
    exact Or.inr (Or.inr ⟨v, Option.mem_toList.mp hv, hy⟩)
  · exact Or.inl (Or.inr hy)

theorem Method.mentions_stripped_subset (m : Method) : m.stripped.mentions ⊆ m.mentions := by
  have hparams : m.stripped.allParams = m.allParams.map Param.stripped := m.allParams_stripped
  intro y hy
  simp only [mentions, List.mem_append, hparams, List.mem_flatMap (l := m.allParams.map _)] at hy ⊢
  rcases hy with (((((hy | hy) | hy) | ⟨q, hq, hy⟩) | hy) | hy) | hy
  · cases hy
  · exact Or.inl (Or.inl (Or.inl (Or.inl (Or.inl (Or.inr hy)))))
  · exact Or.inl (Or.inl (Or.inl (Or.inl (Or.inr hy))))
  · obtain ⟨p, hp, rfl⟩ := List.mem_map.mp hq
    have hmem : y ∈ p.mentions := List.mem_append_right _ hy
    exact Or.inl (Or.inl (Or.inl (Or.inr (List.mem_flatMap.mpr ⟨p, hp, hmem⟩))))
  · exact Or.inl (Or.inl (Or.inr hy))
  · cases hy
  · exact Or.inr hy

/-! ## Classes of a built model -/

namespace Model

/-- The type parameters of a class and of the classes around it. -/
def typeVarsAt (m : Model) (c : ClassId) : List String :=
  (c :: m.outers c).flatMap fun d ↦ (m.entry d).typeParams.map (·.name)

/-- The types at a class stand in its scope: those of its header and its fields, with the class literals in
annotations, in the type parameters of the class and of those around it, those of a method in its own as well. -/
structure ClosedAt (m : Model) (c : ClassId) : Prop where
  header : ∀ t, .type t ∈ (m.entry c).headerMentions → t.ProperIn (m.typeVarsAt c)
  fields : ∀ f ∈ (m.entry c).fields, ∀ t, .type t ∈ f.mentions → t.ProperIn (m.typeVarsAt c)
  methods : ∀ n ∈ (m.entry c).methods, ∀ t, .type t ∈ n.mentions →
    t.ProperIn (n.typeParams.map (·.name) ++ m.typeVarsAt c)

end Model

theorem TypeDeclaration.mem_vars_scopeWithin {package name : String} {ts : List TypeDeclaration} :
    name ∈ (scopeWithin package ts).vars ↔ ∃ t ∈ ts, name ∈ t.typeParams.map (·.name) := by
  induction ts with
  | nil => simp [scopeWithin]
  | cons t ts ih =>
      rw [scopeWithin, memberScope, Scope.enter, List.mem_append, ih, List.exists_mem_cons_iff, or_comm]

theorem Model.Carries.vars_subset {m : Model} {e : TypeElement} {c : ClassId} (h : m.Carries e c) :
    e.scope.vars ⊆ m.typeVarsAt c := by
  intro name hname
  obtain ⟨t, ht, hname⟩ := TypeDeclaration.mem_vars_scopeWithin.mp hname
  obtain ⟨d, hd, hdeclares⟩ := List.exists_mem_left_of_forall₂ h.chain ht
  rw [← hdeclares.typeParams] at hname
  exact List.mem_flatMap.mpr ⟨d, hd, hname⟩

theorem TypedParam.properIn_toVarargs {p : TypedParam} {vars : List String} (h : p.type.ProperIn vars) :
    p.toVarargs.type.ProperIn vars := by
  unfold toVarargs
  cases hp : p.type with
  | array t =>
      rw [hp] at h
      exact ((JavaType.properIn_array t).mp h).2
  | _ => simpa only [hp, JavaType.component?, Option.getD_none] using h

/-- The types of a method stand in its scope. -/
theorem MethodDeclaration.Found.properIn {x : Context} {outer : Scope} {c : ClassId} {s : Assembly}
    {d : MethodDeclaration} {m : Method} (hs : s.Sound) (h : d.Found x outer c s m) {t : JavaType}
    (ht : .type t ∈ m.mentions) : t.ProperIn (m.typeParams.map (·.name) ++ outer.vars) := by
  have hdeclares := MethodDeclaration.declares_of_found hs h
  obtain ⟨-, typeParams, returnType, params, throws, h₁, h₂, h₃, h₄, rfl⟩ := h
  have hvars : (d.scope outer (s.model.entry c).name).vars ⊆
      (d.toMethod (s.model.entry c) typeParams returnType params throws).typeParams.map (·.name) ++ outer.vars := by
    rw [hdeclares.typeParams]
    exact List.append_subset.mpr ⟨List.subset_append_right _ _, List.subset_append_left _ _⟩
  rcases d.mem_mentions_toMethod ht with ⟨v, hv, u, hu, ⟨⟩⟩ | ⟨u, hu, ⟨⟩⟩ | ⟨⟨⟩⟩ | ⟨p, hp, hu⟩ | ⟨u, hu, ⟨⟩⟩
  · have hbounds := Assemble.forall_of_yields_mapM (fun _ _ _ _ ↦ Context.properIn_of_typeParam) (h₁.settled hs)
    exact (hbounds v hv t hu).mono hvars
  · exact (Context.properIn_of_typeOf? (h₂.settled hs) t hu).mono hvars
  · exact JavaType.properIn_primitive _
  · have htypes := Assemble.forall_of_yields_mapM (fun _ _ _ _ ↦ Context.properIn_of_typedParam) (h₃.settled hs)
    have hp := (htypes p hp).mono hvars
    rcases hu with ⟨⟨⟩⟩ | ⟨⟨⟩⟩
    · exact hp
    · exact TypedParam.properIn_toVarargs hp
  · exact (Context.properIn_of_typesOf d.throws (h₄.settled hs) t hu).mono hvars

/-- The types in the header of a class stand in the scope of its members. -/
theorem TypeDeclaration.Filled.properIn_header {x : Context} {scope : Scope} {s : Assembly} {d : TypeDeclaration}
    {c : ClassId} {e : ClassEntry} (hs : s.Sound) (h : d.Filled x scope s c e) {t : JavaType}
    (ht : .type t ∈ e.stripped.headerMentions) : t.ProperIn scope.vars := by
  simp only [ClassEntry.headerMentions, List.mem_append] at ht
  rcases ht with ((ht | ht) | ht) | ht
  · cases ht
  · obtain ⟨v, hv, ht⟩ := List.mem_flatMap.mp ht
    obtain ⟨u, hu, ⟨⟩⟩ := List.mem_map.mp ht
    obtain ⟨d, -, hd⟩ := List.exists_mem_left_of_forall₂ h.typeParams hv
    exact Context.properIn_of_typeParam (hd.settled hs) t (Option.mem_toList.mp hu)
  · obtain ⟨type, htype, hsuper⟩ := h.superclass
    obtain ⟨base, hbase, ht⟩ := List.mem_flatMap.mp ht
    cases List.mem_singleton.mp ht
    have hbase : e.superclass = some base := Option.mem_toList.mp hbase
    rw [hsuper, Assembly.superclassOf, Option.bind_eq_some_iff] at hbase
    obtain ⟨u, hu, hbase⟩ := hbase
    rw [ClassType.toType_of_ofType? hbase]
    exact Context.properIn_of_typeOf? (htype.settled hs) u (Option.filter_eq_some_iff.mp hu).1
  · obtain ⟨is, his, hfold⟩ := h.interfaces
    obtain ⟨i, hi, ht⟩ := List.mem_flatMap.mp ht
    cases List.mem_singleton.mp ht
    have hi : i ∈ is.foldl addOnce [] := hfold ▸ hi
    obtain ⟨w, -, hw⟩ := List.exists_mem_left_of_forall₂ his ((mem_of_mem_foldl_addOnce hi).resolve_left List.not_mem_nil)
    exact Context.properIn_of_typeOf w (hw.settled hs)

namespace Declarations

variable {d : Declarations} {x : Context} {s : Assembly} {ps : List Placed} {p : Placed} {t : JavaType}

namespace Assembled

theorem vars_subset (h : d.Assembled x s ps) (hp : p ∈ ps) : p.scope.vars ⊆ s.model.typeVarsAt p.id := by
  obtain ⟨e, he, hplace⟩ := h.exists_element hp
  rw [hplace.scope]
  exact (h.carries he hplace.stands).vars_subset

/-- Class literals in annotations have no type variables. -/
theorem properIn_of_mem_uses (h : d.Assembled x s ps) (hp : p ∈ ps) {u : AnnotationUse}
    (hu : u ∈ (s.model.entry p.id).uses) (ht : .type t ∈ u.mentions) : t.ProperIn [] := by
  obtain ⟨a, ha⟩ := (h.bears hp).exists_of_mem_uses hu
  exact Context.properIn_of_useOf (ha.settled h.sound) ht

theorem properIn_of_default (h : d.Assembled x s ps) (hp : p ∈ ps) {m : Method}
    (hm : m ∈ (s.model.entry p.id).methods) {v : AnnotationValue} (hv : m.defaultValue = some v)
    (ht : .type t ∈ v.mentions) : t.ProperIn [] := by
  obtain ⟨w, hw⟩ := (h.bears hp).exists_of_default hm hv
  exact Context.properIn_of_valueOf _ w _ (hw.settled h.sound) t ht

theorem properIn_header (h : d.Assembled x s ps) (hp : p ∈ ps)
    (ht : .type t ∈ (s.model.entry p.id).headerMentions) : t.ProperIn (s.model.typeVarsAt p.id) := by
  obtain ⟨bare, hfilled, hstripped⟩ := (h.built p hp).stripped_eq
  have hheader : (s.model.entry p.id).headerMentions = (s.model.entry p.id).annotations.flatMap
      AnnotationUse.mentions ++ (s.model.entry p.id).stripped.headerMentions := by
    simp [ClassEntry.headerMentions, ClassEntry.stripped]
  rw [hheader] at ht
  rcases List.mem_append.mp ht with ht | ht
  · obtain ⟨u, hu, ht⟩ := List.mem_flatMap.mp ht
    have hmem : u ∈ (s.model.entry p.id).uses := List.mem_append_left _ (List.mem_append_left _ hu)
    exact (h.properIn_of_mem_uses hp hmem ht).mono (List.nil_subset _)
  · rw [hstripped] at ht
    exact (hfilled.properIn_header h.sound ht).mono (h.vars_subset hp)

theorem properIn_field (h : d.Assembled x s ps) (hp : p ∈ ps) {f : Field} (hf : f ∈ (s.model.entry p.id).fields)
    (ht : .type t ∈ f.mentions) : t.ProperIn (s.model.typeVarsAt p.id) := by
  obtain ⟨bare, hfilled, hstripped⟩ := (h.built p hp).stripped_eq
  have hfields : (s.model.entry p.id).fields.map Field.stripped = bare.fields.map Field.stripped :=
    congrArg (·.fields) hstripped
  rcases f.mem_mentions_cases ht with ht | ⟨u, hu, ht⟩
  · obtain ⟨b, hb, hsame⟩ := List.mem_map.mp (hfields ▸ List.mem_map_of_mem hf)
    obtain ⟨w, -, type, hw, rfl⟩ := List.exists_mem_left_of_forall₂ hfilled.fields hb
    rw [← hsame] at ht
    cases List.mem_singleton.mp ht
    exact (Context.properIn_of_typeOf w.type (hw.settled h.sound)).mono (h.vars_subset hp)
  · have hmem : u ∈ (s.model.entry p.id).uses :=
      List.mem_append_left _ (List.mem_append_right _ (List.mem_flatMap.mpr ⟨f, hf, hu⟩))
    exact (h.properIn_of_mem_uses hp hmem ht).mono (List.nil_subset _)

theorem properIn_method (h : d.Assembled x s ps) (hp : p ∈ ps) {n : Method} (hn : n ∈ (s.model.entry p.id).methods)
    (ht : .type t ∈ n.mentions) : t.ProperIn (n.typeParams.map (·.name) ++ s.model.typeVarsAt p.id) := by
  obtain ⟨bare, hfilled, hstripped⟩ := (h.built p hp).stripped_eq
  have hmethods : (s.model.entry p.id).methods.map Method.stripped = bare.methods.map Method.stripped :=
    congrArg (·.methods) hstripped
  rcases n.mem_mentions_cases ht with ht | ⟨u, hu, ht⟩ | ⟨v, hv, ht⟩
  · obtain ⟨b, hb, hsame⟩ := List.mem_map.mp (hmethods ▸ List.mem_map_of_mem hn)
    obtain ⟨w, -, hw⟩ := List.exists_mem_left_of_forall₂ hfilled.methods hb
    have htypeParams : b.typeParams = n.typeParams := congrArg (·.typeParams) hsame
    rw [← hsame] at ht
    have hproper := hw.properIn h.sound (b.mentions_stripped_subset ht)
    rw [htypeParams] at hproper
    exact hproper.mono (List.append_subset.mpr ⟨List.subset_append_left _ _,
      List.subset_append_of_subset_right _ (h.vars_subset hp)⟩)
  · have hmem : u ∈ (s.model.entry p.id).uses := List.mem_append_right _ (List.mem_flatMap.mpr ⟨n, hn, hu⟩)
    exact (h.properIn_of_mem_uses hp hmem ht).mono (List.nil_subset _)
  · exact (h.properIn_of_default hp hn hv ht).mono (List.nil_subset _)

end Assembled

/-- The types at the defined classes of a built model stand in their scopes. -/
theorem closed_of_build {policy : UnresolvedPolicy} {m : Model} {classes : List ClassId}
    (h : d.build policy = .ok (m, classes)) : ∀ c, (m.entry c).isDefined → m.ClosedAt c := by
  obtain ⟨t, ps, hassembled, rfl, -⟩ := assembled_of_build h
  intro c hc
  have horigin : (t.model.entry c).origin = .defined := of_decide_eq_true hc
  obtain ⟨p, hp, rfl⟩ := List.mem_map.mp (hassembled.defined c horigin)
  constructor
  · exact fun u hu ↦ hassembled.properIn_header hp hu
  · exact fun f hf u hu ↦ hassembled.properIn_field hp hf hu
  · exact fun n hn u hu ↦ hassembled.properIn_method hp hn hu

theorem closed_of_build_palette :
    ∃ m classes, palette.build .fail = .ok (m, classes) ∧ ∀ c, (m.entry c).isDefined → m.ClosedAt c := by
  have hok : (palette.build .fail).isOk = true := by decide +kernel
  obtain ⟨m, classes, h⟩ := exists_build_eq_ok hok
  exact ⟨m, classes, h, closed_of_build h⟩

end Declarations
end JavaSource
