import JavaSource.Proofs.Declaration.Work

/-!
# Members of declared types

What the entry of a class is after its members were added: everything that was written, in the order in which
it was written, with types as they are found.
-/

namespace JavaSource

namespace TypedParam

def toParam (p : TypedParam) : Param := { mods := p.mods, type := p.type, name := p.name }

/-- The parameter for any number of values. -/
def toVarargs (p : TypedParam) : Param :=
  { mods := p.mods, type := p.type.component?.getD p.type, name := p.name }

end TypedParam

theorem mem_of_mem_foldl_addOnce {α : Type} [DecidableEq α] {as l : List α} {b : α}
    (h : b ∈ as.foldl addOnce l) : b ∈ l ∨ b ∈ as := by
  induction as generalizing l with
  | nil => exact Or.inl h
  | cons a as ih =>
      rcases ih h with h | h
      · rcases mem_addOnce.mp h with h | rfl
        · exact Or.inl h
        · exact Or.inr (List.mem_cons_self ..)
      · exact Or.inr (List.mem_cons_of_mem _ h)

namespace MethodDeclaration

/-- The method of a declaration in a class, without a signature. -/
def bare (d : MethodDeclaration) (e : ClassEntry) (returnType : JavaType) : Method :=
  let mods := DeclaredModifier.carried d.modifiers
  { owner := e.id
    name := if d.isConstructor then e.name else d.name
    mods
    returnType := if d.isConstructor then none else some returnType
    body := if d.isConstructor then some [] else if e.startsBodiless mods then none else some [] }

/-- The method that a declaration adds to a class, its types looked up. -/
def toMethod (d : MethodDeclaration) (e : ClassEntry) (typeParams : List TypeVar) (returnType : Option JavaType)
    (params : List TypedParam) (throws : List JavaType) : Method :=
  { d.bare e (returnType.getD (.primitive .void)) with
    typeParams
    params := (if d.hasVarargs then params.dropLast else params).map TypedParam.toParam
    varargs := if d.hasVarargs then params.getLast?.map TypedParam.toVarargs else none
    throws := throws.foldl addOnce []
    javadoc := d.javadoc }

theorem toMethod_congr {e f : ClassEntry} (h : e.SameOrigin f) (d : MethodDeclaration) (typeParams : List TypeVar)
    (returnType : Option JavaType) (params : List TypedParam) (throws : List JavaType) :
    d.toMethod f typeParams returnType params throws = d.toMethod e typeParams returnType params throws := by
  have hbodiless : ∀ mods, f.startsBodiless mods = e.startsBodiless mods := fun mods ↦ by
    simp only [ClassEntry.startsBodiless, h.kind]
  simp only [toMethod, bare, h.id, h.name, hbodiless]

/-- A method speaks of the types that were looked up for it. -/
theorem mem_mentions_toMethod (d : MethodDeclaration) {e : ClassEntry} {typeParams : List TypeVar}
    {returnType : Option JavaType} {params : List TypedParam} {throws : List JavaType} {y : Mention}
    (hy : y ∈ (d.toMethod e typeParams returnType params throws).mentions) :
    (∃ v ∈ typeParams, ∃ t, v.bound = some t ∧ y = .type t) ∨ (∃ t, returnType = some t ∧ y = .type t) ∨
      y = .type (.primitive .void) ∨ (∃ p ∈ params, y = .type p.type ∨ y = .type p.toVarargs.type) ∨
      ∃ t ∈ throws, y = .type t := by
  rw [Method.mem_mentions] at hy
  rcases hy with hy | hy | hy | hy | hy | hy | hy | hy
  · cases hy
  · obtain ⟨v, hv, hy⟩ := List.mem_flatMap.mp hy
    obtain ⟨t, ht, rfl⟩ := List.mem_map.mp hy
    exact Or.inl ⟨v, hv, t, Option.mem_toList.mp ht, rfl⟩
  · obtain ⟨t, ht, rfl⟩ := List.mem_map.mp hy
    simp only [toMethod, bare] at ht
    split at ht
    · cases ht
    · obtain rfl := Option.some.inj (Option.mem_toList.mp ht)
      cases returnType with
      | none => exact Or.inr (Or.inr (Or.inl rfl))
      | some t => exact Or.inr (Or.inl ⟨t, rfl, rfl⟩)
  · obtain ⟨q, hq, hy⟩ := List.mem_flatMap.mp hy
    obtain ⟨p, hp, rfl⟩ := List.mem_map.mp hq
    have hp : p ∈ params := by
      split at hp
      · exact List.dropLast_subset _ hp
      · exact hp
    exact Or.inr (Or.inr (Or.inr (Or.inl ⟨p, hp, Or.inl (List.mem_singleton.mp hy)⟩)))
  · obtain ⟨q, hq, hy⟩ := List.mem_flatMap.mp hy
    rw [Option.mem_toList] at hq
    simp only [toMethod] at hq
    split at hq
    · obtain ⟨p, hp, rfl⟩ := Option.map_eq_some_iff.mp hq
      exact Or.inr (Or.inr (Or.inr (Or.inl ⟨p, List.mem_of_getLast? hp, Or.inr (List.mem_singleton.mp hy)⟩)))
    · cases hq
  · obtain ⟨t, ht, rfl⟩ := List.mem_map.mp hy
    exact Or.inr (Or.inr (Or.inr (Or.inr ⟨t, (mem_of_mem_foldl_addOnce ht).resolve_left nofun, rfl⟩)))
  · cases hy
  · obtain ⟨b, hb, hy⟩ := List.mem_flatMap.mp hy
    rw [Option.mem_toList] at hb
    simp only [toMethod, bare] at hb
    split at hb
    · cases hb
      cases hy
    · split at hb
      · cases hb
      · cases hb
        cases hy

end MethodDeclaration

/-! ## The method added last -/

/-- The method `n` comes of `m` by changes that mention nothing else. -/
def Method.Steps (m : Method) (xs : List Mention) (n : Method) : Prop :=
  ∃ steps : List MethodStep, steps.foldlM MethodStep.apply m = .ok n ∧ steps.flatMap MethodStep.mentions ⊆ xs

namespace Method.Steps

variable {m n k : Method} {xs : List Mention}

theorem refl (m : Method) (xs : List Mention) : m.Steps xs m := ⟨[], rfl, List.nil_subset _⟩

theorem cons {s : MethodStep} (h : s.apply m = .ok k) (hs : s.mentions ⊆ xs) (hk : k.Steps xs n) :
    m.Steps xs n := by
  obtain ⟨ts, hts, hxs⟩ := hk
  refine ⟨s :: ts, ?_, List.append_subset.mpr ⟨hs, hxs⟩⟩
  rw [List.foldlM_cons, h]
  exact hts

end Method.Steps

namespace ClassEntry

def addedMethod (e : ClassEntry) (m : Method) : ClassEntry := { e with methods := e.methods ++ [m] }

theorem updateMethod_addedMethod (e : ClassEntry) (m : Method) (f : Method → Except ModelError Method) :
    (e.addedMethod m).updateMethod e.methods.length f = (f m).map e.addedMethod := by
  have hget : (e.addedMethod m).methods[e.methods.length]? = some m := by
    simp [addedMethod]
  rw [updateMethod, hget]
  simp only
  cases f m with
  | error fault => rfl
  | ok n => simp [addedMethod, Except.map, bind, Except.bind, pure, Except.pure]

theorem modifyMethod_addedMethod (e : ClassEntry) (m : Method) (f : Method → Method) :
    (e.addedMethod m).modifyMethod e.methods.length f = e.addedMethod (f m) := by
  have hlast : ∀ l : List Method, (l ++ [m]).modify l.length f = l ++ [f m] := by
    intro l
    induction l with
    | nil => rfl
    | cons n l ih => simp [ih]
  simp only [modifyMethod, addedMethod, hlast]

theorem steps_addedMethod (e : ClassEntry) {m n : Method} {xs : List Mention} (h : m.Steps xs n) :
    (e.addedMethod m).Steps xs (e.addedMethod n) := by
  obtain ⟨steps, h, hxs⟩ := h
  induction steps generalizing m with
  | nil =>
      cases h
      exact .refl _ _
  | cons s steps ih =>
      rw [List.foldlM_cons, Except.bind_eq_ok] at h
      obtain ⟨k, hk, h⟩ := h
      rw [List.flatMap_cons, List.append_subset] at hxs
      have hstep : MemberStep.apply (e.addedMethod m) (.inMethod e.methods.length s) =
          .ok (e.addedMethod k) := by
        rw [MemberStep.apply, updateMethod_addedMethod, hk]
        rfl
      exact (Steps.single hstep hxs.1).trans (ih h hxs.2)

end ClassEntry

theorem TypedParam.addTo_eq_ok {m n : Method} {p : TypedParam} (h : p.addTo m = .ok n) :
    n = { m with params := m.params ++ [p.toParam] } :=
  (Method.addParam_eq_ok h).2.2.2

theorem TypedParam.addVarargsTo_eq_ok {m n : Method} {p : TypedParam} (h : p.addVarargsTo m = .ok n) :
    ∃ k, m.setVarargs (p.type.component?.getD p.type) p.name = .ok k ∧
      k.modifyParam m.params.length (fun q ↦ { q with mods := p.mods, type := p.type.component?.getD p.type }) = n ∧
      n = { m with varargs := some p.toVarargs } := by
  rw [addVarargsTo, Except.bind_eq_ok] at h
  obtain ⟨k, hk, h⟩ := h
  cases h
  obtain ⟨-, -, -, rfl⟩ := Method.setVarargs_eq_ok hk
  exact ⟨_, hk, by simp [Method.modifyParam], rfl⟩

theorem TypedParam.steps_addTo {m n : Method} {p : TypedParam} (h : p.addTo m = .ok n) : m.Steps [.type p.type] n :=
  .cons (s := .param p.mods p.type p.name) h (List.Subset.refl _) (.refl _ _)

theorem TypedParam.steps_addVarargsTo {m n : Method} {p : TypedParam} (h : p.addVarargsTo m = .ok n) :
    m.Steps [.type p.toVarargs.type] n := by
  obtain ⟨k, hk, hadjust, -⟩ := addVarargsTo_eq_ok h
  refine .cons (s := .varargs p.toVarargs.type p.name) hk (List.Subset.refl _) ?_
  refine .cons (s := .adjustParam m.params.length p.mods p.toVarargs.type) ?_ (List.Subset.refl _) (.refl n _)
  rw [MethodStep.apply, ← hadjust]
  rfl

theorem TypedParam.classes_toVarargs_subset (p : TypedParam) : p.toVarargs.type.classes ⊆ p.type.classes := by
  unfold toVarargs
  cases p.type <;> simp [JavaType.component?, JavaType.classes]

theorem Method.foldl_addThrows (ts : List JavaType) (m : Method) :
    ts.foldl addThrows m = { m with throws := ts.foldl addOnce m.throws } := by
  induction ts generalizing m with
  | nil => rfl
  | cons t ts ih => rw [List.foldl_cons, ih, List.foldl_cons, addThrows]

theorem Method.steps_foldl_addThrows {ts : List JavaType} {xs : List Mention} (h : ts.map .type ⊆ xs) {n : Method}
    (m : Method) (hn : (ts.foldl addThrows m).Steps xs n) : m.Steps xs n := by
  induction ts generalizing m with
  | nil => exact hn
  | cons t ts ih =>
      rw [List.map_cons, List.cons_subset] at h
      have hstep : MethodStep.apply m (.throws t) = .ok (m.addThrows t) := rfl
      refine .cons hstep ?_ (ih h.2 _ hn)
      exact List.cons_subset.mpr ⟨h.1, List.nil_subset _⟩

namespace Assembly

variable {x : Context} {c : ClassId} {s t : Assembly} {e : ClassEntry} {m : Method}

/-- Work on the method that was added last. -/
theorem Ready.changes_update (hs : s.Ready x c) (he : s.model.entry c = e.addedMethod m)
    {f : Method → Except ModelError Method} {u : Unit}
    (h : (Assemble.update c (·.updateMethod e.methods.length f)).Yields s u t) {xs : List Mention}
    (hsteps : ∀ n, f m = .ok n → m.Steps xs n) (hxs : s.model.KnowsAll xs) :
    ∃ n, f m = .ok n ∧ s.Changes c t (e.addedMethod n) := by
  obtain ⟨e', he', rfl⟩ := Assemble.yields_update.mp h
  rw [he, ClassEntry.updateMethod_addedMethod] at he'
  cases hn : f m with
  | error fault => simp [hn, Except.map] at he'
  | ok n =>
      obtain rfl : e.addedMethod n = e' := by simpa [hn, Except.map] using he'
      refine ⟨n, rfl, hs.changes ?_ hxs⟩
      rw [he]
      exact ClassEntry.steps_addedMethod e (hsteps n hn)

theorem Ready.changes_generify {vs : List TypeVar} (hs : s.Ready x c) (he : s.model.entry c = e.addedMethod m)
    (hvs : s.model.KnowsAll (vs.flatMap TypeVar.mentions)) {u : PUnit}
    (h : (vs.forM fun v ↦ Assemble.update c (·.updateMethod e.methods.length (·.generify v))).Yields s u t) :
    s.Changes c t (e.addedMethod { m with typeParams := m.typeParams ++ vs }) := by
  induction vs generalizing s m with
  | nil =>
      obtain rfl := Assemble.yields_forM_nil.mp h
      rw [List.append_nil]
      exact he ▸ hs.changes_refl
  | cons v vs ih =>
      obtain ⟨k, hv, hrest⟩ := Assemble.yields_forM_cons.mp h
      have hsteps : ∀ n, m.generify v = .ok n → m.Steps v.mentions n := fun n hn ↦
        .cons (s := .typeParam v) hn (List.Subset.refl _) (.refl _ _)
      have hknown : s.model.KnowsAll v.mentions ∧ s.model.KnowsAll (vs.flatMap TypeVar.mentions) := by
        rw [List.flatMap_cons] at hvs
        exact ⟨fun y hy ↦ hvs y (List.mem_append_left _ hy), fun y hy ↦ hvs y (List.mem_append_right _ hy)⟩
      obtain ⟨n, hn, hchanges⟩ := hs.changes_update he hv hsteps hknown.1
      obtain ⟨-, -, rfl⟩ := Method.generify_eq_ok hn
      have hlast := ih (hchanges.ready hs) hchanges.entry_eq (hknown.2.later hchanges.worked.later.grown) hrest
      simp only [List.append_assoc, List.singleton_append] at hlast
      exact hchanges.trans hlast

theorem Ready.changes_addParams {hasVarargs : Bool} {ps : List TypedParam} (hs : s.Ready x c)
    (he : s.model.entry c = e.addedMethod m) (hm : m.varargs = none)
    (hps : s.model.KnowsAll (ps.map fun p ↦ .type p.type)) {u : Unit}
    (h : (Context.addParams c e.methods.length hasVarargs ps).Yields s u t) :
    s.Changes c t (e.addedMethod { m with
      params := m.params ++ (if hasVarargs then ps.dropLast else ps).map TypedParam.toParam
      varargs := if hasVarargs then ps.getLast?.map TypedParam.toVarargs else none }) := by
  induction ps generalizing s m with
  | nil =>
      obtain ⟨-, rfl⟩ := Assemble.yields_pure.mp h
      have hsame : { m with varargs := none } = m := by rw [← hm]
      simpa [hsame, he] using hs.changes_refl
  | cons p ps ih =>
      have hknown : s.model.KnowsAll [.type p.type] ∧ s.model.KnowsAll (ps.map fun p ↦ .type p.type) :=
        ⟨fun y hy ↦ hps y (List.mem_singleton.mp hy ▸ List.mem_cons_self ..),
          fun y hy ↦ hps y (List.mem_cons_of_mem _ hy)⟩
      cases ps with
      | nil =>
          rw [Context.addParams] at h
          cases hasVarargs with
          | false =>
              obtain ⟨n, hn, hchanges⟩ := hs.changes_update he h (fun _ ↦ TypedParam.steps_addTo) hknown.1
              obtain rfl := TypedParam.addTo_eq_ok hn
              simpa [hm] using hchanges
          | true =>
              have hvarargs : s.model.KnowsAll [.type p.toVarargs.type] := fun y hy d hd ↦ by
                rw [List.mem_singleton.mp hy] at hd
                exact hknown.1 _ (List.mem_singleton_self _) d (p.classes_toVarargs_subset hd)
              obtain ⟨n, hn, hchanges⟩ := hs.changes_update he h (fun _ ↦ TypedParam.steps_addVarargsTo) hvarargs
              obtain ⟨_, -, -, rfl⟩ := TypedParam.addVarargsTo_eq_ok hn
              simpa using hchanges
      | cons q ps =>
          rw [Context.addParams, Assemble.yields_bind] at h
          · obtain ⟨_, k, hp, hrest⟩ := h
            obtain ⟨n, hn, hchanges⟩ := hs.changes_update he hp (fun _ ↦ TypedParam.steps_addTo) hknown.1
            obtain rfl := TypedParam.addTo_eq_ok hn
            have hlast := ih (hchanges.ready hs) hchanges.entry_eq hm (hknown.2.later hchanges.worked.later.grown) hrest
            cases hasVarargs <;> simpa using hchanges.trans hlast
          · exact nofun

end Assembly

/-! ## What was found -/

namespace MethodDeclaration

/-- The scope of the types of a method. -/
def scope (d : MethodDeclaration) (outer : Scope) (className : String) : Scope :=
  outer.enter (outer.owner ++ "." ++ (if d.isConstructor then className else d.name)) d.typeParams

/-- The method is that of the declaration, its types as they are found. -/
def Found (x : Context) (outer : Scope) (c : ClassId) (s : Assembly) (d : MethodDeclaration) (m : Method) : Prop :=
  s.model.Knows c ∧ ∃ typeParams returnType params throws,
    s.Finds (d.typeParams.mapM (x.typeParam (d.scope outer (s.model.entry c).name))) typeParams ∧
    s.Finds (x.typeOf? (d.scope outer (s.model.entry c).name) d.returnType) returnType ∧
    s.Finds (d.params.mapM (x.typedParam (d.scope outer (s.model.entry c).name))) params ∧
    s.Finds (x.typesOf (d.scope outer (s.model.entry c).name) d.throws) throws ∧
    m = d.toMethod (s.model.entry c) typeParams returnType params throws

theorem Found.later {x : Context} {outer : Scope} {c : ClassId} {s t : Assembly} {d : MethodDeclaration}
    {m : Method} (h : Found x outer c s d m) (ht : s.Later t) : Found x outer c t d m := by
  obtain ⟨hc, typeParams, returnType, params, throws, h₁, h₂, h₃, h₄, rfl⟩ := h
  have hsame := ht.grown.sameOrigin c hc
  refine ⟨ht.grown.knows hc, typeParams, returnType, params, throws, ?_⟩
  rw [hsame.name, toMethod_congr hsame]
  exact ⟨h₁.later ht, h₂.later ht, h₃.later ht, h₄.later ht, rfl⟩

end MethodDeclaration

/-- The field is that of the declaration, its type as it is found. -/
def FieldDeclaration.Found (x : Context) (scope : Scope) (s : Assembly) (d : FieldDeclaration) (f : Field) : Prop :=
  ∃ type, s.Finds (x.typeOf scope d.type) type ∧
    f = { mods := DeclaredModifier.carried d.modifiers, type, name := d.name, javadoc := d.javadoc }

theorem ClassEntry.modifyField_last (e : ClassEntry) {g : Field} (hg : e.field? g.name = none)
    (f : Field → Field) :
    ({ e with fields := e.fields ++ [g] } : ClassEntry).modifyField g.name f =
      { e with fields := e.fields ++ [f g] } := by
  have hold : ∀ y ∈ e.fields, (if y.name = g.name then f y else y) = y := fun y hy ↦ by
    have hne := List.find?_eq_none.mp hg y hy
    rw [if_neg (by simpa using hne)]
  simp [ClassEntry.modifyField, List.map_congr_left hold]

namespace Assembly

variable {x : Context} {c : ClassId} {s t : Assembly} {outer : Scope}

theorem changes_addField (hs : s.Ready x c) {d : FieldDeclaration} {u : Unit}
    (h : (x.addField outer c d).Yields s u t) :
    ∃ f, s.Changes c t { s.model.entry c with fields := (s.model.entry c).fields ++ [f] } ∧
      d.Found x outer t f := by
  simp only [Context.addField, Assemble.yields_bind] at h
  obtain ⟨type, k, htype, _, l, hadd, hdoc⟩ := h
  have hsaw := Context.looks_typeOf outer d.type hs.sound hs.known type k htype
  have hlook := hsaw.changes hs
  have hk := hlook.ready hs
  obtain ⟨e, he, rfl⟩ := Assemble.yields_update.mp hadd
  rw [hlook.entry_eq] at he
  obtain ⟨-, hfree, rfl⟩ := ClassEntry.addField_eq_ok he
  have hfree : (s.model.entry c).field? d.name = none := by
    simpa using mt ClassEntry.isSome_field?_iff.mp hfree
  have hknown : k.model.KnowsAll [.type type] := List.forall_mem_singleton.mpr hsaw.good
  have hfirst := hk.changes (.single (s := .field _ type d.name) (by rw [hlook.entry_eq]; exact he)
    (List.Subset.refl _)) hknown
  have hl := hfirst.ready hk
  rw [Assemble.yields_modify, hfirst.entry_eq] at hdoc
  have hmodify := ClassEntry.modifyField_last (s.model.entry c)
    (g := { mods := DeclaredModifier.carried d.modifiers, type, name := d.name }) hfree
  rw [hmodify] at hdoc
  have hsecond := hl.changes (.single (s := .adjustField d.name (DeclaredModifier.carried d.modifiers) type none
    d.javadoc) (by rw [hfirst.entry_eq, MemberStep.apply, hmodify]) (List.Subset.refl _))
    (hknown.later hfirst.worked.later.grown)
  have hlast := hlook.trans (hfirst.trans hsecond)
  refine ⟨_, hdoc ▸ hlast, type, fun v hv hsound ↦ ?_, rfl⟩
  exact hsaw.again v (((hfirst.trans hsecond).worked.later).trans (hdoc ▸ hv)) hsound

theorem changes_addSignature (hs : s.Ready x c) {d : MethodDeclaration} {returnType : JavaType}
    (hreturn : ∀ c ∈ returnType.classes, s.model.Knows c) {u : Unit}
    (h : (Context.addSignature c d returnType).Yields s u t) :
    s.Changes c t ((s.model.entry c).addedMethod (d.bare (s.model.entry c) returnType)) := by
  unfold Context.addSignature at h
  unfold MethodDeclaration.bare
  cases hconstructor : d.isConstructor with
  | true =>
      simp only [hconstructor, if_true, Assemble.yields_modify] at h
      subst h
      exact hs.changes (.single (s := .constructor _) rfl (List.Subset.refl _)) (List.forall_mem_nil _)
  | false =>
      simp only [hconstructor, Bool.false_eq_true, if_false, Assemble.yields_update] at h
      obtain ⟨e, he, rfl⟩ := h
      obtain ⟨-, rfl⟩ := ClassEntry.addMethod_eq_ok he
      refine hs.changes (.single (s := .method _ returnType d.name) he (List.Subset.refl _)) ?_
      exact List.forall_mem_singleton.mpr hreturn

theorem changes_finish {e : ClassEntry} {m : Method} {throws : List JavaType} {lines : List String}
    (hs : s.Ready x c) (he : s.model.entry c = e.addedMethod m)
    (hthrows : s.model.KnowsAll (throws.map .type)) {u : Unit}
    (h : (Assemble.modify c (·.modifyMethod e.methods.length fun m ↦
      { throws.foldl Method.addThrows m with javadoc := m.javadoc ++ lines })).Yields s u t) :
    s.Changes c t (e.addedMethod
      { m with throws := throws.foldl addOnce m.throws, javadoc := m.javadoc ++ lines }) := by
  rw [Assemble.yields_modify, he, ClassEntry.modifyMethod_addedMethod, Method.foldl_addThrows] at h
  subst h
  refine hs.changes ?_ hthrows
  rw [he]
  refine ClassEntry.steps_addedMethod e (Method.steps_foldl_addThrows (List.Subset.refl _) m ?_)
  rw [Method.foldl_addThrows]
  exact .cons (s := .javadoc lines) rfl (List.nil_subset _) (.refl _ _)

theorem knowsAll_types {m : Model} {ts : List JavaType} (h : ∀ c ∈ JavaType.classesEach ts, m.Knows c) :
    m.KnowsAll (ts.map .type) := by
  induction ts with
  | nil => exact nofun
  | cons t ts ih =>
      have h₁ : ∀ c ∈ t.classes, m.Knows c := fun c hc ↦ h c (List.mem_append_left _ hc)
      have h₂ := ih fun c hc ↦ h c (List.mem_append_right _ hc)
      exact List.forall_mem_cons.mpr ⟨h₁, h₂⟩

theorem knowsAll_flatMap {α : Type} {m : Model} {l : List α} {f : α → List Mention}
    (h : ∀ a ∈ l, m.KnowsAll (f a)) : m.KnowsAll (l.flatMap f) := by
  intro y hy
  obtain ⟨a, ha, hy⟩ := List.mem_flatMap.mp hy
  exact h a ha y hy

/-- The method is added with the types that were found for it. -/
theorem changes_withTypes {e : ClassEntry} (hs : s.Ready x c) (he : s.model.entry c = e) {d : MethodDeclaration}
    {typeParams : List TypeVar} {returnType : Option JavaType} {params : List TypedParam} {throws : List JavaType}
    (htypeParams : s.model.KnowsAll (typeParams.flatMap TypeVar.mentions))
    (hreturn : ∀ c ∈ (returnType.getD (.primitive .void)).classes, s.model.Knows c)
    (hparams : s.model.KnowsAll (params.map fun p ↦ .type p.type)) (hthrows : s.model.KnowsAll (throws.map .type))
    {s₁ s₂ s₃ : Assembly} {u₁ : Unit} {u₂ : PUnit} {u₃ u₄ : Unit}
    (h₁ : (Context.addSignature c d (returnType.getD (.primitive .void))).Yields s u₁ s₁)
    (h₂ : (typeParams.forM fun v ↦
      Assemble.update c (·.updateMethod e.methods.length (·.generify v))).Yields s₁ u₂ s₂)
    (h₃ : (Context.addParams c e.methods.length d.hasVarargs params).Yields s₂ u₃ s₃)
    (h₄ : (Assemble.modify c (·.modifyMethod e.methods.length fun m ↦
      { throws.foldl Method.addThrows m with javadoc := m.javadoc ++ d.javadoc })).Yields s₃ u₄ t) :
    s.Changes c t (e.addedMethod (d.toMethod e typeParams returnType params throws)) := by
  have hsigned := changes_addSignature hs hreturn h₁
  rw [he] at hsigned
  have hready₁ := hsigned.ready hs
  have hgeneric := hready₁.changes_generify hsigned.entry_eq (htypeParams.later hsigned.worked.later.grown) h₂
  have hready₂ := hgeneric.ready hready₁
  have hgrown₂ := (hsigned.worked.trans hgeneric.worked).later.grown
  have hfilled := hready₂.changes_addParams hgeneric.entry_eq rfl (hparams.later hgrown₂) h₃
  have hgrown₃ := hgrown₂.trans hfilled.worked.later.grown
  have hfinish := changes_finish (hfilled.ready hready₂) hfilled.entry_eq (hthrows.later hgrown₃) h₄
  have hchanges := hsigned.trans (hgeneric.trans (hfilled.trans hfinish))
  simpa [MethodDeclaration.toMethod, MethodDeclaration.bare] using hchanges

theorem changes_addMethod (hs : s.Ready x c) {d : MethodDeclaration} {u : Unit}
    (h : (x.addMethod outer c d).Yields s u t) :
    ∃ m, s.Changes c t ((s.model.entry c).addedMethod m) ∧ d.Found x outer c t m := by
  simp only [Context.addMethod, Assemble.yields_bind, Assemble.yields_model] at h
  obtain ⟨_, _, ⟨rfl, rfl⟩, typeParams, s₁, h₁, returnType, s₂, h₂, params, s₃, h₃, throws, s₄, h₄, _, s₅, h₅,
    _, s₆, h₆, _, s₇, h₇, h₈⟩ := h
  have hlater : ∀ m n : Model, m.Extends n → x.KnownTo m → x.KnownTo n := fun m n hn hm ↦ hm.later hn
  -- the types are looked up
  have hsaw₁ := Looks.mapM hlater (fun m n v hn hv c hc ↦ hn.knows (hv c hc))
    (fun p k hk hx ↦ Context.looks_typeParam hk hx _ p) d.typeParams hs.sound hs.known _ _ h₁
  have hr₁ := hs.later hsaw₁.sound hsaw₁.looked.toLater
  have hsaw₂ := Context.looks_typeOf? hr₁.sound hr₁.known _ d.returnType _ _ h₂
  have hr₂ := hr₁.later hsaw₂.sound hsaw₂.looked.toLater
  have hsaw₃ := Looks.mapM hlater (fun m n v hn hv c hc ↦ hn.knows (hv c hc))
    (fun p k hk hx ↦ Context.looks_typedParam hk hx _ p) d.params hr₂.sound hr₂.known _ _ h₃
  have hr₃ := hr₂.later hsaw₃.sound hsaw₃.looked.toLater
  have hsaw₄ := Context.looks_typesOf _ d.throws hr₃.sound hr₃.known _ _ h₄
  have hlooked := ((hsaw₁.looked.trans hsaw₂.looked).trans hsaw₃.looked).trans hsaw₄.looked
  have hlook : s.Changes c s₄ (s.model.entry c) :=
    ⟨hsaw₄.sound, hlooked.worked c, hlooked.entry_eq c hs.knows hs.origin_eq⟩
  have hr₄ := hlook.ready hs
  -- what was found for one part is still known when the others were looked up
  have htypeParams : s₄.model.KnowsAll (typeParams.flatMap TypeVar.mentions) := by
    refine knowsAll_flatMap fun v hv y hy d hd ↦ ?_
    obtain ⟨type, htype, rfl⟩ := List.mem_map.mp hy
    have hknown := hsaw₁.good v hv d (List.mem_flatMap.mpr ⟨type, htype, hd⟩)
    exact ((hsaw₂.looked.trans hsaw₃.looked).trans hsaw₄.looked).grown.knows hknown
  have hreturn : ∀ c ∈ (returnType.getD (.primitive .void)).classes, s₄.model.Knows c := by
    cases returnType with
    | none => exact List.forall_mem_nil _
    | some type =>
        have hgood : ∀ c ∈ type.classes, s₂.model.Knows c := by simpa using hsaw₂.good
        exact fun c hc ↦ (hsaw₃.looked.trans hsaw₄.looked).grown.knows (hgood c hc)
  have hparams : s₄.model.KnowsAll (params.map fun p ↦ .type p.type) := by
    intro y hy d hd
    obtain ⟨p, hp, rfl⟩ := List.mem_map.mp hy
    exact hsaw₄.looked.grown.knows (hsaw₃.good p hp d hd)
  have hchanges := changes_withTypes hr₄ hlook.entry_eq htypeParams hreturn hparams (knowsAll_types hsaw₄.good)
    h₅ h₆ h₇ h₈
  have hlast : ∀ {α : Type} {a : Assemble α} {good : Model → α → Prop} {v : α} {k l : Assembly},
      k.Saw a good v l → l.Later s₄ → t.Finds a v := fun hsaw hl u hu hsound ↦
    hsaw.again u ((hl.trans hchanges.worked.later).trans hu) hsound
  have hname : (t.model.entry c).name = (s.model.entry c).name :=
    ((hlook.trans hchanges).worked.later.grown.sameOrigin c hs.knows).name
  refine ⟨_, hlook.trans hchanges, (hchanges.ready hr₄).knows, typeParams, returnType, params, throws, ?_⟩
  rw [hname, MethodDeclaration.toMethod_congr ((hlook.trans hchanges).worked.later.grown.sameOrigin c hs.knows)]
  refine ⟨hlast hsaw₁ ?_, hlast hsaw₂ ?_, hlast hsaw₃ hsaw₄.looked.toLater, hlast hsaw₄ (.refl _), rfl⟩
  · exact ((hsaw₂.looked.trans hsaw₃.looked).trans hsaw₄.looked).toLater
  · exact (hsaw₃.looked.trans hsaw₄.looked).toLater

/-- The superclass that is written for a class, if it is one that a class of the kind can be given. -/
def superclassOf (kind : ClassKind) (written : Option JavaType) : Option ClassType :=
  (written.filter fun t ↦ kind = .plain ∧ t.classId? ≠ some Model.object).bind ClassType.ofType?

theorem changes_setSuperclass (hs : s.Ready x c) {w : WrittenType} (hnone : (s.model.entry c).superclass = none)
    {u : Unit} (h : (x.setSuperclass outer c w).Yields s u t) :
    ∃ type, t.Finds (x.typeOf outer w) type ∧ s.Changes c t
      { s.model.entry c with superclass := superclassOf (s.model.entry c).kind (some type) } := by
  simp only [Context.setSuperclass, Assemble.yields_bind, Assemble.yields_model] at h
  obtain ⟨type, k, htype, _, _, ⟨rfl, rfl⟩, h⟩ := h
  have hsaw := Context.looks_typeOf outer w hs.sound hs.known type k htype
  have hlook := hsaw.changes hs
  have hk := hlook.ready hs
  rw [hlook.entry_eq] at h
  split at h
  · rename_i hplain
    obtain ⟨e, he, rfl⟩ := Assemble.yields_update.mp h
    rw [hlook.entry_eq] at he
    obtain ⟨-, base, hbase, rfl⟩ := ClassEntry.setExtends_eq_ok_iff.mp he
    have hchanges := hk.changes (.single (s := .superclass type) (by rw [hlook.entry_eq]; exact he)
      (List.Subset.refl _)) (List.forall_mem_singleton.mpr hsaw.good)
    refine ⟨type, fun v hv ↦ hsaw.again v (hchanges.worked.later.trans hv), ?_⟩
    have hsuper : superclassOf (s.model.entry c).kind (some type) = some base := by
      simp [superclassOf, Option.filter, hplain.1, hplain.2, hbase]
    rw [hsuper]
    exact hlook.trans hchanges
  · rename_i hother
    obtain ⟨-, rfl⟩ := Assemble.yields_pure.mp h
    refine ⟨type, fun v hv ↦ hsaw.again v hv, ?_⟩
    have hsuper : superclassOf (s.model.entry c).kind (some type) = none := by
      simp [superclassOf, Option.filter, hother]
    have hsame : { s.model.entry c with superclass := none } = s.model.entry c := by rw [← hnone]
    rw [hsuper, hsame]
    exact hlook

end Assembly

/-- The entry of a class has the members of a declared type, their types as they are found. Annotations and
defaults are not there yet. -/
structure TypeDeclaration.Filled (x : Context) (scope : Scope) (s : Assembly) (d : TypeDeclaration)
    (c : ClassId) (e : ClassEntry) : Prop where
  mods : e.mods = DeclaredModifier.carriedBy e.kind d.modifiers
  typeParams : List.Forall₂ (fun p v ↦ s.Finds (x.typeParam scope p) v) d.typeParams e.typeParams
  superclass : ∃ type, s.Finds (x.typeOf? scope d.superclass) type ∧
    e.superclass = Assembly.superclassOf e.kind type
  interfaces : ∃ is, List.Forall₂ (fun w i ↦ s.Finds (x.typeOf scope w) (ClassType.toType i)) d.interfaces is ∧
    e.interfaces = is.foldl addOnce []
  javadoc : e.javadoc = d.javadoc
  constants : e.constants = d.constants.map fun name ↦ ⟨name, [], []⟩
  fields : List.Forall₂ (FieldDeclaration.Found x scope s) d.fields e.fields
  methods : List.Forall₂ (MethodDeclaration.Found x scope c s) d.methods e.methods
  initBlocks : e.initBlocks = []
  annotations : e.annotations = []

/-- The entry of a class as it is when the class was only placed. -/
structure ClassEntry.IsBlank (e : ClassEntry) (modifiers : List DeclaredModifier) : Prop where
  mods : e.mods = DeclaredModifier.carriedBy e.kind modifiers
  superclass : e.superclass = none
  interfaces : e.interfaces = []
  typeParams : e.typeParams = []
  fields : e.fields = []
  methods : e.methods = []
  constants : e.constants = []
  initBlocks : e.initBlocks = []
  annotations : e.annotations = []
  javadoc : e.javadoc = []

theorem foldl_typeParams (vs : List TypeVar) (e : ClassEntry) :
    vs.foldl (fun e v ↦ { e with typeParams := e.typeParams ++ [v] }) e =
      { e with typeParams := e.typeParams ++ vs } := by
  induction vs generalizing e with
  | nil => simp
  | cons v vs ih => simp [ih]

theorem foldl_interfaces (is : List ClassType) (e : ClassEntry) :
    is.foldl (fun e i ↦ { e with interfaces := addOnce e.interfaces i }) e =
      { e with interfaces := is.foldl addOnce e.interfaces } := by
  induction is generalizing e with
  | nil => rfl
  | cons i is ih => simp [ih]

theorem foldl_constants (ks : List EnumConstant) (e : ClassEntry) :
    ks.foldl (fun e k ↦ { e with constants := e.constants ++ [k] }) e =
      { e with constants := e.constants ++ ks } := by
  induction ks generalizing e with
  | nil => simp
  | cons k ks ih => simp [ih]

theorem foldl_fields (fs : List Field) (e : ClassEntry) :
    fs.foldl (fun e f ↦ { e with fields := e.fields ++ [f] }) e = { e with fields := e.fields ++ fs } := by
  induction fs generalizing e with
  | nil => simp
  | cons f fs ih => simp [ih]

theorem foldl_addedMethod (ms : List Method) (e : ClassEntry) :
    ms.foldl ClassEntry.addedMethod e = { e with methods := e.methods ++ ms } := by
  induction ms generalizing e with
  | nil => simp
  | cons m ms ih => simp [ih, ClassEntry.addedMethod]

namespace Context

open Assembly

variable {x : Context} {s t : Assembly}

theorem changes_typeParam {c : ClassId} {scope : Scope} (hs : s.Ready x c) {d : TypeParamDeclaration} {u : Unit}
    (h : (do let v ← x.typeParam scope d; Assemble.update c (·.generify v)).Yields s u t) :
    ∃ v, s.Changes c t { s.model.entry c with typeParams := (s.model.entry c).typeParams ++ [v] } ∧
      t.Finds (x.typeParam scope d) v := by
  obtain ⟨v, k, hv, hadd⟩ := Assemble.yields_bind.mp h
  have hsaw := looks_typeParam hs.sound hs.known scope d v k hv
  have hlook := hsaw.changes hs
  obtain ⟨e, he, rfl⟩ := Assemble.yields_update.mp hadd
  rw [hlook.entry_eq] at he
  obtain ⟨-, -, rfl⟩ := ClassEntry.generify_eq_ok he
  have hknown : k.model.KnowsAll v.mentions := fun y hy d hd ↦ by
    obtain ⟨type, htype, rfl⟩ := List.mem_map.mp hy
    exact hsaw.good d (List.mem_flatMap.mpr ⟨type, htype, hd⟩)
  have hchanges := (hlook.ready hs).changes (.single (s := .typeParam v) (by rw [hlook.entry_eq]; exact he)
    (List.Subset.refl _)) hknown
  exact ⟨v, hlook.trans hchanges, fun w hw ↦ hsaw.again w (hchanges.worked.later.trans hw)⟩

theorem changes_interface {c : ClassId} {scope : Scope} (hs : s.Ready x c) {w : WrittenType} {u : Unit}
    (h : (do let t ← x.typeOf scope w; Assemble.update c (·.addInterface t)).Yields s u t) :
    ∃ i, s.Changes c t { s.model.entry c with interfaces := addOnce (s.model.entry c).interfaces i } ∧
      t.Finds (x.typeOf scope w) i.toType := by
  obtain ⟨type, k, htype, hadd⟩ := Assemble.yields_bind.mp h
  have hsaw := looks_typeOf scope w hs.sound hs.known type k htype
  have hlook := hsaw.changes hs
  obtain ⟨e, he, rfl⟩ := Assemble.yields_update.mp hadd
  rw [hlook.entry_eq] at he
  obtain ⟨i, hi, rfl⟩ := ClassEntry.addInterface_eq_ok he
  have hchanges := (hlook.ready hs).changes (.single (s := .implement type) (by rw [hlook.entry_eq]; exact he)
    (List.Subset.refl _)) (List.forall_mem_singleton.mpr hsaw.good)
  refine ⟨i, hlook.trans hchanges, ?_⟩
  rw [ClassType.toType_of_ofType? hi]
  exact fun w hw ↦ hsaw.again w (hchanges.worked.later.trans hw)

theorem changes_constant {c : ClassId} (hs : s.Ready x c) {name : String} {u : Unit}
    (h : (Assemble.update c (·.addConstant name)).Yields s u t) :
    s.Changes c t { s.model.entry c with constants := (s.model.entry c).constants ++ [⟨name, [], []⟩] } := by
  obtain ⟨e, he, rfl⟩ := Assemble.yields_update.mp h
  obtain ⟨-, -, -, rfl⟩ := ClassEntry.addConstant_eq_ok he
  exact hs.changes (.single (s := .constant name) he (List.Subset.refl _)) (List.forall_mem_nil _)

theorem changes_superclass {c : ClassId} {scope : Scope} (hs : s.Ready x c) {w : Option WrittenType}
    (hnone : (s.model.entry c).superclass = none) {u : PUnit}
    (h : (w.forM (x.setSuperclass scope c)).Yields s u t) :
    ∃ type, t.Finds (x.typeOf? scope w) type ∧
      s.Changes c t { s.model.entry c with superclass := superclassOf (s.model.entry c).kind type } := by
  cases w with
  | none =>
      obtain ⟨-, rfl⟩ := Assemble.yields_pure.mp h
      have hsame : { s.model.entry c with superclass := none } = s.model.entry c := by rw [← hnone]
      have hnothing : superclassOf (s.model.entry c).kind none = none := rfl
      refine ⟨none, fun _ _ _ ↦ Assemble.yields_pure.mpr ⟨rfl, rfl⟩, ?_⟩
      rw [hnothing, hsame]
      exact hs.changes_refl
  | some w =>
      obtain ⟨type, hfinds, hchanges⟩ := changes_setSuperclass hs hnone h
      exact ⟨some type, fun v hv hsound ↦ Assemble.yields_map.mpr ⟨type, hfinds v hv hsound, rfl⟩, hchanges⟩

theorem filled_of_fill {p : Placed} (hs : s.Ready x p.id) (hblank : (s.model.entry p.id).IsBlank p.type.modifiers)
    {u : PUnit} (h : (x.fill p).Yields s u t) :
    ∃ e, s.Changes p.id t e ∧ p.type.Filled x p.scope t p.id e := by
  simp only [fill, Assemble.yields_bind] at h
  obtain ⟨_, s₁, h₁, _, s₂, h₂, _, s₃, h₃, _, s₄, h₄, _, s₅, h₅, _, s₆, h₆, h₇⟩ := h
  obtain ⟨vs, hch₁, hvs⟩ := Changes.forM (fun e v ↦ { e with typeParams := e.typeParams ++ [v] })
    (fun t d v ↦ t.Finds (x.typeParam p.scope d) v) (fun _ _ _ _ _ h ht ↦ h.later ht)
    (fun _ _ _ _ hk hd ↦ changes_typeParam hk hd) hs h₁
  rw [foldl_typeParams, hblank.typeParams, List.nil_append] at hch₁
  have hr₁ := hch₁.ready hs
  obtain ⟨type, hfinds, hch₂⟩ := changes_superclass hr₁ (by rw [hch₁.entry_eq]; exact hblank.superclass) h₂
  rw [hch₁.entry_eq] at hch₂
  have hr₂ := hch₂.ready hr₁
  obtain ⟨is, hch₃, his⟩ := Changes.forM (fun e i ↦ { e with interfaces := addOnce e.interfaces i })
    (fun t w i ↦ t.Finds (x.typeOf p.scope w) (ClassType.toType i)) (fun _ _ _ _ _ h ht ↦ h.later ht)
    (fun _ _ _ _ hk hd ↦ changes_interface hk hd) hr₂ h₃
  rw [foldl_interfaces, hch₂.entry_eq] at hch₃
  have hr₃ := hch₃.ready hr₂
  rw [Assemble.yields_modify] at h₄
  have hch₄ := hr₃.changes (.single (s := .javadoc p.type.javadoc) rfl (List.nil_subset [])) nofun
  rw [← h₄, hch₃.entry_eq] at hch₄
  have hr₄ := hch₄.ready hr₃
  obtain ⟨ks, hch₅, hks⟩ := Changes.forM (fun e k ↦ { e with constants := e.constants ++ [k] })
    (fun _ name k ↦ k = EnumConstant.mk name [] []) (fun _ _ _ _ _ h _ ↦ h)
    (fun name _ _ _ hk hd ↦ ⟨⟨name, [], []⟩, changes_constant hk hd, rfl⟩) hr₄ h₅
  rw [foldl_constants, hch₄.entry_eq] at hch₅
  have hr₅ := hch₅.ready hr₄
  obtain ⟨fs, hch₆, hfs⟩ := Changes.forM (fun e f ↦ { e with fields := e.fields ++ [f] })
    (fun t d f ↦ FieldDeclaration.Found x p.scope t d f)
    (fun _ _ _ _ _ ⟨type, h, hf⟩ ht ↦ ⟨type, h.later ht, hf⟩)
    (fun _ _ _ _ hk hd ↦ changes_addField hk hd) hr₅ h₆
  rw [foldl_fields, hch₅.entry_eq] at hch₆
  have hr₆ := hch₆.ready hr₅
  obtain ⟨ms, hch₇, hms⟩ := Changes.forM ClassEntry.addedMethod
    (fun t d m ↦ MethodDeclaration.Found x p.scope p.id t d m) (fun _ _ _ _ _ h ht ↦ h.later ht)
    (fun _ _ _ _ hk hd ↦ changes_addMethod hk hd) hr₆ h₇
  rw [foldl_addedMethod, hch₆.entry_eq] at hch₇
  have hchanges := hch₁.trans (hch₂.trans (hch₃.trans (hch₄.trans (hch₅.trans (hch₆.trans hch₇)))))
  have hlater₆ := hch₇.worked.later
  have hlater₅ := hch₆.worked.later.trans hlater₆
  have hlater₃ := hch₄.worked.later.trans (hch₅.worked.later.trans hlater₅)
  have hlater₂ := hch₃.worked.later.trans hlater₃
  have hlater₁ := hch₂.worked.later.trans hlater₂
  refine ⟨_, hchanges, ?_⟩
  have hkeys : ks = p.type.constants.map fun name ↦ ⟨name, [], []⟩ := by
    have hequal := List.forall₂_map_right_iff.mpr hks.flip
    rwa [List.forall₂_eq_eq_eq] at hequal
  exact
    { mods := hblank.mods
      typeParams := hvs.imp fun _ _ h ↦ h.later hlater₁
      superclass := ⟨type, hfinds.later hlater₂, rfl⟩
      interfaces := ⟨is, his.imp fun _ _ h ↦ h.later hlater₃, by rw [← hblank.interfaces]; rfl⟩
      javadoc := by
        simp [ClassEntry.addJavadoc, hblank.javadoc]
      constants := by simp [ClassEntry.addJavadoc, hblank.constants, hkeys]
      fields := by
        simpa [ClassEntry.addJavadoc, hblank.fields] using hfs.imp fun _ _ ⟨type, h, hf⟩ ↦ ⟨type, h.later hlater₆, hf⟩
      methods := by simpa [ClassEntry.addJavadoc, hblank.methods] using hms
      initBlocks := hblank.initBlocks
      annotations := hblank.annotations }

end Context
end JavaSource
