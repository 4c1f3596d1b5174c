import JavaSource.Proofs.Declaration.Annotating

/-!
# What a built model carries over

The defined classes of a built model are the declared types, one for one and in order. Each class has the name,
the kind and the members that were declared, and stands where its type was declared. Annotations and defaults
come to what is there and change nothing of this.
-/

namespace JavaSource

/-! ## Entries without annotations and defaults -/

def Param.stripped (p : Param) : Param := { p with annotations := [] }

def Field.stripped (f : Field) : Field := { f with annotations := [] }

/-- A method without its annotations, those of its parameters, and its default. -/
def Method.stripped (m : Method) : Method :=
  { m with
    params := m.params.map Param.stripped
    varargs := m.varargs.map Param.stripped
    annotations := []
    defaultValue := none }

/-- An entry without its annotations, those of its members, and the defaults. -/
def ClassEntry.stripped (e : ClassEntry) : ClassEntry :=
  { e with
    fields := e.fields.map Field.stripped
    methods := e.methods.map Method.stripped
    annotations := [] }

theorem Method.stripped_stripped (m : Method) : m.stripped.stripped = m.stripped := by
  have hparam : Param.stripped ∘ Param.stripped = Param.stripped := rfl
  simp only [stripped, List.map_map, Option.map_map, hparam]

theorem Method.stripped_modifyParam (m : Method) {f : Param → Param} (h : ∀ p, (f p).stripped = p.stripped)
    (i : Nat) : (m.modifyParam i f).stripped = m.stripped := by
  unfold modifyParam
  split
  · have hvarargs : (m.varargs.map f).map Param.stripped = m.varargs.map Param.stripped := by
      rw [Option.map_map]
      exact congrArg (m.varargs.map ·) (funext h)
    simp only [stripped, hvarargs]
  · simp only [stripped, List.map_modify_eq h]

namespace ClassEntry

variable (e : ClassEntry)

theorem stripped_modifyMethod {f : Method → Method} (h : ∀ m, (f m).stripped = m.stripped) (i : Nat) :
    (e.modifyMethod i f).stripped = e.stripped := by
  simp only [stripped, modifyMethod, List.map_modify_eq h]

theorem stripped_withDefault (i : Nat) (v : AnnotationValue) : (e.withDefault i v).stripped = e.stripped :=
  e.stripped_modifyMethod (f := ({ · with defaultValue := some v })) (fun _ ↦ rfl) i

theorem stripped_annotate (target : AnnotationTarget) (u : AnnotationUse) :
    (e.annotate target u).stripped = e.stripped := by
  cases target with
  | type => rfl
  | field name =>
      have hfields : (e.modifyField name (·.annotate u)).fields.map Field.stripped = e.fields.map Field.stripped := by
        rw [modifyField, List.map_map]
        refine List.map_congr_left fun f _ ↦ ?_
        by_cases hf : f.name = name
        · simp [hf, Field.stripped, Field.annotate]
        · simp [hf]
      simp only [stripped, annotate, hfields]
      rfl
  | method i => exact e.stripped_modifyMethod (f := (·.annotate u)) (fun _ ↦ rfl) i
  | param i j =>
      have hparam : ∀ p : Param, (p.annotate u).stripped = p.stripped := fun _ ↦ rfl
      exact e.stripped_modifyMethod (fun m ↦ m.stripped_modifyParam hparam j) i

end ClassEntry

theorem ClassEntry.stripped_foldl (e : ClassEntry) (vs : List (Nat × AnnotationValue))
    (us : List (AnnotationTarget × AnnotationUse)) :
    (us.foldl (fun e w ↦ e.annotate w.1 w.2) (vs.foldl (fun e w ↦ e.withDefault w.1 w.2) e)).stripped =
      e.stripped := by
  have hus : ∀ f : ClassEntry, (us.foldl (fun e w ↦ e.annotate w.1 w.2) f).stripped = f.stripped := by
    induction us with
    | nil => exact fun _ ↦ rfl
    | cons w us ih => exact fun f ↦ (ih _).trans (f.stripped_annotate w.1 w.2)
  have hvs : ∀ f : ClassEntry, (vs.foldl (fun e w ↦ e.withDefault w.1 w.2) f).stripped = f.stripped := by
    induction vs with
    | nil => exact fun _ ↦ rfl
    | cons w vs ih => exact fun f ↦ (ih _).trans (f.stripped_withDefault w.1 w.2)
  rw [hus, hvs]

theorem ClassEntry.sameOrigin_of_stripped_eq {e f : ClassEntry} (h : e.stripped = f.stripped) : f.SameOrigin e where
  id := congrArg (·.id) h
  name := congrArg (·.name) h
  kind := congrArg (·.kind) h
  origin := congrArg (·.origin) h
  package := congrArg (·.package) h
  outer := congrArg (·.outer) h

theorem Placed.Built.stripped_eq {x : Context} {s : Assembly} {p : Placed} {e : ClassEntry} (h : p.Built x s e) :
    ∃ bare, p.type.Filled x p.scope s p.id bare ∧ e.stripped = bare.stripped := by
  obtain ⟨bare, vs, us, hfilled, -, -, rfl⟩ := h
  exact ⟨bare, hfilled, bare.stripped_foldl vs us⟩

/-! ## Names of members -/

/-- The method is that of the declaration, as far as the declaration tells by itself. -/
structure MethodDeclaration.Declares (d : MethodDeclaration) (className : String) (m : Method) : Prop where
  isConstructor : m.isConstructor = d.isConstructor
  name : m.name = if d.isConstructor then className else d.name
  typeParams : m.typeParams.map (·.name) = d.typeParams.map (·.name)
  params : m.allParams.map (·.name) = d.params.map (·.name)
  varargs : m.varargs.map (·.name) = if d.hasVarargs then d.params.getLast?.map (·.name) else none

/-- The entry is that of the declared type, with its members in order and no others. -/
structure TypeDeclaration.Declares (d : TypeDeclaration) (e : ClassEntry) : Prop where
  origin : e.origin = .defined
  name : e.name = d.name
  kind : d.kind = .supported e.kind
  typeParams : e.typeParams.map (·.name) = d.typeParams.map (·.name)
  constants : e.constants.map (·.name) = d.constants
  fields : e.fields.map (fun f ↦ (f.name, f.javadoc)) = d.fields.map fun f ↦ (f.name, f.javadoc)
  methods : List.Forall₂ (fun d m ↦ MethodDeclaration.Declares d e.name m) d.methods e.methods

theorem MethodDeclaration.Declares.of_stripped {d : MethodDeclaration} {name : String} {m n : Method}
    (h : d.Declares name m) (hn : n.stripped = m.stripped) : d.Declares name n := by
  have hreturn : n.returnType = m.returnType := congrArg (·.returnType) hn
  have hname : n.name = m.name := congrArg (·.name) hn
  have htypeParams : n.typeParams = m.typeParams := congrArg (·.typeParams) hn
  have hparams : n.params.map (·.name) = m.params.map (·.name) := by
    simpa [Method.stripped, Param.stripped, Function.comp_def] using
      congrArg (fun k : Method ↦ k.params.map (·.name)) hn
  have hvarargs : n.varargs.map (·.name) = m.varargs.map (·.name) := by
    simpa [Method.stripped, Param.stripped, Function.comp_def] using
      congrArg (fun k : Method ↦ k.varargs.map (·.name)) hn
  have hall : n.allParams.map (·.name) = m.allParams.map (·.name) := by
    simp only [Method.allParams, List.map_append, hparams, ← Option.toList_map, hvarargs]
  exact ⟨by rw [← h.isConstructor, Method.isConstructor, hreturn, Method.isConstructor], hname.trans h.name,
    by rw [htypeParams, h.typeParams], hall.trans h.params, hvarargs.trans h.varargs⟩

theorem TypeDeclaration.Declares.of_stripped {d : TypeDeclaration} {e f : ClassEntry} (h : d.Declares e)
    (hf : f.stripped = e.stripped) : d.Declares f := by
  have hsame := ClassEntry.sameOrigin_of_stripped_eq hf
  have htypeParams : f.typeParams = e.typeParams := congrArg (·.typeParams) hf
  have hconstants : f.constants = e.constants := congrArg (·.constants) hf
  have hfields : f.fields.map (fun f ↦ (f.name, f.javadoc)) = e.fields.map (fun f ↦ (f.name, f.javadoc)) := by
    simpa [ClassEntry.stripped, Field.stripped, Function.comp_def] using
      congrArg (fun g : ClassEntry ↦ g.fields.map fun f ↦ (f.name, f.javadoc)) hf
  have hmethods : f.methods.map Method.stripped = e.methods.map Method.stripped :=
    congrArg (·.methods) hf
  refine ⟨hsame.origin.trans h.origin, hsame.name.trans h.name, by rw [h.kind, hsame.kind],
    by rw [htypeParams, h.typeParams], by rw [hconstants, h.constants], hfields.trans h.fields, ?_⟩
  rw [hsame.name]
  have hstripped := h.methods.imp fun _ m hm ↦ hm.of_stripped m.stripped_stripped
  rw [← List.forall₂_map_right_iff, ← hmethods, List.forall₂_map_right_iff] at hstripped
  exact hstripped.imp fun _ m hm ↦ hm.of_stripped m.stripped_stripped.symm

/-! ## Looked up members have their names -/

theorem Context.name_of_typeParam {x : Context} {scope : Scope} {d : TypeParamDeclaration} {v : TypeVar}
    {s t : Assembly} (h : (x.typeParam scope d).Yields s v t) : v.name = d.name := by
  simp only [typeParam, Assemble.yields_bind, Assemble.yields_pure] at h
  obtain ⟨_, _, -, rfl, -⟩ := h
  rfl

theorem Context.name_of_typedParam {x : Context} {scope : Scope} {d : ParamDeclaration} {p : TypedParam}
    {s t : Assembly} (h : (x.typedParam scope d).Yields s p t) : p.name = d.name := by
  simp only [typedParam, Assemble.yields_bind, Assemble.yields_pure] at h
  obtain ⟨_, _, -, rfl, -⟩ := h
  rfl

@[simp] theorem TypedParam.name_toParam (p : TypedParam) : p.toParam.name = p.name := rfl

@[simp] theorem TypedParam.name_toVarargs (p : TypedParam) : p.toVarargs.name = p.name := rfl

theorem MethodDeclaration.names_toMethod (d : MethodDeclaration) (e : ClassEntry) (typeParams : List TypeVar)
    (returnType : Option JavaType) (params : List TypedParam) (throws : List JavaType) :
    (d.toMethod e typeParams returnType params throws).allParams.map (·.name) = params.map (·.name) := by
  cases hd : d.hasVarargs with
  | false => simp [toMethod, hd, Method.allParams, Function.comp_def]
  | true =>
      rcases List.eq_nil_or_concat params with rfl | ⟨front, last, rfl⟩
      · simp [toMethod, hd, Method.allParams]
      · simp [toMethod, hd, Method.allParams, Function.comp_def]

theorem MethodDeclaration.declares_of_found {x : Context} {outer : Scope} {c : ClassId} {s : Assembly}
    {d : MethodDeclaration} {m : Method} (hs : s.Sound) (h : d.Found x outer c s m) :
    d.Declares (s.model.entry c).name m := by
  obtain ⟨-, typeParams, returnType, params, throws, htypeParams, -, hparams, -, rfl⟩ := h
  have hnames : params.map (·.name) = d.params.map (·.name) :=
    Assemble.map_eq_of_yields_mapM (fun _ _ _ _ ↦ Context.name_of_typedParam) (hparams.settled hs)
  refine ⟨?_, rfl, ?_, (names_toMethod ..).trans hnames, ?_⟩
  · cases hd : d.isConstructor <;> simp [toMethod, bare, hd, Method.isConstructor]
  · exact Assemble.map_eq_of_yields_mapM (fun _ _ _ _ ↦ Context.name_of_typeParam) (htypeParams.settled hs)
  · cases hd : d.hasVarargs with
    | false => simp [toMethod, hd]
    | true =>
        have hlast : (params.getLast?).map (·.name) = (d.params.getLast?).map (·.name) := by
          rw [← List.getLast?_map, hnames, List.getLast?_map]
        simpa [toMethod, hd, Function.comp_def] using hlast

theorem List.map_eq_of_forall₂ {α β γ : Type} {f : α → γ} {g : β → γ} {as : List α} {bs : List β}
    (h : List.Forall₂ (fun a b ↦ g b = f a) as bs) : bs.map g = as.map f := by
  induction h with
  | nil => rfl
  | cons h _ ih => rw [List.map_cons, List.map_cons, h, ih]

theorem TypeDeclaration.declares_of_built {x : Context} {s : Assembly} {p : Placed} (hs : s.Sound)
    (hp : s.model.Represents p.id p.type) (h : p.Built x s (s.model.entry p.id)) :
    p.type.Declares (s.model.entry p.id) := by
  obtain ⟨bare, hfilled, hstripped⟩ := h.stripped_eq
  have hsame := ClassEntry.sameOrigin_of_stripped_eq hstripped.symm
  refine Declares.of_stripped (e := bare) ?_ hstripped
  refine ⟨hsame.origin.trans hp.origin, hsame.name.trans hp.name, ?_, ?_, ?_, ?_, ?_⟩
  · rw [hsame.kind]
    have hclass := hp.kind
    unfold classKind at hclass
    split at hclass
    · rename_i hsupported
      rw [hsupported, Except.ok.inj hclass]
    · cases hclass
  · refine List.map_eq_of_forall₂ ?_
    exact hfilled.typeParams.imp fun _ _ h ↦ Context.name_of_typeParam (h.settled hs)
  · simp [hfilled.constants, Function.comp_def]
  · refine List.map_eq_of_forall₂ ?_
    exact hfilled.fields.imp fun _ _ ⟨_, _, hf⟩ ↦ by rw [hf]
  · rw [hsame.name]
    exact hfilled.methods.imp fun _ _ hm ↦ MethodDeclaration.declares_of_found hs hm

/-! ## Places -/

namespace Model

variable {m : Model} {package : String} {t : TypeDeclaration} {types : List TypeDeclaration} {c d o : ClassId}

theorem Stands.represents (h : m.Stands package (t :: types) c) : m.Represents c t :=
  (List.forall₂_cons.mp h.chain).1

theorem Stands.outer_eq_none_iff (hm : m.WellFormed) (h : m.Stands package (t :: types) c) :
    (m.entry c).outer = none ↔ types = [] := by
  have hlength : (m.outers c).length = types.length := Nat.succ.inj h.chain.length_eq
  rw [← List.length_eq_zero_iff, ← hlength, List.length_eq_zero_iff]
  cases ho : (m.entry c).outer with
  | none => simp [outers_of_outer_eq_none ho]
  | some o => simp [outers_of_outer_eq_some hm.outer_below ho]

theorem Stands.outer (hm : m.WellFormed) (h : m.Stands package (t :: types) c) (ho : (m.entry c).outer = some o) :
    m.Stands package types o where
  knows := (hm.knows_of_outer ho).2
  chain := by
    have hchain := (List.forall₂_cons.mp h.chain).2
    rwa [outers_of_outer_eq_some hm.outer_below ho] at hchain
  package := by
    rw [← hm.package_of_outer ho]
    exact h.package

theorem Stands.address_eq (h : m.Stands package types c) :
    m.address c = ⟨package, types.map fun t ↦ (t.name, .defined)⟩ := by
  have hchain : (c :: m.outers c).map (fun d ↦ ((m.entry d).name, (m.entry d).origin)) =
      types.map fun t ↦ (t.name, .defined) := by
    have hflip : List.Forall₂ (fun t d ↦ ((m.entry d).name, (m.entry d).origin) = (t.name, Origin.defined)) types
        (c :: m.outers c) := (h.chain.imp fun _ _ hd ↦ Prod.ext hd.name hd.origin).flip
    exact List.map_eq_of_forall₂ hflip
  rw [address, h.package, hchain]

/-- A place is the place of one class. -/
theorem Stands.unique (hm : m.WellFormed) (hp : m.Orderly) (hc : m.Stands package types c)
    (hd : m.Stands package types d) : c = d := by
  refine hm.eq_of_address_eq hp hc.knows hd.knows ?_ (hc.address_eq.trans hd.address_eq.symm)
  rw [hc.address_eq]
  intro x hx
  obtain ⟨_, -, rfl⟩ := List.mem_map.mp hx
  exact nofun

/-- The classes that are defined in a model, in the order of their creation. -/
def definedIds (m : Model) : List ClassId :=
  ((List.range m.classes.length).map ClassId.mk).filter fun c ↦ (m.entry c).isDefined

/-- The class is that of a type element: it has what is declared, and so have the classes around it. -/
structure Carries (m : Model) (e : TypeElement) (c : ClassId) : Prop where
  chain : List.Forall₂ (fun d t ↦ TypeDeclaration.Declares t (m.entry d)) (c :: m.outers c) e.chain
  package : (m.packageEntry (m.entry c).package).name = e.package

end Model

/-- What is around a type element is a type element that declares it. -/
theorem TypeDeclaration.enclosing_of_mem_elementsAll {package : String} {enclosing ts : List TypeDeclaration}
    {e : TypeElement} (h : e ∈ elementsAll package enclosing ts) :
    e.package = package ∧ (e.enclosing = enclosing ∧ e.type ∈ ts ∨
      ∃ f ∈ elementsAll package enclosing ts,
        f.package = package ∧ e.enclosing = f.chain ∧ e.type ∈ f.type.nested) := by
  induction ts using list_induction generalizing enclosing with
  | nil => cases h
  | cons t ts ihn ih =>
      rw [elementsAll, elements_eq] at h ⊢
      rcases List.mem_append.mp h with h | h
      · rcases List.mem_cons.mp h with rfl | h
        · exact ⟨rfl, Or.inl ⟨rfl, List.mem_cons_self ..⟩⟩
        · obtain ⟨hpackage, houter | ⟨f, hf, hinner⟩⟩ := ihn h
          · exact ⟨hpackage, Or.inr ⟨⟨package, enclosing, t⟩, by simp, rfl, houter⟩⟩
          · exact ⟨hpackage, Or.inr ⟨f, by simp [hf], hinner⟩⟩
      · obtain ⟨hpackage, ⟨houter, htype⟩ | ⟨f, hf, hinner⟩⟩ := ih h
        · exact ⟨hpackage, Or.inl ⟨houter, List.mem_cons_of_mem _ htype⟩⟩
        · exact ⟨hpackage, Or.inr ⟨f, by simp [hf], hinner⟩⟩

namespace Declarations

variable {d : Declarations}

theorem enclosing_of_mem_elements {e : TypeElement} (h : e ∈ d.elements) :
    e.enclosing = [] ∨
      ∃ f ∈ d.elements, f.package = e.package ∧ e.enclosing = f.chain ∧ e.type ∈ f.type.nested := by
  obtain ⟨p, hp, he⟩ := List.mem_flatMap.mp h
  obtain ⟨hpackage, houter | ⟨f, hf, hinner⟩⟩ := TypeDeclaration.enclosing_of_mem_elementsAll he
  · exact Or.inl houter.1
  · exact Or.inr ⟨f, List.mem_flatMap.mpr ⟨p, hp, hf⟩, hinner.1.trans hpackage.symm, hinner.2⟩

namespace Assembled

variable {x : Context} {t : Assembly} {ps : List Placed}

theorem exists_element (h : d.Assembled x t ps) {p : Placed} (hp : p ∈ ps) :
    ∃ e ∈ d.elements, t.model.IsPlace e p :=
  List.exists_mem_left_of_forall₂ h.places hp

theorem origin_eq_defined_iff (h : d.Assembled x t ps) {c : ClassId} :
    (t.model.entry c).origin = .defined ↔ c ∈ ps.map (·.id) := by
  refine ⟨h.defined c, fun hc ↦ ?_⟩
  obtain ⟨p, hp, rfl⟩ := List.mem_map.mp hc
  obtain ⟨e, -, he⟩ := h.exists_element hp
  exact he.stands.represents.origin

theorem definedIds_eq (h : d.Assembled x t ps) : t.model.definedIds = ps.map (·.id) := by
  have hinjective : Function.Injective ClassId.mk := fun i j hij ↦ congrArg ClassId.index hij
  have hrange : ((List.range t.model.classes.length).map ClassId.mk).Pairwise (·.index < ·.index) :=
    List.pairwise_map.mpr List.pairwise_lt_range
  have hsorted : t.model.definedIds.Pairwise (·.index < ·.index) := hrange.filter _
  have hsorted' : (ps.map (·.id)).Pairwise (·.index < ·.index) := by
    rw [h.ids]
    exact List.pairwise_map.mpr (List.pairwise_lt_range' 1)
  have hnodup : t.model.definedIds.Nodup := (List.nodup_range.map hinjective).filter _
  have hnodup' : (ps.map (·.id)).Nodup := h.ids ▸ (List.nodup_range' _ Nat.one_pos).map hinjective
  refine List.Perm.eq_of_pairwise (fun c e _ _ hce hec ↦ absurd hce (Nat.lt_asymm hec)) hsorted hsorted'
    ((List.perm_ext_iff_of_nodup hnodup hnodup').mpr fun c ↦ ?_)
  rw [← h.origin_eq_defined_iff, Model.definedIds, List.mem_filter, ClassEntry.isDefined, decide_eq_true_iff]
  refine and_iff_right_of_imp fun hc ↦ List.mem_map.mpr ⟨c.index, List.mem_range.mpr ?_, rfl⟩
  by_contra hunknown
  rw [Model.entry_of_not_knows hunknown] at hc
  cases hc

theorem declares (h : d.Assembled x t ps) {e : TypeElement} (he : e ∈ d.elements) {c : ClassId}
    (hc : t.model.Stands e.package e.chain c) : e.type.Declares (t.model.entry c) := by
  obtain ⟨p, hp, hplace⟩ := List.exists_mem_right_of_forall₂ h.places he
  obtain rfl := hplace.stands.unique h.sound.wellFormed h.sound.reachable.orderly hc
  rw [← hplace.type]
  refine TypeDeclaration.declares_of_built h.sound ?_ (h.built p hp)
  rw [hplace.type]
  exact hc.represents

/-- The class in the place of a type element is its class, and the classes around it are those of the types
around the element. -/
theorem carries (h : d.Assembled x t ps) {e : TypeElement} (he : e ∈ d.elements) {c : ClassId}
    (hc : t.model.Stands e.package e.chain c) : t.model.Carries e c := by
  have hm := h.sound.wellFormed
  refine ⟨.cons (h.declares he hc) ?_, hc.package⟩
  have hchain := (List.forall₂_cons.mp hc.chain).2
  cases ho : (t.model.entry c).outer with
  | none =>
      rw [Model.outers_of_outer_eq_none ho] at hchain ⊢
      rw [List.forall₂_nil_left_iff.mp hchain]
      exact .nil
  | some o =>
      rw [Model.outers_of_outer_eq_some hm.outer_below ho] at hchain ⊢
      obtain htop | ⟨f, hf, hpackage, henclosing, -⟩ := enclosing_of_mem_elements he
      · rw [htop] at hchain
        cases hchain
      · have houter := hc.outer hm ho
        rw [← hpackage, henclosing] at houter
        rw [henclosing]
        exact (carries h hf houter).chain
termination_by e.enclosing.length
decreasing_by simp [henclosing, TypeElement.chain]

end Assembled

theorem Assembled.topLevel_eq {x : Context} {t : Assembly} {ps : List Placed} (h : d.Assembled x t ps) :
    (ps.filter (·.isTopLevel)).map (·.id) =
      t.model.definedIds.filter fun c ↦ (t.model.entry c).outer = none := by
  rw [h.definedIds_eq, List.filter_map]
  congr 1
  refine List.filter_congr fun p hp ↦ ?_
  rw [Function.comp_apply, h.outer p hp, Placed.isTopLevel]
  cases p.owner <;> rfl

theorem Assembled.forall₂_carries {x : Context} {t : Assembly} {ps : List Placed} (h : d.Assembled x t ps) :
    List.Forall₂ t.model.Carries d.elements t.model.definedIds := by
  rw [h.definedIds_eq, List.forall₂_map_right_iff, List.forall₂_iff_zip]
  refine ⟨h.places.length_eq, fun {e p} hmem ↦ ?_⟩
  have hplace := List.forall₂_zip h.places hmem
  exact h.carries (List.of_mem_zip hmem).1 hplace.stands

theorem Assembled.forall₂_carries_topLevel {x : Context} {t : Assembly} {ps : List Placed}
    (h : d.Assembled x t ps) :
    List.Forall₂ t.model.Carries (d.elements.filter (·.enclosing.isEmpty))
      (t.model.definedIds.filter fun c ↦ (t.model.entry c).outer = none) := by
  refine List.rel_filter (fun e c hec ↦ ?_) h.forall₂_carries
  have hlength : (t.model.outers c).length = e.enclosing.length := Nat.succ.inj hec.chain.length_eq
  change e.enclosing.isEmpty = true ↔ decide ((t.model.entry c).outer = none) = true
  rw [List.isEmpty_iff, ← List.length_eq_zero_iff, ← hlength, List.length_eq_zero_iff, decide_eq_true_iff]
  cases ho : (t.model.entry c).outer with
  | none => simp [Model.outers_of_outer_eq_none ho]
  | some o => simp [Model.outers_of_outer_eq_some h.sound.wellFormed.outer_below ho]

/-- The defined classes of a built model are the type elements, one for one and in order. The top-level ones
among them are the answer. -/
theorem carries_of_build {policy : UnresolvedPolicy} {m : Model} {classes : List ClassId}
    (h : d.build policy = .ok (m, classes)) :
    List.Forall₂ m.Carries d.elements m.definedIds ∧ m.definedIds.length = d.typeCount ∧
      classes = m.definedIds.filter (fun c ↦ (m.entry c).outer = none) ∧
      List.Forall₂ m.Carries (d.elements.filter (·.enclosing.isEmpty)) classes := by
  obtain ⟨t, ps, hassembled, rfl, rfl⟩ := assembled_of_build h
  have hcarries := hassembled.forall₂_carries
  refine ⟨hcarries, hcarries.length_eq.symm.trans d.length_elements, hassembled.topLevel_eq, ?_⟩
  rw [hassembled.topLevel_eq]
  exact hassembled.forall₂_carries_topLevel

/-- An enum with a class inside, and a class of another package. -/
def palette : Declarations where
  packages :=
    [{ name := "p"
       types :=
        [{ name := "Color", kind := .supported .enum, constants := ["RED", "BLUE"]
           nested :=
            [{ name := "Mixer", kind := .supported .plain, typeParams := [{ name := "T" }]
               fields := [{ name := "last", type := .typeVar "T", javadoc := ["The last one."] }]
               methods :=
                [{ isConstructor := true },
                 { name := "mix", hasVarargs := true
                   params := [{ name := "base", type := .typeVar "T" },
                     { name := "others", type := .array (.declared "p.Color" []) }] }] }] }] },
     { name := "q", types := [{ name := "Frame", kind := .supported .plain }] }]

theorem carries_of_build_palette :
    ∃ m classes, palette.build .fail = .ok (m, classes) ∧ List.Forall₂ m.Carries palette.elements m.definedIds ∧
      classes = m.definedIds.filter (fun c ↦ (m.entry c).outer = none) := by
  have hok : (palette.build .fail).isOk = true := by decide +kernel
  cases h : palette.build .fail with
  | error e =>
      rw [h] at hok
      cases hok
  | ok r =>
      have hcarries := carries_of_build h
      exact ⟨r.1, r.2, rfl, hcarries.1, hcarries.2.2.1⟩

end Declarations
end JavaSource
