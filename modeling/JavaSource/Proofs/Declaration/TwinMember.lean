import JavaSource.Proofs.Declaration.Mirror
import JavaSource.Proofs.Declaration.Shapes

/-!
# Declaring the same in two models

What is declared twice is the same in both models when the names in it lead to corresponding classes: the members
of a class first, then the defaults and the annotations.
-/

namespace JavaSource

open Assembly

/-- When nothing new was found for a list, nothing new was found for any of it. -/
theorem Assembly.Looks.forall₂_of_settled {α β : Type} {a : α → Assemble β} {better : Model → β → Prop}
    {X : Model → Prop} (hX : ∀ m n, m.Extends n → X m → X n)
    (hgood : ∀ m n v, m.Extends n → better m v → better n v)
    (ha : ∀ v (k : Assembly), k.Sound → X k.model → k.Looks (a v) better) {l : List α} {vs : List β} {s : Assembly}
    (hs : s.Sound) (hm : X s.model) (h : (l.mapM a).Yields s vs s) :
    List.Forall₂ (fun d v ↦ (a d).Yields s v s) l vs := by
  induction l generalizing vs with
  | nil =>
      obtain ⟨rfl, -⟩ := Assemble.yields_mapM_nil.mp h
      exact .nil
  | cons d l ih =>
      obtain ⟨v, k, ws, hv, hws, rfl⟩ := Assemble.yields_mapM_cons.mp h
      have hsaw := ha d s hs hm v k hv
      have hrest := Looks.mapM hX hgood ha l hsaw.sound (hX _ _ hsaw.looked.grown hm) _ _ hws
      obtain rfl := hsaw.looked.antisymm hrest.looked
      exact .cons hv (ih hws)

theorem Assembly.superclassOf_rename {f : ClassId → ClassId} (hf : Function.Injective f)
    (hobject : f Model.object = Model.object) (kind : ClassKind) (written : Option JavaType) :
    superclassOf kind (written.map (JavaType.rename f)) = (superclassOf kind written).map (ClassType.rename f) := by
  cases written with
  | none => rfl
  | some t =>
      have hroot : (t.rename f).classId? = some Model.object ↔ t.classId? = some Model.object := by
        have hiff := (Option.map_injective hf).eq_iff (a := t.classId?) (b := some Model.object)
        rwa [Option.map_some, hobject, ← JavaType.classId?_rename] at hiff
      simp only [superclassOf, Option.map_some, Option.filter, ne_eq, hroot]
      split
      · exact ClassType.ofType?_rename t
      · rfl

namespace Twins

variable {x x' : Context} {s s' : Assembly} {f : ClassId → ClassId} {S : ClassId → Prop}

/-! ## Members -/

/-- What is looked up for a list is the same up to `g` when it is for each of the list. -/
theorem eq_map_of_settled (h : Twins x x' s s' f S) {α β : Type} {a : Context → α → Assemble β}
    {b : β → List ClassId} {g : β → β} {W : β → Prop}
    (hlooks : ∀ (x : Context) (k : Assembly), k.Sound → x.KnownTo k.model → ∀ d,
      k.Looks (a x d) fun m v ↦ ∀ c ∈ b v, m.Knows c)
    (hitem : ∀ d v v', (a x d).Yields s v s → (a x' d).Yields s' v' s' → v' = g v ∧ W v) {ds : List α}
    {vs vs' : List β} (hvs : (ds.mapM (a x)).Yields s vs s) (hvs' : (ds.mapM (a x')).Yields s' vs' s') :
    vs' = vs.map g ∧ ∀ v ∈ vs, W v := by
  have hall := Looks.forall₂_of_settled (fun _ _ hn hm ↦ hm.later hn) (fun _ _ _ hn hv c hc ↦ hn.knows (hv c hc))
    (fun d k hk hx ↦ hlooks x k hk hx d) h.sound h.known hvs
  have hall' := Looks.forall₂_of_settled (fun _ _ hn hm ↦ hm.later hn) (fun _ _ _ hn hv c hc ↦ hn.knows (hv c hc))
    (fun d k hk hx ↦ hlooks x' k hk hx d) h.sound' h.known' hvs'
  exact List.eq_map_of_forall₂ hall hall' fun d _ v v' ↦ hitem d v v'

theorem typeParam (h : Twins x x' s s' f S) {scope : Scope} {d : TypeParamDeclaration} {v v' : TypeVar}
    (hv : (x.typeParam scope d).Yields s v s) (hv' : (x'.typeParam scope d).Yields s' v' s') :
    v' = v.rename f ∧ ∀ t, v.bound = some t → t.Within S := by
  simp only [Context.typeParam, Assemble.yields_bind, Assemble.yields_pure] at hv hv'
  obtain ⟨t, _, ht, rfl, rfl⟩ := hv
  obtain ⟨t', _, ht', rfl, rfl⟩ := hv'
  obtain ⟨rfl, hwithin⟩ := h.typeOf? ht ht'
  exact ⟨rfl, hwithin⟩

theorem typedParam (h : Twins x x' s s' f S) {scope : Scope} {d : ParamDeclaration} {p p' : TypedParam}
    (hp : (x.typedParam scope d).Yields s p s) (hp' : (x'.typedParam scope d).Yields s' p' s') :
    p' = p.rename f ∧ p.type.Within S := by
  simp only [Context.typedParam, Assemble.yields_bind, Assemble.yields_pure] at hp hp'
  obtain ⟨t, _, ht, rfl, rfl⟩ := hp
  obtain ⟨t', _, ht', rfl, rfl⟩ := hp'
  obtain ⟨rfl, hwithin⟩ := h.typeOf scope d.type ht ht'
  exact ⟨rfl, hwithin⟩

theorem typeParams (h : Twins x x' s s' f S) {scope : Scope} {ds : List TypeParamDeclaration} {vs vs' : List TypeVar}
    (hvs : (ds.mapM (x.typeParam scope)).Yields s vs s) (hvs' : (ds.mapM (x'.typeParam scope)).Yields s' vs' s') :
    vs' = vs.map (TypeVar.rename f) ∧ ∀ v ∈ vs, ∀ t, v.bound = some t → t.Within S := by
  exact h.eq_map_of_settled (fun _ _ hk hx d ↦ Context.looks_typeParam hk hx scope d)
    (fun _ _ _ hv hv' ↦ h.typeParam hv hv') hvs hvs'

theorem typedParams (h : Twins x x' s s' f S) {scope : Scope} {ds : List ParamDeclaration} {ps ps' : List TypedParam}
    (hps : (ds.mapM (x.typedParam scope)).Yields s ps s) (hps' : (ds.mapM (x'.typedParam scope)).Yields s' ps' s') :
    ps' = ps.map (TypedParam.rename f) ∧ ∀ p ∈ ps, p.type.Within S := by
  exact h.eq_map_of_settled (b := fun p ↦ p.type.classes)
    (fun _ _ hk hx d ↦ Context.looks_typedParam hk hx scope d) (fun _ _ _ hp hp' ↦ h.typedParam hp hp') hps hps'

theorem method (h : Twins x x' s s' f S) {outer : Scope} {c : ClassId} (hc : S c) {d : MethodDeclaration}
    {m m' : Method} (hm : d.Found x outer c s m) (hm' : d.Found x' outer (f c) s' m') :
    m' = m.rename f ∧ (∀ y ∈ m.mentions, y.Within S) ∧ ∀ b, m.body = some b → b = [] := by
  obtain ⟨-, typeParams, returnType, params, throws, h₁, h₂, h₃, h₄, rfl⟩ := hm
  obtain ⟨-, typeParams', returnType', params', throws', h₁', h₂', h₃', h₄', rfl⟩ := hm'
  have hid : (s'.model.entry (f c)).id = f (s.model.entry c).id := by
    rw [h.sound'.wellFormed.id_eq _ (h.corresponds.knows' c hc), h.sound.wellFormed.id_eq c (h.corresponds.knows c hc)]
  have hname := h.corresponds.name_eq c hc
  rw [hname] at h₁' h₂' h₃' h₄'
  obtain ⟨rfl, htypeParams⟩ := h.typeParams (h₁.settled h.sound) (h₁'.settled h.sound')
  obtain ⟨rfl, hreturn⟩ := h.typeOf? (h₂.settled h.sound) (h₂'.settled h.sound')
  obtain ⟨rfl, hparams⟩ := h.typedParams (h₃.settled h.sound) (h₃'.settled h.sound')
  obtain ⟨rfl, hthrows⟩ := h.typesOf _ d.throws (h₄.settled h.sound) (h₄'.settled h.sound')
  rw [JavaType.renameEach_eq_map, MethodDeclaration.toMethod_rename h.corresponds.injective hid hname
    (h.corresponds.kind_eq c hc)]
  refine ⟨rfl, ?_, fun b hb ↦ ?_⟩
  · exact d.within_toMethod _ htypeParams hreturn hparams (JavaType.withinEach_iff.mp hthrows)
  · simp only [MethodDeclaration.toMethod, MethodDeclaration.bare] at hb
    split at hb
    · exact (Option.some.inj hb).symm
    · split at hb
      · cases hb
      · exact (Option.some.inj hb).symm

theorem field (h : Twins x x' s s' f S) {scope : Scope} {d : FieldDeclaration} {y y' : Field}
    (hy : d.Found x scope s y) (hy' : d.Found x' scope s' y') :
    y' = y.rename f ∧ (∀ z ∈ y.mentions, z.Within S) ∧ y.init = none := by
  obtain ⟨t, ht, rfl⟩ := hy
  obtain ⟨t', ht', rfl⟩ := hy'
  obtain ⟨rfl, hwithin⟩ := h.typeOf scope d.type (ht.settled h.sound) (ht'.settled h.sound')
  exact ⟨rfl, List.forall_mem_singleton.mpr hwithin, rfl⟩

theorem interfaces (h : Twins x x' s s' f S) {scope : Scope} {ws : List WrittenType} {is is' : List ClassType}
    (his : List.Forall₂ (fun w i ↦ s.Finds (x.typeOf scope w) (ClassType.toType i)) ws is)
    (his' : List.Forall₂ (fun w i ↦ s'.Finds (x'.typeOf scope w) (ClassType.toType i)) ws is') :
    is' = is.map (ClassType.rename f) ∧ ∀ i ∈ is, i.toType.Within S := by
  refine List.eq_map_of_forall₂ his his' fun w _ i i' hi hi' ↦ ?_
  obtain ⟨hrename, hwithin⟩ := h.typeOf scope w (hi.settled h.sound) (hi'.settled h.sound')
  rw [← ClassType.toType_rename] at hrename
  have hsame := congrArg ClassType.ofType? hrename
  rw [ClassType.ofType?_toType, ClassType.ofType?_toType] at hsame
  exact ⟨Option.some.inj hsame, hwithin⟩

theorem superclass (h : Twins x x' s s' f S) {d : TypeDeclaration} {scope : Scope} {c : ClassId} {e e' : ClassEntry}
    (hfill : d.Filled x scope s c e) (hfill' : d.Filled x' scope s' (f c) e') (hkind : e'.kind = e.kind) :
    e'.superclass = e.superclass.map (ClassType.rename f) ∧ ∀ b, e.superclass = some b → b.toType.Within S := by
  obtain ⟨type, htype, hsuper⟩ := hfill.superclass
  obtain ⟨type', htype', hsuper'⟩ := hfill'.superclass
  obtain ⟨rfl, hwithin⟩ := h.typeOf? (htype.settled h.sound) (htype'.settled h.sound')
  refine ⟨?_, fun b hb ↦ ?_⟩
  · rw [hsuper', hsuper, hkind, superclassOf_rename h.corresponds.injective h.corresponds.object_eq]
  · rw [hsuper, superclassOf] at hb
    obtain ⟨t, ht, hof⟩ := Option.bind_eq_some_iff.mp hb
    rw [ClassType.toType_of_ofType? hof]
    exact hwithin t (Option.filter_eq_some_iff.mp ht).1

theorem interfacesAdded (h : Twins x x' s s' f S) {d : TypeDeclaration} {scope : Scope} {c : ClassId}
    {e e' : ClassEntry} (hfill : d.Filled x scope s c e) (hfill' : d.Filled x' scope s' (f c) e') :
    e'.interfaces = e.interfaces.map (ClassType.rename f) ∧ ∀ i ∈ e.interfaces, i.toType.Within S := by
  obtain ⟨is, his, hinterfaces⟩ := hfill.interfaces
  obtain ⟨is', his', hinterfaces'⟩ := hfill'.interfaces
  obtain ⟨rfl, hwithin⟩ := h.interfaces his his'
  have hmap := foldl_addOnce_map (ClassType.rename_injective h.corresponds.injective) is []
  rw [List.map_nil] at hmap
  refine ⟨by rw [hinterfaces', hmap, hinterfaces], fun i hi ↦ ?_⟩
  rw [hinterfaces] at hi
  exact hwithin i ((mem_of_mem_foldl_addOnce hi).resolve_left nofun)

/-- A declared type has the same members in both models. -/
theorem mirrors_of_filled (h : Twins x x' s s' f S) {d : TypeDeclaration} {scope : Scope} {c : ClassId}
    {e e' : ClassEntry} (hc : S c) (hfill : d.Filled x scope s c e) (hfill' : d.Filled x' scope s' (f c) e')
    (hname : e'.name = e.name) (hkind : e'.kind = e.kind) (horigin : e'.origin = e.origin) : e.Mirrors f S e' := by
  obtain ⟨hsuper, hbase⟩ := h.superclass hfill hfill' hkind
  obtain ⟨hinterfaces, his⟩ := h.interfacesAdded hfill hfill'
  obtain ⟨hvs, hbounds⟩ := List.eq_map_of_forall₂ hfill.typeParams hfill'.typeParams fun _ _ _ _ hv hv' ↦
    h.typeParam (hv.settled h.sound) (hv'.settled h.sound')
  obtain ⟨hfs, hfields⟩ := List.eq_map_of_forall₂ hfill.fields hfill'.fields fun _ _ _ _ hy hy' ↦ h.field hy hy'
  obtain ⟨hms, hmethods⟩ := List.eq_map_of_forall₂ hfill.methods hfill'.methods fun _ _ _ _ hm hm' ↦
    h.method hc hm hm'
  have hconstants : ∀ k ∈ e.constants, k.args = [] := fun k hk ↦ by
    rw [hfill.constants] at hk
    obtain ⟨_, -, rfl⟩ := List.mem_map.mp hk
    rfl
  refine ⟨?_, ⟨fun y hy ↦ (hfields y hy).2, hconstants, hfill.initBlocks, fun m hm ↦ (hmethods m hm).2⟩, ?_⟩
  · have hmods : e'.mods = e.mods := by rw [hfill.mods, hfill'.mods, hkind]
    have hjavadoc : e'.javadoc = e.javadoc := by rw [hfill.javadoc, hfill'.javadoc]
    have hks : e'.constants = e.constants := by rw [hfill.constants, hfill'.constants]
    have hblocks : e'.initBlocks = e.initBlocks := by rw [hfill.initBlocks, hfill'.initBlocks]
    have huses : e'.annotations = e.annotations.map (AnnotationUse.rename f) := by
      rw [hfill.annotations, hfill'.annotations, List.map_nil]
    rw [ClassEntry.Copies, ClassEntry.rename, ← hname, ← hkind, ← horigin, ← hmods, ← hsuper, ← hinterfaces, ← hvs,
      ← hfs, ← hms, ← hjavadoc, ← hks, ← hblocks, ← huses]
  · intro y hy
    rw [ClassEntry.mem_mentions] at hy
    rcases hy with hy | hy | hy | hy | hy | hy | hy | hy
    · rw [hfill.annotations] at hy
      cases hy
    · obtain ⟨v, hv, hy⟩ := List.mem_flatMap.mp hy
      obtain ⟨t, ht, rfl⟩ := List.mem_map.mp hy
      exact hbounds v hv t (Option.mem_toList.mp ht)
    · obtain ⟨base, hmem, hy⟩ := List.mem_flatMap.mp hy
      rw [List.mem_singleton.mp hy]
      exact hbase base (Option.mem_toList.mp hmem)
    · obtain ⟨i, hi, hy⟩ := List.mem_flatMap.mp hy
      rw [List.mem_singleton.mp hy]
      exact his i hi
    · obtain ⟨k, hk, hy⟩ := List.mem_flatMap.mp hy
      rw [hconstants k hk] at hy
      cases hy
    · obtain ⟨z, hz, hy⟩ := List.mem_flatMap.mp hy
      exact (hfields z hz).1 y hy
    · rw [hfill.initBlocks] at hy
      cases hy
    · obtain ⟨m, hm, hy⟩ := List.mem_flatMap.mp hy
      exact (hmethods m hm).1 y hy

/-! ## Finished classes -/

end Twins

/-- Two placed types are one and the same, placed in two models. -/
structure Placed.Matches (f : ClassId → ClassId) (S : ClassId → Prop) (p p' : Placed) : Prop where
  mem : S p.id
  id_eq : p'.id = f p.id
  type_eq : p'.type = p.type
  scope_eq : p'.scope = p.scope

namespace Placed.Matches

variable {f : ClassId → ClassId} {S : ClassId → Prop} {p p' : Placed}

theorem defaults_eq (h : p.Matches f S p') : p'.defaults = p.defaults.map ({ · with id := p'.id }) := by
  simp [Placed.defaults, h.type_eq, List.map_filterMap, Function.comp_def]

theorem deferred_eq (h : p.Matches f S p') : p'.deferred = p.deferred.map ({ · with id := p'.id }) := by
  simp [Placed.deferred, h.type_eq, List.map_flatMap, MethodDeclaration.deferred, Function.comp_def]

end Placed.Matches

theorem ClassEntry.signatures_of_stripped_eq {e e' : ClassEntry} (h : e'.stripped = e.stripped) :
    e'.signatures = e.signatures := by
  have hmethods : e'.methods.map Method.stripped = e.methods.map Method.stripped := congrArg (·.methods) h
  have hsignatures : ∀ g : ClassEntry,
      g.signatures = (g.methods.map Method.stripped).map fun m ↦ (m.name, m.returnType) := fun g ↦ by
    simp [signatures, Function.comp_def, Method.stripped]
  rw [hsignatures, hsignatures, hmethods]

theorem ClassEntry.Mirrors.signatures {f : ClassId → ClassId} {S : ClassId → Prop} {e e' : ClassEntry}
    (h : e.Mirrors f S e') :
    e'.signatures = e.signatures.map (Method.renameSignature f) ∧
      ∀ y ∈ e.signatures, ∀ t, y.2 = some t → t.Within S := by
  have hmethods : e'.methods = e.methods.map (Method.rename f) := congrArg (·.methods) h.copies
  refine ⟨?_, fun y hy t ht ↦ ?_⟩
  · simp [ClassEntry.signatures, hmethods, Function.comp_def, Method.rename, Method.renameSignature]
  · obtain ⟨m, hm, rfl⟩ := List.mem_map.mp hy
    exact h.within (.type t) (ClassEntry.mem_mentions_of_returnType hm ht)

namespace Twins

variable {x x' : Context} {s s' : Assembly} {f : ClassId → ClassId} {S : ClassId → Prop} {p p' : Placed}

/-- The classes of a placed type have the same members before they get defaults and annotations. -/
theorem mirrors_of_bare (h : Twins x x' s s' f S) (hp : p.Matches f S p') {bare bare' : ClassEntry}
    (hfill : p.type.Filled x p.scope s p.id bare) (hfill' : p'.type.Filled x' p'.scope s' p'.id bare')
    (hstripped : (s.model.entry p.id).stripped = bare.stripped)
    (hstripped' : (s'.model.entry p'.id).stripped = bare'.stripped) : bare.Mirrors f S bare' := by
  rw [hp.type_eq, hp.scope_eq, hp.id_eq] at hfill'
  rw [hp.id_eq] at hstripped'
  have hold := ClassEntry.sameOrigin_of_stripped_eq hstripped
  have hnew := ClassEntry.sameOrigin_of_stripped_eq hstripped'
  refine h.mirrors_of_filled hp.mem hfill hfill' ?_ ?_ ?_
  · rw [← hold.name, ← hnew.name, h.corresponds.name_eq p.id hp.mem]
  · rw [← hold.kind, ← hnew.kind, h.corresponds.kind_eq p.id hp.mem]
  · rw [← hold.origin, ← hnew.origin, h.corresponds.origin_eq p.id hp.mem]

theorem signatures_of_built (h : Twins x x' s s' f S) (hp : p.Matches f S p')
    (hbuilt : p.Built x s (s.model.entry p.id)) (hbuilt' : p'.Built x' s' (s'.model.entry p'.id)) :
    (s'.model.entry p'.id).signatures =
        (s.model.entry p.id).signatures.map (Method.renameSignature f) ∧
      ∀ y ∈ (s.model.entry p.id).signatures, ∀ t, y.2 = some t → t.Within S := by
  obtain ⟨bare, hfill, hstripped⟩ := hbuilt.stripped_eq
  obtain ⟨bare', hfill', hstripped'⟩ := hbuilt'.stripped_eq
  have hsignatures := (h.mirrors_of_bare hp hfill hfill' hstripped hstripped').signatures
  rwa [ClassEntry.signatures_of_stripped_eq hstripped, ClassEntry.signatures_of_stripped_eq hstripped']

theorem default (h : Twins x x' s s' f S) {e e' : ClassEntry} (he : e.Mirrors f S e') {d : DeferredDefault}
    (hagree : AgreeOn x s s' f S d.value.annotations) {v v' : AnnotationValue} (hv : d.Found x e s v)
    (hv' : d.Found x' e' s' v') : v' = v.rename f ∧ ∀ y ∈ v.mentions, y.Within S := by
  obtain ⟨m, hm, -, hv⟩ := hv
  obtain ⟨m', hm', -, hv'⟩ := hv'
  have hmethods : e'.methods = e.methods.map (Method.rename f) := congrArg (·.methods) he.copies
  rw [hmethods, List.getElem?_map, hm, Option.map_some] at hm'
  obtain rfl := Option.some.inj hm'
  have hhints : Hints s s' f S (m.returnType.bind s.model.memberHint)
      ((m.rename f).returnType.bind s'.model.memberHint) := by
    cases hreturn : m.returnType with
    | none => simpa [Method.rename, hreturn] using Hints.none
    | some t =>
        have hmem : (m.name, m.returnType) ∈ e.signatures := List.mem_map_of_mem (List.mem_of_getElem? hm)
        have hwithin := he.signatures.2 _ hmem t hreturn
        simpa [Method.rename, hreturn] using Hints.ofType h.corresponds hwithin
  exact h.valueOf _ d.value hhints hagree (hv.settled h.sound) (hv'.settled h.sound')

/-- The classes of a placed type have the same members and defaults before they get annotations. -/
theorem exists_mirrors_of_built (h : Twins x x' s s' f S) (hp : p.Matches f S p')
    (hbuilt : p.Built x s (s.model.entry p.id)) (hbuilt' : p'.Built x' s' (s'.model.entry p'.id))
    (hagree : ∀ d ∈ p.defaults, AgreeOn x s s' f S d.value.annotations) :
    ∃ e e' us us', e.Mirrors f S e' ∧
      List.Forall₂ (fun a (w : AnnotationTarget × AnnotationUse) ↦
        w.1 = a.target ∧ s.Finds (x.useOf a.written) w.2) p.deferred us ∧
      List.Forall₂ (fun a (w : AnnotationTarget × AnnotationUse) ↦
        w.1 = a.target ∧ s'.Finds (x'.useOf a.written) w.2) p.deferred us' ∧
      s.model.entry p.id = us.foldl (fun e w ↦ e.annotate w.1 w.2) e ∧
      s'.model.entry p'.id = us'.foldl (fun e w ↦ e.annotate w.1 w.2) e' := by
  obtain ⟨bare, vs, us, hfill, hvs, hus, hentry⟩ := hbuilt
  obtain ⟨bare', vs', us', hfill', hvs', hus', hentry'⟩ := hbuilt'
  have hbare := h.mirrors_of_bare hp hfill hfill' (hentry ▸ bare.stripped_foldl vs us)
    (hentry' ▸ bare'.stripped_foldl vs' us')
  rw [hp.defaults_eq, List.forall₂_map_left_iff] at hvs'
  rw [hp.deferred_eq, List.forall₂_map_left_iff] at hus'
  obtain ⟨rfl, hwithin⟩ := List.eq_map_of_forall₂ (g := fun w ↦ (w.1, w.2.rename f))
    (W := fun w ↦ ∀ y ∈ w.2.mentions, y.Within S) hvs hvs' fun d hd w w' hw hw' ↦ by
      obtain ⟨hrename, hwithin⟩ := h.default hbare (hagree d hd) hw.2 hw'.2
      exact ⟨Prod.ext (hw'.1.trans hw.1.symm) hrename, hwithin⟩
  exact ⟨_, _, us, us', hbare.foldl_withDefault hwithin, hus, hus', hentry, hentry'⟩

theorem defaults_of_built (h : Twins x x' s s' f S) (hp : p.Matches f S p')
    (hbuilt : p.Built x s (s.model.entry p.id)) (hbuilt' : p'.Built x' s' (s'.model.entry p'.id))
    (hagree : ∀ d ∈ p.defaults, AgreeOn x s s' f S d.value.annotations) :
    (s'.model.entry p'.id).defaults =
      (s.model.entry p.id).defaults.map (Option.map (AnnotationValue.rename f)) := by
  obtain ⟨e, e', us, us', hmirrors, -, -, hentry, hentry'⟩ := h.exists_mirrors_of_built hp hbuilt hbuilt' hagree
  have hmethods : e'.methods = e.methods.map (Method.rename f) := congrArg (·.methods) hmirrors.copies
  rw [hentry, hentry', ClassEntry.defaults_foldl_annotate, ClassEntry.defaults_foldl_annotate]
  simp [ClassEntry.defaults, hmethods, Function.comp_def, Method.rename]

/-- A placed type has the same class in both models. -/
theorem mirrors_of_built (h : Twins x x' s s' f S) (hp : p.Matches f S p')
    (hbuilt : p.Built x s (s.model.entry p.id)) (hbuilt' : p'.Built x' s' (s'.model.entry p'.id))
    (hagree : ∀ d ∈ p.defaults, AgreeOn x s s' f S d.value.annotations)
    (hagree' : ∀ a ∈ p.deferred, AgreeOn x s s' f S a.written.names) :
    (s.model.entry p.id).Mirrors f S (s'.model.entry p'.id) := by
  obtain ⟨e, e', us, us', hmirrors, hus, hus', hentry, hentry'⟩ := h.exists_mirrors_of_built hp hbuilt hbuilt' hagree
  obtain ⟨rfl, hwithin⟩ := List.eq_map_of_forall₂ (g := fun w ↦ (w.1, w.2.rename f))
    (W := fun w ↦ ∀ y ∈ w.2.mentions, y.Within S) hus hus' fun a ha w w' hw hw' ↦ by
      obtain ⟨hrename, hwithin⟩ := h.useOf (hagree' a ha) (hw.2.settled h.sound) (hw'.2.settled h.sound')
      exact ⟨Prod.ext (hw'.1.trans hw.1.symm) hrename, hwithin⟩
  rw [hentry, hentry']
  exact hmirrors.foldl_annotate hwithin

end Twins
end JavaSource
