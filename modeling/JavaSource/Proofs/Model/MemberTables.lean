import JavaSource.Proofs.Model.EntryInvariant
import JavaSource.Proofs.Model.MemberNames

/-!
# Consistent members

The builders keep several tables of names: of fields, of enum constants, of type parameters, and for each method
of its type parameters and of its parameters. Each has its own check, and each keeps its names valid and apart.
What a class implements and what a method throws is listed once.
-/

namespace JavaSource

theorem map_modify_of_forall {α β : Type} {g : α → β} {f : α → α} (h : ∀ a, g (f a) = g a) (l : List α) (i : Nat) :
    (l.modify i f).map g = l.map g := by
  apply List.ext_getElem (by simp)
  intro j _ _
  simp only [List.getElem_map, List.getElem_modify]
  split
  · exact h _
  · rfl

/-- Names that may stand beside each other. -/
structure ValidNames (names : List String) : Prop where
  nodup : names.Nodup
  valid : ∀ name ∈ names, nameFault? name = none

namespace ValidNames

theorem nil : ValidNames [] := ⟨List.nodup_nil, nofun⟩

theorem concat {names : List String} {name : String} (h : ValidNames names) (hvalid : nameFault? name = none)
    (hfree : name ∉ names) : ValidNames (names ++ [name]) where
  nodup := List.Nodup.append h.nodup (List.nodup_singleton name) (List.disjoint_singleton.mpr hfree)
  valid n hn := by
    rcases List.mem_append.mp hn with hn | hn
    · exact h.valid n hn
    · rwa [List.mem_singleton.mp hn]

theorem map_concat {α : Type} {nameOf : α → String} {l : List α} {a : α} (h : ValidNames (l.map nameOf))
    (hvalid : nameFault? (nameOf a) = none) (hfree : nameOf a ∉ l.map nameOf) :
    ValidNames ((l ++ [a]).map nameOf) := by
  rw [List.map_append]
  exact h.concat hvalid hfree

end ValidNames

/-! ## Methods -/

namespace Method

structure Consistent (m : Method) : Prop where
  typeParams : ValidNames (m.typeParams.map (·.name))
  /-- The varargs parameter is one of the parameters. -/
  params : ValidNames m.paramNames
  throws : m.throws.Nodup

theorem paramNames_modifyParam {f : Param → Param} (hf : ∀ p, (f p).name = p.name) (m : Method) (i : Nat) :
    (m.modifyParam i f).paramNames = m.paramNames := by
  have hname : Param.name ∘ f = Param.name := funext hf
  unfold modifyParam
  split
  · simp only [paramNames, allParams, List.map_append, Option.toList_map, List.map_map, hname]
  · simp only [paramNames, allParams, List.map_append, map_modify_of_forall hf]

theorem Consistent.modifyParam {m : Method} (hm : m.Consistent) {f : Param → Param} (hf : ∀ p, (f p).name = p.name)
    (i : Nat) : (m.modifyParam i f).Consistent := by
  have hparams : ValidNames (m.modifyParam i f).paramNames := by
    rw [paramNames_modifyParam hf]
    exact hm.params
  unfold Method.modifyParam at hparams ⊢
  by_cases hlast : i = m.params.length
  · rw [if_pos hlast] at hparams ⊢
    exact ⟨hm.typeParams, hparams, hm.throws⟩
  · rw [if_neg hlast] at hparams ⊢
    exact ⟨hm.typeParams, hparams, hm.throws⟩

end Method

/-- A change to a method keeps its tables consistent. Parameters are checked against the varargs parameter and the
other way round. -/
theorem MethodStep.consistent {m n : Method} {s : MethodStep} (hm : m.Consistent) (h : s.apply m = .ok n) :
    n.Consistent := by
  cases s with
  | modifiers _ | statements _ | noBody | defaultValue _ | javadoc _ =>
      cases h
      exact ⟨hm.typeParams, hm.params, hm.throws⟩
  | typeParam v =>
      obtain ⟨hvalid, hfree, rfl⟩ := Method.generify_eq_ok h
      exact ⟨hm.typeParams.map_concat hvalid hfree, hm.params, hm.throws⟩
  | param mods type name =>
      obtain ⟨hvalid, hfree, hvarargs, rfl⟩ := Method.addParam_eq_ok h
      refine ⟨hm.typeParams, ?_, hm.throws⟩
      have hnames := hm.params.concat hvalid hfree
      simpa [Method.paramNames, Method.allParams, hvarargs] using hnames
  | adjustParam i mods type =>
      cases h
      exact hm.modifyParam (f := fun p ↦ { p with mods, type }) (fun _ ↦ rfl) i
  | varargs type name =>
      obtain ⟨hvalid, hfree, hvarargs, rfl⟩ := Method.setVarargs_eq_ok h
      refine ⟨hm.typeParams, ?_, hm.throws⟩
      have hnames := hm.params.concat hvalid hfree
      simpa [Method.paramNames, Method.allParams, hvarargs] using hnames
  | throws type =>
      cases h
      exact ⟨hm.typeParams, hm.params, nodup_addOnce hm.throws⟩

/-! ## Classes -/

namespace ClassEntry

structure Consistent (e : ClassEntry) : Prop where
  fields : ValidNames e.fieldNames
  constants : ValidNames (e.constants.map (·.name))
  typeParams : ValidNames (e.typeParams.map (·.name))
  interfaces : e.interfaces.Nodup
  methods : ∀ m ∈ e.methods, m.Consistent

theorem Consistent.withFields {e : ClassEntry} (he : e.Consistent) {fields : List Field}
    (hfields : ValidNames (fields.map (·.name))) : { e with fields }.Consistent :=
  ⟨hfields, he.constants, he.typeParams, he.interfaces, he.methods⟩

theorem Consistent.withMethods {e : ClassEntry} (he : e.Consistent) {methods : List Method}
    (hmethods : ∀ m ∈ methods, m.Consistent) : { e with methods }.Consistent :=
  ⟨he.fields, he.constants, he.typeParams, he.interfaces, hmethods⟩

theorem Consistent.modifyField {e : ClassEntry} (he : e.Consistent) {f : Field → Field} (hf : ∀ x, (f x).name = x.name)
    (name : String) : (e.modifyField name f).Consistent := by
  have hnames : ValidNames (e.modifyField name f).fieldNames := by
    rw [fieldNames_modifyField hf]
    exact he.fields
  exact he.withFields hnames

theorem Consistent.modifyMethod {e : ClassEntry} (he : e.Consistent) {f : Method → Method}
    (hf : ∀ m : Method, m.Consistent → (f m).Consistent) (i : Nat) : (e.modifyMethod i f).Consistent := by
  refine he.withMethods fun m hm ↦ ?_
  obtain ⟨j, hj, rfl⟩ := List.getElem_of_mem hm
  have hj' : j < e.methods.length := by simpa using hj
  have hold := he.methods _ (List.getElem_mem hj')
  rw [List.getElem_modify]
  split
  · exact hf _ hold
  · exact hold

/-- A method starts without type parameters, parameters and thrown types. -/
theorem Consistent.addMethod {e : ClassEntry} (he : e.Consistent) {m : Method} (htypeParams : m.typeParams = [])
    (hparams : m.allParams = []) (hthrows : m.throws = []) : { e with methods := e.methods ++ [m] }.Consistent := by
  refine he.withMethods fun n hn ↦ ?_
  rcases List.mem_append.mp hn with hn | hn
  · exact he.methods n hn
  · rw [List.mem_singleton.mp hn]
    refine ⟨?_, ?_, hthrows ▸ List.nodup_nil⟩
    · rw [htypeParams]
      exact .nil
    · rw [Method.paramNames, hparams]
      exact .nil

/-- A rename puts a free valid name in the place of the old one. -/
theorem Consistent.renameField {e f : ClassEntry} (he : e.Consistent) {old new : String}
    (h : e.renameField old new = .ok f) : f.Consistent := by
  have hnodup := nodup_fieldNames_renameField he.fields.nodup h
  obtain ⟨hvalid, -, -, rfl⟩ := renameField_eq_ok_iff.mp h
  refine he.withFields ⟨hnodup, fun name hname ↦ ?_⟩
  simp only [List.map_map, List.mem_map, Function.comp_apply] at hname
  obtain ⟨x, hx, rfl⟩ := hname
  split
  · exact hvalid
  · exact he.fields.valid _ (List.mem_map_of_mem hx)

theorem Consistent.annotate {e : ClassEntry} (he : e.Consistent) (target : AnnotationTarget) (u : AnnotationUse) :
    (e.annotate target u).Consistent := by
  cases target with
  | type => exact ⟨he.fields, he.constants, he.typeParams, he.interfaces, he.methods⟩
  | field name => exact he.modifyField (f := (·.annotate u)) (fun _ ↦ rfl) name
  | method i => exact he.modifyMethod (f := (·.annotate u)) (fun _ hm ↦ ⟨hm.typeParams, hm.params, hm.throws⟩) i
  | param i j =>
      exact he.modifyMethod (fun _ hm ↦ hm.modifyParam (f := (·.annotate u)) (fun _ ↦ rfl) j) i

end ClassEntry

/-- A change to a class keeps all its tables consistent. -/
theorem MemberStep.consistent {e f : ClassEntry} {s : MemberStep} (he : e.Consistent) (h : s.apply e = .ok f) :
    f.Consistent := by
  cases s with
  | modifiers _ | initBlock _ _ | javadoc _ =>
      cases h
      exact ⟨he.fields, he.constants, he.typeParams, he.interfaces, he.methods⟩
  | superclass t =>
      obtain ⟨-, _, -, rfl⟩ := ClassEntry.setExtends_eq_ok_iff.mp h
      exact ⟨he.fields, he.constants, he.typeParams, he.interfaces, he.methods⟩
  | implement t =>
      obtain ⟨_, -, rfl⟩ := ClassEntry.addInterface_eq_ok h
      exact ⟨he.fields, he.constants, he.typeParams, nodup_addOnce he.interfaces, he.methods⟩
  | typeParam v =>
      obtain ⟨hvalid, hfree, rfl⟩ := ClassEntry.generify_eq_ok h
      exact ⟨he.fields, he.constants, he.typeParams.map_concat hvalid hfree, he.interfaces, he.methods⟩
  | field mods type name =>
      obtain ⟨hvalid, hfree, rfl⟩ := ClassEntry.addField_eq_ok h
      exact he.withFields (he.fields.map_concat hvalid hfree)
  | adjustField name mods type init lines =>
      cases h
      exact he.modifyField (f := fun x ↦ { x with mods, type, init, javadoc := lines }) (fun _ ↦ rfl) name
  | renameField old new => exact he.renameField h
  | method mods returnType name =>
      obtain ⟨-, rfl⟩ := ClassEntry.addMethod_eq_ok h
      exact he.addMethod rfl rfl rfl
  | constructor mods =>
      cases h
      exact he.addMethod rfl rfl rfl
  | constant name =>
      obtain ⟨-, hvalid, hfree, rfl⟩ := ClassEntry.addConstant_eq_ok h
      exact ⟨he.fields, he.constants.map_concat hvalid hfree, he.typeParams, he.interfaces, he.methods⟩
  | adjustConstant args lines =>
      cases h
      refine ⟨he.fields, ?_, he.typeParams, he.interfaces, he.methods⟩
      have hnames := map_modify_of_forall (g := EnumConstant.name) (f := fun k ↦ { k with args, javadoc := lines })
        (fun _ ↦ rfl) e.constants (e.constants.length - 1)
      exact hnames ▸ he.constants
  | annotate target u =>
      cases h
      exact he.annotate target u
  | inMethod i s =>
      obtain rfl | ⟨m, n, hm, hn, rfl⟩ := ClassEntry.updateMethod_eq_ok h
      · exact he
      · refine he.withMethods fun k hk ↦ ?_
        rcases List.mem_or_eq_of_mem_set hk with hk | rfl
        · exact he.methods k hk
        · exact MethodStep.consistent (he.methods m (List.mem_of_getElem? hm)) hn

/-! ## Runs -/

namespace ClassEntry

theorem IsMemberless.consistent {e : ClassEntry} (he : e.IsMemberless) : e.Consistent where
  fields := by
    rw [fieldNames, he.fields]
    exact .nil
  constants := by
    rw [he.constants]
    exact .nil
  typeParams := by
    rw [he.typeParams]
    exact .nil
  interfaces := by
    rw [he.interfaces]
    exact List.nodup_nil
  methods m hm := by
    rw [he.methods] at hm
    cases hm

theorem isInvariant_consistent : IsInvariant Consistent where
  start _ he := he.consistent
  nested _ _ he := ⟨he.fields, he.constants, he.typeParams, he.interfaces, he.methods⟩
  step _ _ _ := MemberStep.consistent

end ClassEntry

theorem Model.consistent_run (os : List Operation) (c : ClassId) : ((initial.run os).entry c).Consistent :=
  forall_entry_run ClassEntry.isInvariant_consistent os c

end JavaSource
