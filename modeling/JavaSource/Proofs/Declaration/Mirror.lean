import JavaSource.Proofs.Declaration.Carried
import JavaSource.Proofs.Declaration.TwinValue

/-!
# Classes of one declaration in two models

A type that is declared in two models has classes with the same members in both, but for the handles, when
everything that is written there stands for the same.
-/

namespace JavaSource

variable {f : ClassId → ClassId} {S : ClassId → Prop}

/-- What the items of a list have in both ways is the same up to `g`. -/
theorem List.eq_map_of_forall₂ {α β : Type} {P Q : α → β → Prop} {g : β → β} {W : β → Prop} {as : List α}
    {bs cs : List β} (hb : List.Forall₂ P as bs) (hc : List.Forall₂ Q as cs)
    (h : ∀ a ∈ as, ∀ b c, P a b → Q a c → c = g b ∧ W b) : cs = bs.map g ∧ ∀ b ∈ bs, W b := by
  induction hb generalizing cs with
  | nil =>
      cases hc
      exact ⟨rfl, nofun⟩
  | cons hab _ ih =>
      obtain ⟨c, rest, hac, hrest, rfl⟩ := List.forall₂_cons_left_iff.mp hc
      obtain ⟨rfl, hw⟩ := h _ (List.mem_cons_self ..) _ c hab hac
      obtain ⟨rfl, hws⟩ := ih hrest fun a ha ↦ h a (List.mem_cons_of_mem _ ha)
      exact ⟨rfl, List.forall_mem_cons.mpr ⟨hw, hws⟩⟩

/-! ## Members with other handles -/

namespace TypedParam

def rename (f : ClassId → ClassId) (p : TypedParam) : TypedParam := { p with type := p.type.rename f }

@[simp] theorem toParam_rename (p : TypedParam) : (p.rename f).toParam = p.toParam.rename f := rfl

@[simp] theorem toVarargs_rename (p : TypedParam) : (p.rename f).toVarargs = p.toVarargs.rename f := by
  simp only [toVarargs, rename, Param.rename, JavaType.component?_rename, List.map_nil]
  cases p.type.component? <;> rfl

theorem within_toVarargs {p : TypedParam} (h : p.type.Within S) : p.toVarargs.type.Within S := by
  unfold toVarargs
  cases hp : p.type <;> rw [hp] at h <;> exact h

end TypedParam

namespace MethodDeclaration

theorem toMethod_rename (hf : Function.Injective f) {e e' : ClassEntry} (hid : e'.id = f e.id)
    (hname : e'.name = e.name) (hkind : e'.kind = e.kind) (d : MethodDeclaration) (typeParams : List TypeVar)
    (returnType : Option JavaType) (params : List TypedParam) (throws : List JavaType) :
    d.toMethod e' (typeParams.map (TypeVar.rename f)) (returnType.map (JavaType.rename f))
        (params.map (TypedParam.rename f)) (throws.map (JavaType.rename f)) =
      (d.toMethod e typeParams returnType params throws).rename f := by
  have hbodiless : ∀ mods, e'.startsBodiless mods = e.startsBodiless mods := fun mods ↦ by
    simp only [ClassEntry.startsBodiless, hkind]
  have hreturn : (returnType.map (JavaType.rename f)).getD (.primitive .void) =
      (returnType.getD (.primitive .void)).rename f := by
    cases returnType <;> rfl
  have hthrows := foldl_addOnce_map (JavaType.rename_injective hf) throws []
  rw [List.map_nil] at hthrows
  have hparams : ∀ ps : List TypedParam, (ps.map (TypedParam.rename f)).map TypedParam.toParam =
      (ps.map TypedParam.toParam).map (Param.rename f) := fun ps ↦ by
    simp [Function.comp_def]
  simp only [toMethod, bare, Method.rename, hid, hname, hbodiless, hreturn, hthrows, List.map_nil, Option.map_none]
  cases d.isConstructor <;> cases d.hasVarargs <;>
    simp [Function.comp_def, List.getLast?_map, ← List.map_dropLast]

/-- A method speaks of what its types speak of. -/
theorem within_toMethod (d : MethodDeclaration) (e : ClassEntry) {typeParams : List TypeVar}
    {returnType : Option JavaType} {params : List TypedParam} {throws : List JavaType}
    (htypeParams : ∀ v ∈ typeParams, ∀ t, v.bound = some t → t.Within S)
    (hreturn : ∀ t, returnType = some t → t.Within S) (hparams : ∀ p ∈ params, p.type.Within S)
    (hthrows : ∀ t ∈ throws, t.Within S) :
    ∀ y ∈ (d.toMethod e typeParams returnType params throws).mentions, y.Within S := by
  intro y hy
  rcases d.mem_mentions_toMethod hy with ⟨v, hv, t, ht, rfl⟩ | ⟨t, ht, rfl⟩ | rfl | ⟨p, hp, rfl | rfl⟩ | ⟨t, ht, rfl⟩
  · exact htypeParams v hv t ht
  · exact hreturn t ht
  · trivial
  · exact hparams p hp
  · exact TypedParam.within_toVarargs (hparams p hp)
  · exact hthrows t ht

end MethodDeclaration

/-! ## Entries with other handles -/

namespace ClassEntry

/-- The second entry declares what the first does. There is no code in it, and it speaks of classes among the
given. -/
structure Mirrors (f : ClassId → ClassId) (S : ClassId → Prop) (e e' : ClassEntry) : Prop where
  copies : e.Copies f e'
  codeless : e.Codeless
  within : ∀ y ∈ e.mentions, y.Within S

variable {e e' : ClassEntry}

theorem codeless_of_stripped_eq (h : e'.stripped = e.stripped) (he : e.Codeless) : e'.Codeless where
  fields x hx := by
    have hfields : e'.fields.map Field.stripped = e.fields.map Field.stripped := congrArg (·.fields) h
    have hmem : x.stripped ∈ e'.fields.map Field.stripped := List.mem_map_of_mem hx
    obtain ⟨y, hy, hxy⟩ := List.mem_map.mp (hfields ▸ hmem)
    have hinit : x.init = y.init := (congrArg (·.init) hxy).symm
    rw [hinit, he.fields y hy]
  constants := by
    have hconstants : e'.constants = e.constants := congrArg (·.constants) h
    rw [hconstants]
    exact he.constants
  initBlocks := by
    have hblocks : e'.initBlocks = e.initBlocks := congrArg (·.initBlocks) h
    rw [hblocks, he.initBlocks]
  methods m hm := by
    have hmethods : e'.methods.map Method.stripped = e.methods.map Method.stripped := congrArg (·.methods) h
    have hmem : m.stripped ∈ e'.methods.map Method.stripped := List.mem_map_of_mem hm
    obtain ⟨n, hn, hmn⟩ := List.mem_map.mp (hmethods ▸ hmem)
    have hbody : m.body = n.body := (congrArg (·.body) hmn).symm
    rw [hbody]
    exact he.methods n hn

theorem rename_modifyMethod {g k : Method → Method} (h : ∀ m, (g m).rename f = k (m.rename f)) (e : ClassEntry)
    (i : Nat) : (e.modifyMethod i g).rename f = (e.rename f).modifyMethod i k := by
  have hmap : (e.methods.modify i g).map (Method.rename f) = (e.methods.map (Method.rename f)).modify i k := by
    refine List.ext_getElem? fun j ↦ ?_
    simp only [List.getElem?_map, List.getElem?_modify]
    cases e.methods[j]? with
    | none => rfl
    | some m => split <;> simp [h]
  simp only [modifyMethod, rename, hmap]

theorem rename_withDefault (e : ClassEntry) (i : Nat) (v : AnnotationValue) :
    (e.withDefault i v).rename f = (e.rename f).withDefault i (v.rename f) :=
  rename_modifyMethod (g := ({ · with defaultValue := some v }))
    (k := ({ · with defaultValue := some (v.rename f) })) (fun _ ↦ rfl) e i

theorem rename_annotate (e : ClassEntry) (target : AnnotationTarget) (u : AnnotationUse) :
    (e.annotate target u).rename f = (e.rename f).annotate target (u.rename f) := by
  cases target with
  | type => simp [annotate, rename]
  | field name =>
      have hfield : ∀ x : Field, Field.rename f (if x.name = name then x.annotate u else x) =
          if (x.rename f).name = name then (x.rename f).annotate (u.rename f) else x.rename f := fun x ↦ by
        by_cases hx : x.name = name <;> simp [hx, Field.rename, Field.annotate]
      simp only [annotate, modifyField, rename, List.map_map, Function.comp_def, hfield]
  | method i =>
      refine rename_modifyMethod (fun m ↦ ?_) e i
      simp [Method.annotate, Method.rename]
  | param i j =>
      refine rename_modifyMethod (fun m ↦ ?_) e i
      have hparam : ∀ p : Param, (p.annotate u).rename f = (p.rename f).annotate (u.rename f) := fun p ↦ by
        simp [Param.annotate, Param.rename]
      unfold Method.modifyParam
      by_cases hj : j = m.params.length
      · have hj' : j = (m.rename f).params.length := by simp [Method.rename, hj]
        rw [if_pos hj, if_pos hj']
        simp [Method.rename, Function.comp_def, hparam]
      · have hj' : j ≠ (m.rename f).params.length := by simpa [Method.rename] using hj
        rw [if_neg hj, if_neg hj']
        have hmap : (m.params.modify j (·.annotate u)).map (Param.rename f) =
            (m.params.map (Param.rename f)).modify j (·.annotate (u.rename f)) := by
          refine List.ext_getElem? fun k ↦ ?_
          simp only [List.getElem?_map, List.getElem?_modify]
          cases m.params[k]? with
          | none => rfl
          | some p => split <;> simp [hparam]
        simp only [Method.rename, hmap]

namespace Mirrors

theorem withDefault (h : Mirrors f S e e') (i : Nat) {v : AnnotationValue} (hv : ∀ y ∈ v.mentions, y.Within S) :
    Mirrors f S (e.withDefault i v) (e'.withDefault i (v.rename f)) where
  copies := by
    have hcopies := h.copies
    rw [Copies, rename_withDefault]
    rw [Copies] at hcopies
    rw [hcopies]
    rfl
  codeless := codeless_of_stripped_eq (e.stripped_withDefault i v) h.codeless
  within y hy := by
    have hsubset : (e.withDefault i v).mentions ⊆ e.mentions ++ v.mentions := by
      refine mentions_modifyMethod_subset (fun m z hz ↦ ?_) e i
      simp only [Method.mem_mentions, List.mem_append, Option.toList_some, List.flatMap_singleton] at hz ⊢
      grind
    rcases List.mem_append.mp (hsubset hy) with hy | hy
    · exact h.within y hy
    · exact hv y hy

theorem annotate (h : Mirrors f S e e') (target : AnnotationTarget) {u : AnnotationUse}
    (hu : ∀ y ∈ u.mentions, y.Within S) :
    Mirrors f S (e.annotate target u) (e'.annotate target (u.rename f)) where
  copies := by
    have hcopies := h.copies
    rw [Copies, rename_annotate]
    rw [Copies] at hcopies
    rw [hcopies]
    cases target <;> rfl
  codeless := codeless_of_stripped_eq (e.stripped_annotate target u) h.codeless
  within y hy := by
    rcases List.mem_append.mp (mentions_annotate_subset e target u hy) with hy | hy
    · exact h.within y hy
    · exact hu y hy

theorem foldl_withDefault {vs : List (Nat × AnnotationValue)} (hvs : ∀ w ∈ vs, ∀ y ∈ w.2.mentions, y.Within S)
    (h : Mirrors f S e e') :
    Mirrors f S (vs.foldl (fun e w ↦ e.withDefault w.1 w.2) e)
      ((vs.map fun w ↦ (w.1, w.2.rename f)).foldl (fun e w ↦ e.withDefault w.1 w.2) e') := by
  rw [List.foldl_map]
  refine List.foldl_rel (r := Mirrors f S) h fun w hw g g' hg ↦ ?_
  exact hg.withDefault w.1 (hvs w hw)

theorem foldl_annotate {us : List (AnnotationTarget × AnnotationUse)}
    (hus : ∀ w ∈ us, ∀ y ∈ w.2.mentions, y.Within S) (h : Mirrors f S e e') :
    Mirrors f S (us.foldl (fun e w ↦ e.annotate w.1 w.2) e)
      ((us.map fun w ↦ (w.1, w.2.rename f)).foldl (fun e w ↦ e.annotate w.1 w.2) e') := by
  rw [List.foldl_map]
  refine List.foldl_rel (r := Mirrors f S) h fun w hw g g' hg ↦ ?_
  exact hg.annotate w.1 (hus w hw)

end Mirrors
end ClassEntry

end JavaSource
