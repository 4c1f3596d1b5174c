import JavaSource.Proofs.Model.MemberBuilders

/-!
# Changes to the members of a class

A change to the members of a class keeps what was settled when the class was made, and the class mentions
nothing afterwards that neither it nor the change mentioned before.
-/

namespace JavaSource

theorem flatMap_modify_subset {α β : Type} {mentions : α → List β} {f : α → α} {added : List β}
    (h : ∀ a, mentions (f a) ⊆ mentions a ++ added) (l : List α) (i : Nat) :
    (l.modify i f).flatMap mentions ⊆ l.flatMap mentions ++ added := by
  intro x hx
  obtain ⟨a, ha, hx⟩ := List.mem_flatMap.mp hx
  obtain ⟨j, hj, rfl⟩ := List.getElem_of_mem ha
  have hj' : j < l.length := by simpa using hj
  rw [List.getElem_modify] at hx
  have hmem : ∀ y ∈ mentions l[j], y ∈ l.flatMap mentions := fun y hy ↦
    List.mem_flatMap.mpr ⟨_, List.getElem_mem hj', hy⟩
  split at hx
  · rcases List.mem_append.mp (h _ hx) with hx | hx
    · exact List.mem_append_left _ (hmem x hx)
    · exact List.mem_append_right _ hx
  · exact List.mem_append_left _ (hmem x hx)

theorem Stmt.mentionsEach_append (b c : Block) :
    mentionsEach (b ++ c) = mentionsEach b ++ mentionsEach c := by
  induction b with
  | nil => rfl
  | cons s b ih => rw [List.cons_append, mentionsEach, mentionsEach, ih, List.append_assoc]

theorem Method.mem_mentions {m : Method} {x : Mention} :
    x ∈ m.mentions ↔ x ∈ m.annotations.flatMap AnnotationUse.mentions ∨
      x ∈ m.typeParams.flatMap TypeVar.mentions ∨ x ∈ m.returnType.toList.map .type ∨
      x ∈ m.params.flatMap Param.mentions ∨ x ∈ m.varargs.toList.flatMap Param.mentions ∨
      x ∈ m.throws.map .type ∨ x ∈ m.defaultValue.toList.flatMap AnnotationValue.mentions ∨
      x ∈ m.body.toList.flatMap Stmt.mentionsEach := by
  simp only [mentions, allParams, List.flatMap_append, List.mem_append, or_assoc]

theorem Method.mentions_modifyParam_subset {f : Param → Param} {added : List Mention}
    (h : ∀ p, (f p).mentions ⊆ p.mentions ++ added) (m : Method) (i : Nat) :
    (m.modifyParam i f).mentions ⊆ m.mentions ++ added := by
  intro x hx
  rw [List.mem_append]
  unfold modifyParam at hx
  split at hx
  · rw [mem_mentions] at hx ⊢
    cases hv : m.varargs with
    | none => simp_all
    | some v =>
        have hp := @h v x
        simp only [hv, Option.map_some, Option.toList_some, List.flatMap_singleton,
          List.mem_append] at hx hp ⊢
        grind
  · have hp := @flatMap_modify_subset _ _ _ _ _ h m.params i x
    rw [mem_mentions] at hx ⊢
    simp only [List.mem_append] at hp hx
    grind

namespace MethodStep

theorem mentions_of_apply {m n : Method} {s : MethodStep} (h : s.apply m = .ok n) :
    n.mentions ⊆ m.mentions ++ s.mentions := by
  cases s with
  | modifiers mods | javadoc lines =>
      cases h
      exact List.subset_append_left _ _
  | typeParam v =>
      obtain ⟨-, -, rfl⟩ := Method.generify_eq_ok h
      intro x hx
      simp only [Method.mem_mentions, mentions, List.flatMap_append, List.flatMap_singleton,
        List.mem_append] at hx ⊢
      grind
  | param mods type name =>
      obtain ⟨-, -, -, rfl⟩ := Method.addParam_eq_ok h
      intro x hx
      simp only [Method.mem_mentions, mentions, List.flatMap_append, List.flatMap_singleton,
        List.mem_append, Param.mentions, List.flatMap_nil, List.nil_append] at hx ⊢
      grind
  | adjustParam i mods type =>
      cases h
      refine Method.mentions_modifyParam_subset (fun p x hx ↦ ?_) m i
      simp only [Param.mentions, mentions, List.mem_append] at hx ⊢
      grind
  | varargs type name =>
      obtain ⟨-, -, -, rfl⟩ := Method.setVarargs_eq_ok h
      intro x hx
      simp only [Method.mem_mentions, mentions, List.mem_append, Param.mentions, List.flatMap_nil,
        List.nil_append, Option.toList_some, List.flatMap_singleton] at hx ⊢
      grind
  | throws type =>
      cases h
      intro x hx
      simp only [Method.mem_mentions, Method.addThrows, List.mem_map, mem_addOnce, mentions,
        List.mem_append] at hx ⊢
      grind
  | statements b =>
      cases h
      intro x hx
      cases hb : m.body <;>
        simp only [Method.mem_mentions, Method.extendBody, mentions, List.mem_append, hb,
          Option.getD_none, Option.getD_some, Option.toList_some, List.flatMap_singleton,
          List.nil_append, Stmt.mentionsEach_append] at hx ⊢ <;>
        grind
  | noBody =>
      cases h
      intro x hx
      simp only [Method.mem_mentions, Method.removeBody, List.mem_append] at hx ⊢
      grind
  | defaultValue v =>
      cases h
      intro x hx
      simp only [Method.mem_mentions, mentions, List.mem_append, Option.toList_some,
        List.flatMap_singleton] at hx ⊢
      grind

end MethodStep

namespace ClassEntry

theorem mem_mentions {e : ClassEntry} {x : Mention} :
    x ∈ e.mentions ↔ x ∈ e.annotations.flatMap AnnotationUse.mentions ∨
      x ∈ e.typeParams.flatMap TypeVar.mentions ∨ x ∈ e.superclass.toList.flatMap ClassType.mentions ∨
      x ∈ e.interfaces.flatMap ClassType.mentions ∨
      x ∈ e.constants.flatMap (fun k ↦ Expr.mentionsEach k.args) ∨
      x ∈ e.fields.flatMap Field.mentions ∨
      x ∈ e.initBlocks.flatMap (fun b ↦ Stmt.mentionsEach b.body) ∨
      x ∈ e.methods.flatMap Method.mentions := by
  simp only [mentions, headerMentions, bodyMentions, List.mem_append, or_assoc]

theorem mentions_modifyField_subset {f : Field → Field} {added : List Mention}
    (h : ∀ x, (f x).mentions ⊆ x.mentions ++ added) (e : ClassEntry) (name : String) :
    (e.modifyField name f).mentions ⊆ e.mentions ++ added := by
  have hfields : (e.modifyField name f).fields.flatMap Field.mentions ⊆
      e.fields.flatMap Field.mentions ++ added := by
    intro x hx
    obtain ⟨_, hmap, hx⟩ := List.mem_flatMap.mp hx
    obtain ⟨g, hg, rfl⟩ := List.mem_map.mp hmap
    have hmem : ∀ y ∈ g.mentions, y ∈ e.fields.flatMap Field.mentions := fun y hy ↦
      List.mem_flatMap.mpr ⟨g, hg, hy⟩
    split at hx
    · rcases List.mem_append.mp (h g hx) with hx | hx
      · exact List.mem_append_left _ (hmem x hx)
      · exact List.mem_append_right _ hx
    · exact List.mem_append_left _ (hmem x hx)
  intro x hx
  have hf := @hfields x
  rw [List.mem_append] at hf ⊢
  simp only [mem_mentions, modifyField] at hx hf ⊢
  grind

theorem mentions_modifyMethod_subset {f : Method → Method} {added : List Mention}
    (h : ∀ m, (f m).mentions ⊆ m.mentions ++ added) (e : ClassEntry) (i : Nat) :
    (e.modifyMethod i f).mentions ⊆ e.mentions ++ added := by
  intro x hx
  have hm := @flatMap_modify_subset _ _ _ _ _ h e.methods i x
  rw [List.mem_append] at hm ⊢
  simp only [mem_mentions, modifyMethod] at hx hm ⊢
  grind

theorem mentions_annotate_subset (e : ClassEntry) (target : AnnotationTarget) (u : AnnotationUse) :
    (e.annotate target u).mentions ⊆ e.mentions ++ u.mentions := by
  cases target with
  | type =>
      intro x hx
      simp only [mem_mentions, annotate, List.flatMap_append, List.flatMap_singleton,
        List.mem_append] at hx ⊢
      grind
  | field name =>
      refine mentions_modifyField_subset (fun f x hx ↦ ?_) e name
      simp only [Field.mentions, Field.annotate, List.flatMap_append, List.flatMap_singleton,
        List.mem_append] at hx ⊢
      grind
  | method i =>
      refine mentions_modifyMethod_subset (fun m x hx ↦ ?_) e i
      simp only [Method.mem_mentions, Method.annotate, List.flatMap_append, List.flatMap_singleton,
        List.mem_append] at hx ⊢
      grind
  | param i j =>
      refine mentions_modifyMethod_subset (fun m ↦ ?_) e i
      refine Method.mentions_modifyParam_subset (fun p x hx ↦ ?_) m j
      simp only [Param.mentions, Param.annotate, List.flatMap_append, List.flatMap_singleton,
        List.mem_append] at hx ⊢
      grind

end ClassEntry

/-- The entry `f` is `e` after a change that may mention something new. -/
structure ClassEntry.Reworked (e : ClassEntry) (added : List Mention) (f : ClassEntry) : Prop where
  sameOrigin : e.SameOrigin f
  nested : f.nested = e.nested
  mentions : f.mentions ⊆ e.mentions ++ added

theorem MemberStep.reworked {e f : ClassEntry} {s : MemberStep} (h : s.apply e = .ok f) :
    e.Reworked s.mentions f := by
  cases s with
  | modifiers mods | javadoc lines =>
      cases h
      exact ⟨⟨rfl, rfl, rfl, rfl, rfl, rfl⟩, rfl, List.subset_append_left _ _⟩
  | superclass t =>
      obtain ⟨-, base, hbase, rfl⟩ := ClassEntry.setExtends_eq_ok_iff.mp h
      refine ⟨⟨rfl, rfl, rfl, rfl, rfl, rfl⟩, rfl, fun x hx ↦ ?_⟩
      simp only [ClassEntry.mem_mentions, mentions, List.mem_append, Option.toList_some,
        List.flatMap_singleton, ClassType.mentions, ClassType.toType_of_ofType? hbase] at hx ⊢
      grind
  | implement t =>
      obtain ⟨i, hi, rfl⟩ := ClassEntry.addInterface_eq_ok h
      refine ⟨⟨rfl, rfl, rfl, rfl, rfl, rfl⟩, rfl, fun x hx ↦ ?_⟩
      simp only [ClassEntry.mem_mentions, mentions, List.mem_append, List.mem_flatMap (l := addOnce _ _),
        mem_addOnce, ClassType.mentions] at hx ⊢
      simp only [← ClassType.toType_of_ofType? hi]
      grind [ClassType.mentions]
  | typeParam v =>
      obtain ⟨-, -, rfl⟩ := ClassEntry.generify_eq_ok h
      refine ⟨⟨rfl, rfl, rfl, rfl, rfl, rfl⟩, rfl, fun x hx ↦ ?_⟩
      simp only [ClassEntry.mem_mentions, mentions, List.flatMap_append, List.flatMap_singleton,
        List.mem_append] at hx ⊢
      grind
  | field mods type name =>
      obtain ⟨-, -, rfl⟩ := ClassEntry.addField_eq_ok h
      refine ⟨⟨rfl, rfl, rfl, rfl, rfl, rfl⟩, rfl, fun x hx ↦ ?_⟩
      simp only [ClassEntry.mem_mentions, mentions, List.flatMap_append, List.flatMap_singleton,
        List.mem_append, Field.mentions, List.flatMap_nil, List.nil_append,
        Option.toList_none] at hx ⊢
      grind
  | adjustField name mods type init lines =>
      cases h
      refine ⟨⟨rfl, rfl, rfl, rfl, rfl, rfl⟩, rfl, ?_⟩
      refine ClassEntry.mentions_modifyField_subset (fun f x hx ↦ ?_) e name
      simp only [Field.mentions, mentions, List.mem_append, List.mem_cons] at hx ⊢
      grind
  | renameField old new =>
      obtain ⟨-, -, -, rfl⟩ := ClassEntry.renameField_eq_ok_iff.mp h
      refine ⟨⟨rfl, rfl, rfl, rfl, rfl, rfl⟩, rfl, ?_⟩
      refine ClassEntry.mentions_modifyField_subset (fun f ↦ ?_) e old
      exact List.subset_append_left _ _
  | method mods returnType name =>
      obtain ⟨-, rfl⟩ := ClassEntry.addMethod_eq_ok h
      have hnew : ∀ body, body = none ∨ body = some [] →
          Method.mentions
            { owner := e.id, name, mods, returnType := some returnType, body } = [.type returnType] := by
        rintro _ (rfl | rfl) <;> rfl
      have hbody := hnew (if e.startsBodiless mods then none else some []) (by split <;> simp)
      refine ⟨⟨rfl, rfl, rfl, rfl, rfl, rfl⟩, rfl, fun x hx ↦ ?_⟩
      simp only [ClassEntry.mem_mentions, mentions, List.flatMap_append, List.flatMap_singleton,
        hbody, List.mem_append] at hx ⊢
      grind
  | constructor mods =>
      cases h
      refine ⟨⟨rfl, rfl, rfl, rfl, rfl, rfl⟩, rfl, fun x hx ↦ ?_⟩
      have hnew : Method.mentions
          { owner := e.id, name := e.name, mods, returnType := none, body := some [] } = [] := rfl
      simp only [ClassEntry.mem_mentions, ClassEntry.addConstructor, mentions, List.flatMap_append,
        List.flatMap_singleton, hnew, List.append_nil] at hx ⊢
      exact hx
  | constant name =>
      obtain ⟨-, -, -, rfl⟩ := ClassEntry.addConstant_eq_ok h
      refine ⟨⟨rfl, rfl, rfl, rfl, rfl, rfl⟩, rfl, fun x hx ↦ ?_⟩
      simp [ClassEntry.mem_mentions, mentions, Expr.mentionsEach] at hx ⊢
      exact hx
  | adjustConstant args lines =>
      cases h
      refine ⟨⟨rfl, rfl, rfl, rfl, rfl, rfl⟩, rfl, fun x hx ↦ ?_⟩
      have hk := @flatMap_modify_subset EnumConstant Mention (fun k ↦ Expr.mentionsEach k.args)
        (fun k ↦ { k with args, javadoc := lines }) (Expr.mentionsEach args)
        (fun k ↦ List.subset_append_right _ _) e.constants (e.constants.length - 1) x
      rw [List.mem_append] at hk ⊢
      simp only [ClassEntry.mem_mentions, ClassEntry.modifyLastConstant, mentions] at hx hk ⊢
      grind
  | initBlock isStatic body =>
      cases h
      refine ⟨⟨rfl, rfl, rfl, rfl, rfl, rfl⟩, rfl, fun x hx ↦ ?_⟩
      simp only [ClassEntry.mem_mentions, ClassEntry.addInitBlock, mentions, List.flatMap_append,
        List.flatMap_singleton, List.mem_append] at hx ⊢
      grind
  | annotate target u =>
      cases h
      refine ⟨?_, ?_, ClassEntry.mentions_annotate_subset e target u⟩
      · cases target <;> exact ⟨rfl, rfl, rfl, rfl, rfl, rfl⟩
      · cases target <;> rfl
  | inMethod i s =>
      obtain rfl | ⟨m, n, hm, hn, rfl⟩ := ClassEntry.updateMethod_eq_ok h
      · exact ⟨⟨rfl, rfl, rfl, rfl, rfl, rfl⟩, rfl, List.subset_append_left _ _⟩
      · refine ⟨⟨rfl, rfl, rfl, rfl, rfl, rfl⟩, rfl, fun x hx ↦ ?_⟩
        have hmethods : x ∈ (e.methods.set i n).flatMap Method.mentions →
            x ∈ e.methods.flatMap Method.mentions ∨ x ∈ s.mentions := by
          intro hx
          obtain ⟨k, hk, hxk⟩ := List.mem_flatMap.mp hx
          rcases List.mem_or_eq_of_mem_set hk with hk | rfl
          · exact Or.inl (List.mem_flatMap.mpr ⟨k, hk, hxk⟩)
          · rcases List.mem_append.mp (MethodStep.mentions_of_apply hn hxk) with hxm | hxs
            · exact Or.inl (List.mem_flatMap.mpr ⟨m, List.mem_of_getElem? hm, hxm⟩)
            · exact Or.inr hxs
        rw [List.mem_append]
        simp only [ClassEntry.mem_mentions, mentions] at hx hmethods ⊢
        grind

end JavaSource
