import JavaSource.Proofs.Renaming.Basic
import JavaSource.Proofs.Rendering.MemberWeave

/-!
# What is written with other handles

A declaration without code writes the same events when it is given other handles, but for the handles in them.
-/

namespace JavaSource

open Event

/-- The event with another handle. -/
def Event.rename (f : ClassId → ClassId) : Event → Event
  | .reference c => .reference (f c)
  | .declared c => .declared (f c)
  | e => e

theorem Event.rename_of_isPlain {f : ClassId → ClassId} {e : Event} (he : e.IsPlain) : e.rename f = e := by
  cases e with
  | reference c => exact absurd rfl (he c).1
  | declared c => exact absurd rfl (he c).2
  | _ => rfl

/-- Whether the handle in an event, if there is one, is among the given. -/
def Event.Within (S : ClassId → Prop) (e : Event) : Prop := ∀ c, e = .reference c ∨ e = .declared c → S c

namespace JavaType

mutual

/-- Whether the classes that are written for a type are among the given, none of them anonymous. -/
def Within (S : ClassId → Prop) : JavaType → Prop
  | .primitive _ | .var _ _ | .wildcard => True
  | .reference c => S c
  | .narrowed c args => S c ∧ WithinEach S args
  | .array t | .wildcardExtends t | .wildcardSuper t => Within S t
  | .anonymous _ => False

def WithinEach (S : ClassId → Prop) : List JavaType → Prop
  | [] => True
  | t :: ts => Within S t ∧ WithinEach S ts

end

theorem withinEach_iff {S : ClassId → Prop} {ts : List JavaType} : WithinEach S ts ↔ ∀ t ∈ ts, t.Within S := by
  induction ts with
  | nil => simp [WithinEach]
  | cons t ts ih => rw [WithinEach, ih, List.forall_mem_cons]

theorem Within.raw {S : ClassId → Prop} {t : JavaType} (h : t.Within S) : t.raw.Within S := by
  cases t with
  | narrowed c args => exact h.1
  | _ => exact h

mutual

theorem Within.of_classes {S P : ClassId → Prop} : ∀ {t : JavaType}, t.Within S → (∀ c ∈ t.classes, P c) →
    t.Within fun c ↦ S c ∧ P c
  | .primitive _, _, _ | .var _ _, _, _ | .wildcard, _, _ => trivial
  | .reference c, ht, hp => ⟨ht, hp c (List.mem_singleton_self c)⟩
  | .narrowed c _, ht, hp =>
      ⟨⟨ht.1, hp c (List.mem_cons_self ..)⟩, ht.2.of_classesEach fun d hd ↦ hp d (List.mem_cons_of_mem _ hd)⟩
  | .array t, ht, hp | .wildcardExtends t, ht, hp | .wildcardSuper t, ht, hp => Within.of_classes (t := t) ht hp

theorem WithinEach.of_classesEach {S P : ClassId → Prop} : ∀ {ts : List JavaType}, WithinEach S ts →
    (∀ c ∈ classesEach ts, P c) → WithinEach (fun c ↦ S c ∧ P c) ts
  | [], _, _ => trivial
  | _ :: _, hts, hp =>
      ⟨hts.1.of_classes fun c hc ↦ hp c (List.mem_append_left _ hc),
        hts.2.of_classesEach fun c hc ↦ hp c (List.mem_append_right _ hc)⟩

end

mutual

theorem classes_rename (f : ClassId → ClassId) : ∀ t : JavaType, (t.rename f).classes = t.classes.map f
  | .primitive _ | .var _ none | .wildcard | .reference _ | .anonymous _ => rfl
  | .narrowed c args => by rw [rename, classes, classes, classesEach_rename f args, List.map_cons]
  | .array t | .wildcardExtends t | .wildcardSuper t => by rw [rename, classes, classes, classes_rename f t]
  | .var _ (some t) => by rw [rename, renameOption, classes, classes, classes_rename f t]

theorem classesEach_rename (f : ClassId → ClassId) : ∀ ts : List JavaType,
    classesEach (renameEach f ts) = (classesEach ts).map f
  | [] => rfl
  | t :: ts => by
      rw [renameEach, classesEach, classesEach, classes_rename f t, classesEach_rename f ts, List.map_append]

end

end JavaType

/-- A mention of classes among the given, none of them anonymous, and of no body. -/
def Mention.Within (S : ClassId → Prop) : Mention → Prop
  | .type t => t.Within S
  | .class c => S c
  | .body _ => False

/-- Whether there is nothing in an entry that is written in Java code. -/
structure ClassEntry.Codeless (e : ClassEntry) : Prop where
  fields : ∀ x ∈ e.fields, x.init = none
  constants : ∀ k ∈ e.constants, k.args = []
  initBlocks : e.initBlocks = []
  methods : ∀ m ∈ e.methods, ∀ b, m.body = some b → b = []

/-- The second events are the first with other handles, all of them for classes among the given. -/
structure Renames (f : ClassId → ClassId) (S : ClassId → Prop) (es es' : List Event) : Prop where
  eq_map : es' = es.map (Event.rename f)
  within : ∀ e ∈ es, e.Within S

variable {f : ClassId → ClassId} {S : ClassId → Prop} {w w' : Walk}

theorem weave_renames (f : ClassId → ClassId) (S : ClassId → Prop) : Weave (Renames f S) where
  plain l hl :=
    { eq_map := ((List.map_congr_left fun e he ↦ Event.rename_of_isPlain (hl e he)).trans l.map_id).symm
      within := fun e he c hc ↦ (hc.elim (hl e he c).1 (hl e he c).2).elim }
  append ha hb :=
    { eq_map := by rw [ha.eq_map, hb.eq_map, List.map_append]
      within := List.forall_mem_append.mpr ⟨ha.within, hb.within⟩ }

theorem composes_renames (f : ClassId → ClassId) (S : ClassId → Prop) :
    ComposesLines (fun _ ↦ True) (Renames f S) :=
  (weave_renames f S).composes

namespace Renames

theorem plain (es : List Event) (h : ∀ e ∈ es, e.IsPlain) : Renames f S es es := (weave_renames f S).plain es h

theorem append {as as' bs bs' : List Event} (ha : Renames f S as as') (hb : Renames f S bs bs') :
    Renames f S (as ++ bs) (as' ++ bs') :=
  (weave_renames f S).append ha hb

theorem cons {e : Event} (he : e.IsPlain) {es es' : List Event} (h : Renames f S es es') :
    Renames f S (e :: es) (e :: es') :=
  (weave_renames f S).cons he h

theorem nil : Renames f S [] [] := (composes_renames f S).nil

theorem reference {c : ClassId} (hc : S c) : Renames f S [.reference c] [.reference (f c)] where
  eq_map := rfl
  within := List.forall_mem_singleton.mpr fun d hd ↦ by
    rcases hd with hd | hd <;> cases hd
    exact hc

theorem declared {c : ClassId} (hc : S c) : Renames f S [.declared c] [.declared (f c)] where
  eq_map := rfl
  within := List.forall_mem_singleton.mpr fun d hd ↦ by
    rcases hd with hd | hd <;> cases hd
    exact hc

theorem forall₂_map {α β : Type} {g : α → β} {p : α → List Event} {q : β → List Event} {l : List α}
    (h : ∀ a ∈ l, Renames f S (p a) (q (g a))) : List.Forall₂ (Renames f S) (l.map p) ((l.map g).map q) := by
  rw [List.map_map]
  exact Composes.forall₂_map h

theorem flatMap {α β : Type} {g : α → β} {p : α → List Event} {q : β → List Event} {l : List α}
    (h : ∀ a ∈ l, Renames f S (p a) (q (g a))) : Renames f S (l.flatMap p) ((l.map g).flatMap q) := by
  rw [List.flatMap_map]
  exact (composes_renames f S).flatMap h

/-! ## Types -/

mutual

theorem type {base base' : ClassId → List Event} : ∀ t : JavaType, t.Within S →
    Renames f S (t.events base) ((t.rename f).events base')
  | .primitive _, _ | .wildcard, _ | .var _ _, _ => plain _ (by simp [JavaType.events])
  | .reference c, h => reference h
  | .narrowed c args, ⟨hc, hargs⟩ => append (reference hc) ((composes_renames f S).typeArgs (typeEach args hargs))
  | .array t, h => by
      have ih := @type base base' t
      cases t
      case narrowed c args => exact append (reference h.1) (plain _ (by simp))
      all_goals exact append (ih h) (plain _ (by simp))
  | .wildcardExtends t, h | .wildcardSuper t, h => cons (by simp) (type t h)

theorem typeEach {base base' : ClassId → List Event} : ∀ ts : List JavaType, JavaType.WithinEach S ts →
    List.Forall₂ (Renames f S) (JavaType.eventsEach base ts) (JavaType.eventsEach base' (JavaType.renameEach f ts))
  | [], _ => .nil
  | t :: ts, h => .cons (type t h.1) (typeEach ts h.2)

end

end Renames

/-- Two walks write a type alike, whatever the handles. -/
def Walk.Renames (f : ClassId → ClassId) (S : ClassId → Prop) (w w' : Walk) : Prop :=
  ∀ t : JavaType, t.Within S → JavaSource.Renames f S (w.type t) (w'.type (t.rename f))

namespace Renames

/-! ## Annotations -/

mutual

theorem value (hw : w.Renames f S w') : ∀ v : AnnotationValue, (∀ x ∈ v.mentions, x.Within S) →
    Renames f S (v.events w) ((v.rename f).events w')
  | .bool _, _ | .int _, _ | .long _, _ | .char _, _ | .string _, _ =>
      plain _ (by simp [AnnotationValue.events, Expr.events])
  | .float x, _ =>
      (composes_renames f S).exprEvents (.ofFloat x) (by simp [Related, Expr.mentions_ofFloat]) fun _ _ ↦ trivial
  | .double x, _ =>
      (composes_renames f S).exprEvents (.ofDouble x) (by simp [Related, Expr.mentions_ofDouble]) fun _ _ ↦ trivial
  | .classLiteral t, h =>
      append (hw t (h (.type t) (List.mem_singleton_self _))) (plain _ (by simp))
  | .enumConstant c _, h =>
      append (.reference (h _ (List.mem_singleton_self _)))
        (plain [.text ".", .text _] (by simp))
  | .nested c members, h => by
      obtain ⟨hc, hmembers⟩ := List.forall_mem_cons.mp h
      exact (composes_renames f S).ofUse (.reference hc) (memberValues hw members hmembers) fun _ _ ↦ trivial
  | .array items, h =>
      append (cons (by simp)
        ((composes_renames f S).commas (valueEach hw items h))) (plain _ (by simp))

theorem memberValues (hw : w.Renames f S w') : ∀ members : List (String × AnnotationValue),
    (∀ x ∈ AnnotationValue.mentionsMembers members, x.Within S) →
      RelatedMembers (Renames f S) (AnnotationValue.eventsMembers w members)
        (AnnotationValue.eventsMembers w' (AnnotationValue.renameMembers f members))
  | [], _ => .nil
  | (_, v) :: rest, h => by
      obtain ⟨hv, hrest⟩ := List.forall_mem_append.mp h
      exact .cons ⟨rfl, value hw v hv⟩ (memberValues hw rest hrest)

theorem valueEach (hw : w.Renames f S w') : ∀ vs : List AnnotationValue,
    (∀ x ∈ AnnotationValue.mentionsEach vs, x.Within S) →
      List.Forall₂ (Renames f S) (AnnotationValue.eventsEach w vs)
        (AnnotationValue.eventsEach w' (AnnotationValue.renameEach f vs))
  | [], _ => .nil
  | v :: vs, h => by
      obtain ⟨hv, hvs⟩ := List.forall_mem_append.mp h
      exact .cons (value hw v hv) (valueEach hw vs hvs)

end

theorem use (hw : w.Renames f S w') {u : AnnotationUse} (h : ∀ x ∈ u.mentions, x.Within S) :
    Renames f S (u.events w) ((u.rename f).events w') := by
  obtain ⟨hc, hmembers⟩ := List.forall_mem_cons.mp h
  have hvalues := memberValues hw _ hmembers
  rw [AnnotationValue.renameMembers_eq_map] at hvalues
  exact (composes_renames f S).ofUse (.reference hc) hvalues fun _ _ ↦ trivial

theorem annotationLines (hw : w.Renames f S w') {us : List AnnotationUse}
    (h : ∀ x ∈ us.flatMap AnnotationUse.mentions, x.Within S) :
    Renames f S (w.annotationLines us) (w'.annotationLines (us.map (AnnotationUse.rename f))) :=
  flatMap fun u hu ↦ append (use hw fun x hx ↦ h x (List.mem_flatMap.mpr ⟨u, hu, hx⟩)) (plain _ (by simp))

theorem annotations (hw : w.Renames f S w') {us : List AnnotationUse}
    (h : ∀ x ∈ us.flatMap AnnotationUse.mentions, x.Within S) :
    Renames f S (w.annotations us) (w'.annotations (us.map (AnnotationUse.rename f))) :=
  flatMap fun u hu ↦ use hw fun x hx ↦ h x (List.mem_flatMap.mpr ⟨u, hu, hx⟩)

/-! ## Members -/

theorem types (hw : w.Renames f S w') {ts : List JavaType} (h : ∀ t ∈ ts, t.Within S) :
    Renames f S (w.types ts) (w'.types (ts.map (JavaType.rename f))) :=
  (composes_renames f S).commas (forall₂_map fun t ht ↦ hw t (h t ht))

theorem typeParams (hw : w.Renames f S w') {vs : List TypeVar}
    (h : ∀ x ∈ vs.flatMap TypeVar.mentions, x.Within S) :
    Renames f S (w.typeParams vs) (w'.typeParams (vs.map (TypeVar.rename f))) := by
  unfold Walk.typeParams
  simp only [List.map_eq_nil_iff]
  split
  · exact nil
  · refine (composes_renames f S).typeArgs (forall₂_map fun v hv ↦ cons (by simp) ?_)
    cases hbound : v.bound with
    | none => simpa [TypeVar.rename, hbound] using nil
    | some t =>
        have ht := h (.type t) (List.mem_flatMap.mpr ⟨v, hv, by simp [TypeVar.mentions, hbound]⟩)
        simpa [TypeVar.rename, hbound] using cons (by simp) (hw t ht)

theorem field (hw : w.Renames f S w') {x : Field} (hinit : x.init = none) (h : ∀ y ∈ x.mentions, y.Within S) :
    Renames f S (x.events w) ((x.rename f).events w') := by
  obtain ⟨hannotations, hrest⟩ := List.forall_mem_append.mp h
  refine append (append (append (append (append ?_ ?_) ?_) ?_) (cons (by simp) ?_)) (plain _ (by simp))
  · exact (composes_renames f S).ofJavadoc fun _ _ ↦ trivial
  · exact annotationLines hw hannotations
  · exact (composes_renames f S).ofModifiers _
  · exact hw _ (hrest (.type x.type) (List.mem_cons_self ..))
  · simpa [Field.rename, hinit] using nil

theorem param (hw : w.Renames f S w') {p : Param} (h : ∀ y ∈ p.mentions, y.Within S) :
    Renames f S (p.events w) ((p.rename f).events w') ∧
      Renames f S (p.varargsEvents w) ((p.rename f).varargsEvents w') := by
  obtain ⟨hannotations, htype⟩ := List.forall_mem_append.mp h
  have hhead := append (append (annotations hw hannotations) ((composes_renames f S).ofModifiers p.mods))
    (hw _ (htype (.type p.type) (List.mem_singleton_self _)))
  exact ⟨append hhead (plain _ (by simp)), append hhead (plain _ (by simp))⟩

theorem method (hw : w.Renames f S w') {m : Method} (hbody : ∀ b, m.body = some b → b = [])
    (h : ∀ y ∈ m.mentions, y.Within S) : Renames f S (m.events w) ((m.rename f).events w') := by
  simp only [Method.mentions, List.forall_mem_append] at h
  obtain ⟨⟨⟨⟨⟨⟨hannotations, htypeParams⟩, hreturn⟩, hparams⟩, hthrows⟩, hdefault⟩, -⟩ := h
  have hparam : ∀ p ∈ m.allParams, ∀ y ∈ p.mentions, y.Within S := fun p hp y hy ↦
    hparams y (List.mem_flatMap.mpr ⟨p, hp, hy⟩)
  refine append (append (append (append (append (append (append (append (append ?_ ?_) ?_) ?_) ?_) ?_) ?_) ?_) ?_)
    (plain _ (by simp))
  · exact (composes_renames f S).ofJavadoc fun _ _ ↦ trivial
  · exact annotationLines hw hannotations
  · exact (composes_renames f S).ofModifiers _
  · unfold Method.typeParamEvents Method.rename
    simp only [List.map_eq_nil_iff]
    split
    · exact nil
    · refine append (plain _ ?_) (typeParams hw htypeParams)
      split <;> simp
  · unfold Method.nameEvents Method.rename
    cases hm : m.returnType with
    | none => exact plain _ (by simp)
    | some t => exact append (hw t (hreturn (.type t) (by simp [hm]))) (plain _ (by simp))
  · refine (composes_renames f S).parens ((composes_renames f S).commas (List.rel_append ?_ ?_))
    · exact forall₂_map fun p hp ↦ (param hw (hparam p (List.mem_append_left _ hp))).1
    · have hlist : (m.rename f).varargs.toList = m.varargs.toList.map (Param.rename f) := by
        rw [Method.rename]
        cases m.varargs <;> rfl
      rw [hlist]
      exact forall₂_map fun p hp ↦ (param hw (hparam p (List.mem_append_right _ hp))).2
  · simp only [Method.rename, List.map_eq_nil_iff]
    split
    · exact nil
    · exact cons (by simp) (types hw fun t ht ↦ hthrows (.type t) (List.mem_map_of_mem ht))
  · cases hm : m.defaultValue with
    | none => simpa [Method.rename, hm] using nil
    | some v =>
        have hv := value hw v fun y hy ↦ hdefault y (by simpa [hm] using hy)
        simpa [Method.rename, hm] using cons (by simp) hv
  · simp only [Method.rename]
    cases hm : m.body with
    | none => exact plain _ (by simp)
    | some b =>
        rw [hbody b hm]
        exact plain _ (by simp [Stmt.eventsBlock, Event.braces])

theorem constants {ks : List EnumConstant} (h : ∀ k ∈ ks, k.args = []) :
    Renames f S (EnumConstant.eventsAll w ks) (EnumConstant.eventsAll w' ks) := by
  refine (composes_renames f S).constantsEvents (fun x hx ↦ ?_) fun _ _ ↦ trivial
  obtain ⟨k, hk, hx⟩ := List.mem_flatMap.mp hx
  rw [h k hk] at hx
  cases hx

/-! ## Classes -/

theorem header (hf : Function.Injective f) (hobject : f Model.object = Model.object) (hw : w.Renames f S w')
    {e e' : ClassEntry} (he : e.Copies f e') (hid : e'.id = f e.id) (hmem : S e.id)
    (h : ∀ y ∈ e.headerMentions, y.Within S) : Renames f S (e.headerEvents w) (e'.headerEvents w') := by
  simp only [ClassEntry.headerMentions, List.forall_mem_append] at h
  obtain ⟨⟨⟨hannotations, htypeParams⟩, hsuper⟩, hinterfaces⟩ := h
  have htypes : ∀ t ∈ e.interfaces.map (·.toType), t.Within S := by
    intro t ht
    obtain ⟨i, hi, rfl⟩ := List.mem_map.mp ht
    exact hinterfaces (.type i.toType) (List.mem_flatMap.mpr ⟨i, hi, List.mem_singleton_self _⟩)
  have hlist := types hw htypes
  have hmaps : (e.interfaces.map (·.toType)).map (JavaType.rename f) =
      (e.interfaces.map (ClassType.rename f)).map (·.toType) := by
    simp [Function.comp_def]
  rw [hmaps] at hlist
  rw [he]
  refine append (append (append (append ?_ ?_) ?_) (cons (by simp) ?_)) ?_
  · exact (composes_renames f S).ofJavadoc fun _ _ ↦ trivial
  · exact annotationLines hw hannotations
  · exact (composes_renames f S).ofModifiers _
  · simp only [hid]
    exact declared hmem
  · refine append (typeParams hw htypeParams) ?_
    simp only [ClassEntry.rename, List.map_eq_nil_iff]
    split
    · split
      · exact nil
      · exact cons (by simp) hlist
    · refine append ?_ ?_
      · cases hs : e.superclass with
        | none => simpa using nil
        | some base =>
            have hroot : base.rename f = ⟨Model.object, none⟩ ↔ base = ⟨Model.object, none⟩ := by
              rw [← (ClassType.rename_injective hf).eq_iff (a := base)]
              simp [ClassType.rename, hobject]
            simp only [Option.map_some, hroot]
            split
            · exact nil
            · have hbase := hw base.toType (hsuper (.type base.toType) (by simp [hs, ClassType.mentions]))
              rw [← ClassType.toType_rename] at hbase
              exact cons (by simp) hbase
      · split
        · exact nil
        · exact cons (by simp) hlist

theorem body (hw : w.Renames f S w') {e e' : ClassEntry} (he : e.Copies f e') (hcode : e.Codeless)
    (h : ∀ y ∈ e.bodyMentions, y.Within S) {nested nested' : List (List Event)}
    (hempty : e'.nested.isEmpty = e.nested.isEmpty) (hnested : List.Forall₂ (Renames f S) nested nested') :
    Renames f S (e.bodyEvents w nested) (e'.bodyEvents w' nested') := by
  simp only [ClassEntry.bodyMentions, List.forall_mem_append] at h
  obtain ⟨⟨⟨-, hfields⟩, -⟩, hmethods⟩ := h
  have hmethod : ∀ m ∈ e.methods, Renames f S (m.events w) ((m.rename f).events w') := fun m hm ↦
    method hw (hcode.methods m hm) fun y hy ↦ hmethods y (List.mem_flatMap.mpr ⟨m, hm, hy⟩)
  have hfield : ∀ x ∈ e.fields, Renames f S (x.events w) ((x.rename f).events w') := fun x hx ↦
    field hw (hcode.fields x hx) fun y hy ↦ hfields y (List.mem_flatMap.mpr ⟨x, hx, hy⟩)
  have hconstructor : ∀ m : Method, (m.rename f).isConstructor = m.isConstructor := fun m ↦ by
    simp [Method.isConstructor, Method.rename]
  have hmembers : e'.hasMembers = e.hasMembers := by
    unfold ClassEntry.hasMembers
    rw [hempty, he]
    simp [ClassEntry.rename]
  have hconstants : e'.constants = e.constants := by rw [he]; rfl
  have hkind : e'.kind = e.kind := by rw [he]; rfl
  have hconstructors : e'.constructors = e.constructors.map (Method.rename f) := by
    rw [he]
    simp [ClassEntry.constructors, ClassEntry.rename, List.filter_map, Function.comp_def, hconstructor]
  have hordinary : e'.ordinaryMethods = e.ordinaryMethods.map (Method.rename f) := by
    rw [he]
    simp [ClassEntry.ordinaryMethods, ClassEntry.rename, List.filter_map, Function.comp_def, hconstructor]
  have hfields' : e'.fields = e.fields.map (Field.rename f) := by rw [he]; rfl
  have hblocks : e'.initBlocks = e.initBlocks := by rw [he]; rfl
  unfold ClassEntry.bodyEvents ClassEntry.memberGroups
  rw [hmembers, hconstants, hkind, hconstructors, hordinary, hfields', hblocks, hcode.initBlocks]
  refine (composes_renames f S).braces (append (plain _ ?_) ((composes_renames f S).blankLines ?_))
  · split <;> simp
  · refine List.rel_append (List.rel_append (List.rel_append (List.rel_append (List.rel_append ?_ ?_) .nil)
      ?_) ?_) hnested
    · split
      · exact .nil
      · exact .cons (constants hcode.constants) .nil
    · rw [List.isEmpty_map]
      split
      · exact .nil
      · exact .cons (flatMap hfield) .nil
    · exact forall₂_map fun m hm ↦ hmethod m (List.mem_filter.mp hm).1
    · exact forall₂_map fun m hm ↦ hmethod m (List.mem_filter.mp hm).1

end Renames
end JavaSource
