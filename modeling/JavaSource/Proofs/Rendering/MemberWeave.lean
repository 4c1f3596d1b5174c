import JavaSource.Proofs.Rendering.Weave

/-!
# Two walks through the members of a class

What holds for expressions and statements carries over to annotations, to the members of a class and to the
class itself.
-/

namespace JavaSource

open Event

theorem Expr.mentions_ofFloat (x : Ieee.Datum Ieee.single) : (ofFloat x).mentions = [] := by
  unfold ofFloat nonFinite?
  split
  · rfl
  · split <;> rfl

theorem Expr.mentions_ofDouble (x : Ieee.Datum Ieee.double) : (ofDouble x).mentions = [] := by
  unfold ofDouble nonFinite?
  split
  · rfl
  · split <;> rfl

theorem Expr.bare_of_nonFinite? {f : Ieee.Format} {wrapper : String} {x : Ieee.Datum f} {e : Expr}
    (hnan : Bare s!"java.lang.{wrapper}.NaN")
    (hinfinity : ∀ sign ∈ ["NEGATIVE", "POSITIVE"], Bare s!"java.lang.{wrapper}.{sign}_INFINITY")
    (he : nonFinite? wrapper x = some e) : ∀ s ∈ e.texts, Bare s := by
  unfold nonFinite? at he
  split at he
  · cases he
    exact List.forall_mem_singleton.mpr hnan
  · split at he
    · cases he
      refine List.forall_mem_singleton.mpr (hinfinity _ ?_)
      split <;> simp
    · cases he

theorem Expr.bare_ofFloat (x : Ieee.Datum Ieee.single) : ∀ s ∈ (ofFloat x).texts, Bare s := by
  unfold ofFloat
  cases h : nonFinite? "Float" x with
  | none => exact List.forall_mem_nil _
  | some e => exact bare_of_nonFinite? (by decide +kernel) (by decide +kernel) h

theorem Expr.bare_ofDouble (x : Ieee.Datum Ieee.double) : ∀ s ∈ (ofDouble x).texts, Bare s := by
  unfold ofDouble
  cases h : nonFinite? "Double" x with
  | none => exact List.forall_mem_nil _
  | some e => exact bare_of_nonFinite? (by decide +kernel) (by decide +kernel) h

theorem ClassKind.bare_keyword (k : ClassKind) : Bare k.keyword := by
  cases k <;> decide +kernel

/-- All of a header up to the name of the class. -/
def ClassEntry.openingEvents (w : Walk) (e : ClassEntry) : List Event :=
  ofJavadoc e.javadoc ++ w.annotationLines e.annotations ++ ofModifiers e.mods ++ [.text e.kind.keyword]

theorem ClassEntry.headerEvents_eq (w : Walk) (e : ClassEntry) :
    e.headerEvents w = e.openingEvents w ++ ([.declared e.id] ++ e.heritageEvents w) := by
  simp [headerEvents, openingEvents]

/-- All of a body between the braces. -/
def ClassEntry.memberEvents (w : Walk) (e : ClassEntry) (nested : List (List Event)) : List Event :=
  (if e.kind = .enum ∧ e.constants.isEmpty ∧ e.hasMembers then [.text ";", .newline] else []) ++
    blankLines (e.memberGroups w nested)

theorem ClassEntry.bodyEvents_eq (w : Walk) (e : ClassEntry) (nested : List (List Event)) :
    e.bodyEvents w nested = braces (e.memberEvents w nested) := rfl

/-- Members of an annotation under the same names, with related values. -/
abbrev RelatedMembers (R : List Event → List Event → Prop) :
    List (String × List Event) → List (String × List Event) → Prop :=
  List.Forall₂ fun a b ↦ a.1 = b.1 ∧ R a.2 b.2

variable {ok : String → Prop} {R : List Event → List Event → Prop} {w w' : Walk}

namespace Composes

/-! ## Annotations -/

theorem ofUse (hR : Composes ok R) {c d : ClassId} {as bs : List (String × List Event)}
    (hc : R [.reference c] [.reference d]) (h : RelatedMembers R as bs) (hs : ∀ a ∈ as, ok a.1) :
    R (Event.ofUse c as) (Event.ofUse d bs) := by
  have hassign : ∀ {a b : String × List Event}, ok a.1 → a.1 = b.1 → R a.2 b.2 →
      R (.text a.1 :: .text " = " :: a.2) (.text b.1 :: .text " = " :: b.2) := by
    rintro ⟨name, a⟩ ⟨_, b⟩ hname rfl hab
    exact hR.given hname (hR.cons (by decide +kernel) hab)
  refine hR.cons (by decide +kernel) (hR.append hc ?_)
  cases h with
  | nil => exact hR.nil
  | @cons a b as bs hab hrest =>
      obtain ⟨hname, hvalue⟩ := hab
      obtain ⟨hsa, hsas⟩ := List.forall_mem_cons.mp hs
      cases hrest with
      | nil =>
          obtain ⟨name, a⟩ := a
          obtain ⟨_, b⟩ := b
          cases hname
          simp only
          split
          · exact hR.parens hvalue
          · exact hR.parens (hassign (a := (name, a)) (b := (name, b)) hsa rfl hvalue)
      | cons hnext hrest =>
          obtain ⟨hsnext, hsrest⟩ := List.forall_mem_cons.mp hsas
          refine hR.parens (hR.commas (.cons (hassign hsa hname hvalue) (.cons ?_ ?_)))
          · exact hassign hsnext hnext.1 hnext.2
          · have hrest := (List.forall₂_and_left _ _).mpr ⟨hsrest, hrest⟩
            exact List.forall₂_map_left_iff.mpr (List.forall₂_map_right_iff.mpr
              (hrest.imp fun _ _ hab ↦ hassign hab.1 hab.2.1 hab.2.2))

theorem memberNames (w : Walk) : ∀ members : List (String × AnnotationValue),
    (∀ s ∈ AnnotationValue.textsMembers members, ok s) →
      ∀ a ∈ AnnotationValue.eventsMembers w members, ok a.1
  | [], _ => List.forall_mem_nil _
  | (_, _) :: rest, hs => by
      obtain ⟨hname, hs⟩ := List.forall_mem_cons.mp hs
      exact List.forall_mem_cons.mpr ⟨hname, memberNames w rest (List.forall_mem_append.mp hs).2⟩

mutual

theorem valueEvents (hR : Composes ok R) : ∀ v : AnnotationValue, Related R w w' v.mentions →
    (∀ s ∈ v.texts, ok s) → R (v.events w) (v.events w')
  | .bool b, _, _ => hR.word (by cases b <;> decide +kernel)
  | .int n, _, _ => hR.word (bare_intText n.toInt)
  | .long n, _, _ => hR.word (bare_append.mpr ⟨bare_intText n.toInt, by decide +kernel⟩)
  | .float x, _, _ =>
      hR.exprEvents (.ofFloat x) (by simp [Related, Expr.mentions_ofFloat]) fun s hs ↦
        hR.bare s (Expr.bare_ofFloat x s hs)
  | .double x, _, _ =>
      hR.exprEvents (.ofDouble x) (by simp [Related, Expr.mentions_ofDouble]) fun s hs ↦
        hR.bare s (Expr.bare_ofDouble x s hs)
  | .char _, _, _ => hR.quoted _ (Or.inr rfl) _
  | .string _, _, _ => hR.quoted _ (Or.inl rfl) _
  | .classLiteral t, h, _ => hR.append (h (.type t) (List.mem_singleton_self _)) (hR.word (by decide +kernel))
  | .enumConstant c constant, h, hs =>
      hR.append (h (.class c) (List.mem_singleton_self _))
        (hR.cons (by decide +kernel) (hR.text constant (hs constant (List.mem_singleton_self constant))))
  | .nested c members, h, hs => by
      obtain ⟨hc, hmembers⟩ := related_cons.mp h
      exact hR.ofUse hc (memberValues hR members hmembers hs) (memberNames w members hs)
  | .array items, h, hs =>
      hR.enclose .curly (by decide +kernel) (hR.commas (valueEventsEach hR items h hs))

theorem memberValues (hR : Composes ok R) : ∀ members : List (String × AnnotationValue),
    Related R w w' (AnnotationValue.mentionsMembers members) →
      (∀ s ∈ AnnotationValue.textsMembers members, ok s) →
        RelatedMembers R (AnnotationValue.eventsMembers w members) (AnnotationValue.eventsMembers w' members)
  | [], _, _ => .nil
  | (_, v) :: rest, h, hs => by
      obtain ⟨hv, hrest⟩ := related_append.mp h
      obtain ⟨hsv, hsrest⟩ := List.forall_mem_append.mp (List.forall_mem_cons.mp hs).2
      exact .cons ⟨rfl, valueEvents hR v hv hsv⟩ (memberValues hR rest hrest hsrest)

theorem valueEventsEach (hR : Composes ok R) : ∀ vs : List AnnotationValue,
    Related R w w' (AnnotationValue.mentionsEach vs) → (∀ s ∈ AnnotationValue.textsEach vs, ok s) →
      List.Forall₂ R (AnnotationValue.eventsEach w vs) (AnnotationValue.eventsEach w' vs)
  | [], _, _ => .nil
  | v :: vs, h, hs => by
      obtain ⟨hv, hvs⟩ := related_append.mp h
      obtain ⟨hsv, hsvs⟩ := List.forall_mem_append.mp hs
      exact .cons (valueEvents hR v hv hsv) (valueEventsEach hR vs hvs hsvs)

end

theorem useEvents (hR : Composes ok R) {u : AnnotationUse} (h : Related R w w' u.mentions)
    (hs : ∀ s ∈ u.texts, ok s) : R (u.events w) (u.events w') := by
  obtain ⟨hc, hmembers⟩ := related_cons.mp h
  exact hR.ofUse hc (memberValues hR _ hmembers hs) (memberNames w _ hs)

theorem annotationLines (hR : Composes ok R) {us : List AnnotationUse}
    (h : Related R w w' (us.flatMap AnnotationUse.mentions))
    (hs : ∀ s ∈ us.flatMap AnnotationUse.texts, ok s) :
    R (w.annotationLines us) (w'.annotationLines us) :=
  hR.flatMap fun _ hu ↦ hR.append (useEvents hR (h.of_mem hu) (ok_of_mem hs hu)) hR.newline

theorem annotations (hR : Composes ok R) {us : List AnnotationUse}
    (h : Related R w w' (us.flatMap AnnotationUse.mentions))
    (hs : ∀ s ∈ us.flatMap AnnotationUse.texts, ok s) :
    R (w.annotations us) (w'.annotations us) :=
  hR.flatMap fun _ hu ↦ useEvents hR (h.of_mem hu) (ok_of_mem hs hu)

/-! ## Members -/

theorem typeParams (hR : Composes ok R) {vs : List TypeVar}
    (h : Related R w w' (vs.flatMap TypeVar.mentions)) (hs : ∀ s ∈ vs.flatMap TypeVar.texts, ok s) :
    R (w.typeParams vs) (w'.typeParams vs) := by
  unfold Walk.typeParams
  split
  · exact hR.nil
  · refine hR.typeArgs (forall₂_map fun v hv ↦ hR.named (ok_of_mem hs hv _ (List.mem_singleton_self _)) ?_)
    cases hbound : v.bound with
    | none => exact hR.nil
    | some t =>
        refine hR.cons (by decide +kernel) (h (.type t) (List.mem_flatMap.mpr ⟨v, hv, ?_⟩))
        simp [TypeVar.mentions, hbound]

theorem constantEvents (hR : Composes ok R) {k : EnumConstant}
    (h : Related R w w' (Expr.mentionsEach k.args)) (hs : ∀ s ∈ k.texts, ok s) :
    R (k.events w) (k.events w') := by
  obtain ⟨hjavadoc, hs⟩ := List.forall_mem_append.mp hs
  obtain ⟨hname, hargs⟩ := List.forall_mem_cons.mp hs
  refine hR.append (hR.ofJavadoc hjavadoc) (hR.named hname ?_)
  split
  · exact hR.nil
  · exact hR.parens (hR.commas (exprEventsEach hR _ h hargs))

theorem constantsEvents (hR : Composes ok R) {ks : List EnumConstant}
    (h : Related R w w' (ks.flatMap fun k ↦ Expr.mentionsEach k.args))
    (hs : ∀ s ∈ ks.flatMap EnumConstant.texts, ok s) :
    R (EnumConstant.eventsAll w ks) (EnumConstant.eventsAll w' ks) := by
  induction ks with
  | nil => exact hR.nil
  | cons k ks ih =>
      obtain ⟨hk, hks⟩ := related_append.mp h
      obtain ⟨hsk, hsks⟩ := List.forall_mem_append.mp hs
      have hconstant := constantEvents hR hk hsk
      cases ks with
      | nil => exact hR.append hconstant (hR.own (by decide +kernel))
      | cons k' ks => exact hR.append hconstant (hR.cons (by decide +kernel) (hR.cons trivial (ih hks hsks)))

theorem fieldEvents (hR : Composes ok R) {f : Field} (h : Related R w w' f.mentions)
    (hs : ∀ s ∈ f.texts, ok s) : R (f.events w) (f.events w') := by
  obtain ⟨hannotations, hrest⟩ := related_append.mp h
  obtain ⟨htype, hinit⟩ := related_cons.mp hrest
  simp only [Field.texts, List.forall_mem_append, List.forall_mem_cons] at hs
  obtain ⟨⟨hjavadoc, hsannotations⟩, hname, hsinit⟩ := hs
  refine hR.append (hR.append (hR.append (hR.append (hR.append ?_ ?_) ?_) htype)
    (hR.named hname ?_)) (hR.own (by decide +kernel))
  · exact hR.ofJavadoc hjavadoc
  · exact annotationLines hR hannotations hsannotations
  · exact hR.ofModifiers _
  · cases hf : f.init with
    | none => exact hR.nil
    | some e =>
        have he := exprEvents hR e (hinit.of_mem (by simp [hf])) (ok_of_mem hsinit (by simp [hf]))
        exact hR.cons (by decide +kernel) he

theorem paramEvents (hR : Composes ok R) {p : Param} (h : Related R w w' p.mentions)
    (hs : ∀ s ∈ p.texts, ok s) :
    R (p.events w) (p.events w') ∧ R (p.varargsEvents w) (p.varargsEvents w') := by
  obtain ⟨hannotations, htype⟩ := related_append.mp h
  obtain ⟨hsannotations, hname⟩ := List.forall_mem_append.mp hs
  have hname := hR.identifier p.name (hname p.name (List.mem_singleton_self _))
  have hhead := hR.append (hR.append (annotations hR hannotations hsannotations) (hR.ofModifiers p.mods))
    (related_cons.mp htype).1
  exact ⟨hR.append hhead hname, hR.append hhead (hR.cons (by decide +kernel) hname)⟩

/-! ## Headers of classes -/

theorem heritageEvents (hR : Composes ok R) {e : ClassEntry} (h : Related R w w' e.headerMentions)
    (hs : ∀ s ∈ e.headerTexts, ok s) : R (e.heritageEvents w) (e.heritageEvents w') := by
  simp only [ClassEntry.headerMentions, related_append] at h
  obtain ⟨⟨⟨-, htypeParams⟩, hsuper⟩, hinterfaces⟩ := h
  obtain ⟨-, hstypeParams⟩ := List.forall_mem_append.mp hs
  have htypes : ∀ t ∈ e.interfaces.map (·.toType), R (w.type t) (w'.type t) := by
    intro t ht
    obtain ⟨i, hi, rfl⟩ := List.mem_map.mp ht
    exact (hinterfaces.of_mem hi) (.type i.toType) (List.mem_singleton_self _)
  have hlist : R (w.types (e.interfaces.map (·.toType))) (w'.types (e.interfaces.map (·.toType))) :=
    hR.commas (forall₂_map htypes)
  refine hR.append (typeParams hR htypeParams hstypeParams) ?_
  split
  · split
    · exact hR.nil
    · exact hR.cons (by decide +kernel) hlist
  · refine hR.append ?_ ?_
    · cases he : e.superclass with
      | none => exact hR.nil
      | some base =>
          simp only
          split
          · exact hR.nil
          · have hbase : Related R w w' base.mentions := hsuper.of_mem (by simp [he])
            exact hR.cons (by decide +kernel) (hbase (.type base.toType) (List.mem_singleton_self _))
    · split
      · exact hR.nil
      · exact hR.cons (by decide +kernel) hlist

theorem openingEvents (hR : Composes ok R) {e : ClassEntry} (h : Related R w w' e.headerMentions)
    (hs : ∀ s ∈ e.headerTexts, ok s) : R (e.openingEvents w) (e.openingEvents w') := by
  simp only [ClassEntry.headerMentions, related_append] at h
  obtain ⟨⟨⟨hannotations, -⟩, -⟩, -⟩ := h
  obtain ⟨hs, -⟩ := List.forall_mem_append.mp hs
  obtain ⟨hjavadoc, hsannotations⟩ := List.forall_mem_append.mp hs
  refine hR.append (hR.append (hR.append ?_ ?_) (hR.ofModifiers _)) (hR.word e.kind.bare_keyword)
  · exact hR.ofJavadoc hjavadoc
  · exact annotationLines hR hannotations hsannotations

theorem headerEvents (hR : Composes ok R) {e : ClassEntry} (hid : R [.declared e.id] [.declared e.id])
    (h : Related R w w' e.headerMentions) (hs : ∀ s ∈ e.headerTexts, ok s) :
    R (e.headerEvents w) (e.headerEvents w') := by
  rw [ClassEntry.headerEvents_eq, ClassEntry.headerEvents_eq]
  exact hR.append (hR.openingEvents h hs) (hR.append hid (hR.heritageEvents h hs))

end Composes

namespace ComposesLines

theorem initBlockEvents (hR : ComposesLines ok R) {b : InitBlock}
    (h : Related R w w' (Stmt.mentionsEach b.body)) (hs : ∀ s ∈ Stmt.textsEach b.body, ok s) :
    R (b.events w) (b.events w') := by
  refine hR.append (hR.append (hR.own ?_) (hR.blockEvents b.body h hs)) hR.newline
  split <;> decide +kernel

theorem methodEvents (hR : ComposesLines ok R) {m : Method} (h : Related R w w' m.mentions)
    (hs : ∀ s ∈ m.texts, ok s) : R (m.events w) (m.events w') := by
  simp only [Method.mentions, related_append] at h
  obtain ⟨⟨⟨⟨⟨⟨hannotations, htypeParams⟩, hreturn⟩, hparams⟩, hthrows⟩, hdefault⟩, hbody⟩ := h
  simp only [Method.texts, List.forall_mem_append] at hs
  obtain ⟨⟨⟨⟨⟨⟨hjavadoc, hsannotations⟩, hstypeParams⟩, hname⟩, hsparams⟩, hsdefault⟩, hsbody⟩ := hs
  have hname := hname m.name (List.mem_singleton_self _)
  refine hR.append (hR.append (hR.append (hR.append (hR.append (hR.append (hR.append (hR.append
    (hR.append ?_ ?_) ?_) ?_) ?_) ?_) ?_) ?_) ?_) hR.newline
  · exact hR.ofJavadoc hjavadoc
  · exact hR.annotationLines hannotations hsannotations
  · exact hR.ofModifiers _
  · unfold Method.typeParamEvents
    split
    · exact hR.nil
    · refine hR.append (hR.own ?_) (hR.typeParams htypeParams hstypeParams)
      split <;> decide +kernel
  · unfold Method.nameEvents
    cases hm : m.returnType with
    | none => exact hR.text _ hname
    | some t => exact hR.append (hreturn.types t (by simp [hm])) (hR.identifier _ hname)
  · refine hR.parens (hR.commas (List.rel_append (Composes.forall₂_map fun p hp ↦ ?_) (Composes.forall₂_map fun p hp ↦ ?_)))
    · have hp := List.mem_append_left m.varargs.toList hp
      exact (hR.paramEvents (hparams.of_mem hp) (ok_of_mem hsparams hp)).1
    · have hp := List.mem_append_right m.params hp
      exact (hR.paramEvents (hparams.of_mem hp) (ok_of_mem hsparams hp)).2
  · split
    · exact hR.nil
    · exact hR.cons (by decide +kernel) (hR.commas (Composes.forall₂_map hthrows.types))
  · cases hm : m.defaultValue with
    | none => exact hR.nil
    | some v =>
        have hv := hR.valueEvents v (hdefault.of_mem (by simp [hm])) (ok_of_mem hsdefault (by simp [hm]))
        exact hR.cons (by decide +kernel) hv
  · cases hm : m.body with
    | none => exact hR.word (by decide +kernel)
    | some b => exact hR.blockEvents b (hbody.of_mem (by simp [hm])) (ok_of_mem hsbody (by simp [hm]))

/-! ## Bodies of classes -/

theorem memberEvents (hR : ComposesLines ok R) {e : ClassEntry} {nested nested' : List (List Event)}
    (h : Related R w w' e.bodyMentions) (hs : ∀ s ∈ e.bodyTexts, ok s)
    (hnested : List.Forall₂ R nested nested') : R (e.memberEvents w nested) (e.memberEvents w' nested') := by
  simp only [ClassEntry.bodyMentions, related_append] at h
  obtain ⟨⟨⟨hconstants, hfields⟩, hblocks⟩, hmethods⟩ := h
  simp only [ClassEntry.bodyTexts, List.forall_mem_append] at hs
  obtain ⟨⟨⟨hsconstants, hsfields⟩, hsblocks⟩, hsmethods⟩ := hs
  have hmethod : ∀ m ∈ e.methods, R (m.events w) (m.events w') := fun m hm ↦
    methodEvents hR (hmethods.of_mem hm) (ok_of_mem hsmethods hm)
  refine hR.append (hR.own ?_) (hR.blankLines ?_)
  · split <;> decide +kernel
  · refine List.rel_append (List.rel_append (List.rel_append (List.rel_append (List.rel_append ?_ ?_) ?_)
      ?_) ?_) hnested
    · split
      · exact .nil
      · exact .cons (hR.constantsEvents hconstants hsconstants) .nil
    · split
      · exact .nil
      · exact .cons (hR.flatMap fun f hf ↦ hR.fieldEvents (hfields.of_mem hf) (ok_of_mem hsfields hf)) .nil
    · exact Composes.forall₂_map fun b hb ↦
        initBlockEvents hR (hblocks.of_mem (f := fun b ↦ _) hb) (ok_of_mem (f := fun b ↦ _) hsblocks hb)
    · exact Composes.forall₂_map fun m hm ↦ hmethod m (List.mem_filter.mp hm).1
    · exact Composes.forall₂_map fun m hm ↦ hmethod m (List.mem_filter.mp hm).1

theorem bodyEvents (hR : ComposesLines ok R) {e : ClassEntry} {nested nested' : List (List Event)}
    (h : Related R w w' e.bodyMentions) (hs : ∀ s ∈ e.bodyTexts, ok s)
    (hnested : List.Forall₂ R nested nested') : R (e.bodyEvents w nested) (e.bodyEvents w' nested') := by
  rw [ClassEntry.bodyEvents_eq, ClassEntry.bodyEvents_eq]
  exact hR.braces (memberEvents hR h hs hnested)

end ComposesLines

end JavaSource
