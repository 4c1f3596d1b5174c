import JavaSource.Proofs.Rendering.Part

/-!
# Walks that come back

Lines are indented where a declaration goes inwards and brought back where it comes out again. Whatever is kept
track of by these two steps alone never sinks below where it was in front of a statement, a block, a member or a
class, and it is back there behind it.
-/

namespace JavaSource

/-- Along a list, what is in view never sinks below where it was at first, and at the end it is there again. -/
structure Returns {σ ε α : Type} (step : σ → ε → σ) (view : σ → α) (below : α → α → Prop) (l : List ε) :
    Prop where
  above : ∀ s pre, pre <+: l → below (view s) (view (pre.foldl step s))
  back : ∀ s, view (l.foldl step s) = view s

/-- A step inwards goes up from what is in view, and a step outwards undoes one. -/
structure Leveled {σ ε α : Type} (step : σ → ε → σ) (view : σ → α) (below : α → α → Prop)
    (inward outward : ε) : Prop where
  refl : ∀ a, below a a
  trans : ∀ {a b c}, below a b → below b c → below a c
  rises : ∀ s, below (view s) (view (step s inward))
  undone : ∀ s s', view s' = view (step s inward) → view (step s' outward) = view s

namespace Leveled

variable {σ ε α : Type} {step : σ → ε → σ} {view : σ → α} {below : α → α → Prop} {inward outward : ε}
  (h : Leveled step view below inward outward)

omit h in
theorem view_foldl {l : List ε} (hl : ∀ x ∈ l, ∀ s, view (step s x) = view s) (s : σ) :
    view (l.foldl step s) = view s := by
  induction l generalizing s with
  | nil => rfl
  | cons x l ih =>
      obtain ⟨hx, hrest⟩ := List.forall_mem_cons.mp hl
      rw [List.foldl_cons, ih hrest, hx]

include h

theorem still {l : List ε} (hl : ∀ x ∈ l, ∀ s, view (step s x) = view s) : Returns step view below l where
  above s pre hpre := by
    rw [view_foldl fun x hx ↦ hl x (hpre.subset hx)]
    exact h.refl _
  back := view_foldl hl

omit h in
theorem append {a b : List ε} (ha : Returns step view below a) (hb : Returns step view below b) :
    Returns step view below (a ++ b) where
  above s pre hpre := by
    obtain ⟨rest, hrest⟩ := hpre
    rcases List.append_eq_append_iff.mp hrest with ⟨a', rfl, -⟩ | ⟨b', rfl, rfl⟩
    · exact ha.above s pre (List.prefix_append _ _)
    · rw [List.foldl_append, ← ha.back s]
      exact hb.above _ _ (List.prefix_append _ _)
  back s := by rw [List.foldl_append, hb.back, ha.back]

theorem indented {a : List ε} (ha : Returns step view below a) :
    Returns step view below (inward :: a ++ [outward]) := by
  have hback : ∀ s, view ((inward :: a ++ [outward]).foldl step s) = view s := fun s ↦ by
    rw [List.foldl_append, List.foldl_cons]
    exact h.undone s _ (ha.back _)
  refine ⟨fun s pre hpre ↦ ?_, hback⟩
  rcases List.prefix_concat_iff.mp hpre with rfl | hpre
  · rw [hback]
    exact h.refl _
  · rcases List.prefix_cons_iff.mp hpre with rfl | ⟨rest, rfl, hrest⟩
    · exact h.refl _
    · exact h.trans (h.rises s) (ha.above _ rest hrest)

/-- Declarations come back wherever each event but the two that move lines leaves the view as it is. -/
theorem composesLines {f : Event → List ε} (hin : f .indent = [inward]) (hout : f .outdent = [outward])
    (hstill : ∀ e, e ≠ .indent → e ≠ .outdent → ∀ x ∈ f e, ∀ s, view (step s x) = view s) :
    ComposesLines (fun _ ↦ True) fun l _ ↦ Returns step view below (l.flatMap f) where
  toComposes := by
    refine .of_append (h.still (List.forall_mem_nil _)) (fun ha hb ↦ ?_) fun e _ hi ho ↦ ?_
    · rw [List.flatMap_append]
      exact append ha hb
    · rw [List.flatMap_singleton]
      exact h.still (hstill e hi ho)
  indented ha := by
    rw [List.flatMap_append, List.flatMap_cons, List.flatMap_singleton, hin, hout]
    exact h.indented ha

end Leveled

namespace Model

/-- A walk that is at certain classes already and goes so much deeper. -/
def walkAt (m : Model) (n : Nat) (path : List ClassId) : Walk :=
  ⟨m.typeEvents, descend (fun _ ↦ []) m.bodyStep n path⟩

/-- All members of a class, nested classes among them. -/
def membersWith (m : Model) (w : Walk) (c : ClassId) : List Event :=
  (m.entry c).memberEvents w ((m.entry c).nested.values.map (m.declarationWith w.body))

/-- What a walk writes for a statement, a block, a member, all members of a class or a class. -/
inductive Construct (m : Model) (w : Walk) : List Event → Prop
  | statement (s : Stmt) : m.Construct w (s.events w)
  | block (b : Block) : m.Construct w (Stmt.eventsBlock w b)
  | constants (ks : List EnumConstant) : m.Construct w (EnumConstant.eventsAll w ks)
  | field (f : Field) : m.Construct w (f.events w)
  | initBlock (b : InitBlock) : m.Construct w (b.events w)
  | method (x : Method) : m.Construct w (x.events w)
  /-- The header of a class up to its name. -/
  | opening (c : ClassId) : m.Construct w ((m.entry c).openingEvents w)
  | members (c : ClassId) : m.Construct w (m.membersWith w c)
  | body (c : ClassId) : m.Construct w (w.body c)
  | declaration (c : ClassId) : m.Construct w (m.declarationWith w.body c)

section Everywhere

variable {m : Model} {R : List Event → List Event → Prop} {body : ClassId → List Event}

theorem typeEvents_self (hR : Composes (fun _ ↦ True) R) (hclass : ∀ c, R [.reference c] [.reference c])
    (t : JavaType) : R (m.typeEvents t) (m.typeEvents t) := by
  have htype : ∀ base : ClassId → List Event, (∀ c, R (base c) (base c)) → ∀ t : JavaType,
      R (t.events base) (t.events base) := fun base hbase t ↦
    hR.typeEvents t (fun c _ ↦ hclass c) (fun c _ ↦ hbase c) fun _ _ ↦ trivial
  refine htype _ (descend_of (P := fun _ l ↦ R l l) (fun _ ↦ hR.nil) (fun base c hbase ↦ ?_) _ _) t
  unfold baseStep
  split
  · exact hclass object
  · exact htype base hbase _

theorem related_self (hR : Composes (fun _ ↦ True) R) (hclass : ∀ c, R [.reference c] [.reference c])
    (hbody : ∀ c, R (body c) (body c)) (xs : List Mention) :
    Related R ⟨m.typeEvents, body⟩ ⟨m.typeEvents, body⟩ xs := fun x _ ↦ by
  cases x with
  | type t => exact typeEvents_self hR hclass t
  | «class» c => exact hclass c
  | body c => exact hbody c

variable (hR : ComposesLines (fun _ ↦ True) R) (hclass : ∀ c, R [.reference c] [.reference c])
  (hdeclared : ∀ c, R [.declared c] [.declared c])

include hR hclass hdeclared

theorem declarationWith_self (hbody : ∀ c, R (body c) (body c)) (c : ClassId) :
    R (m.declarationWith body c) (m.declarationWith body c) := by
  have hrelated := related_self (m := m) hR.toComposes hclass hbody
  have hheader := hR.headerEvents (hdeclared (m.entry c).id) (hrelated _) fun _ _ ↦ trivial
  exact hR.append (hR.append hheader (hbody c)) hR.newline

theorem bodyEvents_self (n : Nat) (path : List ClassId) (c : ClassId) :
    R ((m.walkAt n path).body c) ((m.walkAt n path).body c) := by
  refine descend_of (P := fun _ l ↦ R l l) (fun _ ↦ hR.nil) (fun body c hbody ↦ ?_) n path c
  refine hR.bodyEvents (related_self hR.toComposes hclass hbody _) (fun _ _ ↦ trivial) ?_
  exact Composes.forall₂_map fun d _ ↦ declarationWith_self hR hclass hdeclared hbody d

/-- What is kept by the parts of declarations holds for all constructs, wherever they stand. -/
theorem Construct.self {n : Nat} {path : List ClassId} {l : List Event} (hl : m.Construct (m.walkAt n path) l) :
    R l l := by
  have hbody := bodyEvents_self (m := m) hR hclass hdeclared n path
  have hrelated := related_self (m := m) hR.toComposes hclass hbody
  cases hl with
  | statement s => exact hR.stmtEvents s (hrelated _) fun _ _ ↦ trivial
  | block b => exact hR.blockEvents b (hrelated _) fun _ _ ↦ trivial
  | constants ks => exact hR.constantsEvents (hrelated _) fun _ _ ↦ trivial
  | field f => exact hR.fieldEvents (hrelated _) fun _ _ ↦ trivial
  | initBlock b => exact hR.initBlockEvents (hrelated _) fun _ _ ↦ trivial
  | method x => exact hR.methodEvents (hrelated _) fun _ _ ↦ trivial
  | opening c => exact hR.openingEvents (hrelated _) fun _ _ ↦ trivial
  | members c =>
      refine hR.memberEvents (hrelated _) (fun _ _ ↦ trivial) ?_
      exact Composes.forall₂_map fun d _ ↦ declarationWith_self hR hclass hdeclared hbody d
  | body c => exact hbody c
  | declaration c => exact declarationWith_self hR hclass hdeclared hbody c

end Everywhere

/-- Whatever a walk writes for a part of a declaration brings back what is in view, where each event but the two
that move lines leaves it as it is. -/
theorem Construct.returns {m : Model} {σ ε α : Type} {step : σ → ε → σ} {view : σ → α} {below : α → α → Prop}
    {inward outward : ε} (h : Leveled step view below inward outward) {f : Event → List ε}
    (hin : f .indent = [inward]) (hout : f .outdent = [outward])
    (hstill : ∀ e, e ≠ .indent → e ≠ .outdent → ∀ x ∈ f e, ∀ s, view (step s x) = view s)
    {n : Nat} {path : List ClassId} {l : List Event} (hl : m.Construct (m.walkAt n path) l) :
    Returns step view below (l.flatMap f) := by
  refine hl.self (h.composesLines hin hout hstill) (fun c ↦ ?_) fun c ↦ ?_
  · rw [List.flatMap_singleton]
    exact h.still (hstill _ nofun nofun)
  · rw [List.flatMap_singleton]
    exact h.still (hstill _ nofun nofun)

end Model
end JavaSource
