import Mathlib.Logic.Relation
import JavaSource.Proofs.Model.Descent
import JavaSource.Proofs.Rendering.UnitPath
import JavaSource.Rendering.Resolution

/-!
# How classes are spelled

Where the names of classes and packages are made of identifiers and points, so is every text that spells a class, by
its short name, by its full name or through an enclosing class.
-/

namespace JavaSource

/-! ## Dotted names -/


/-- A name, or names with points between them. -/
def IsDottedName (s : String) : Prop := s ≠ "" ∧ IsDotted s

instance (s : String) : Decidable (IsDottedName s) := inferInstanceAs (Decidable (_ ∧ _))

/-- The characters of dotted names. -/
def isNameChar (c : Char) : Bool := isIdentifierPart c || c = '.'

theorem isNameChar_of_isDotted {s : String} (h : IsDotted s) : ∀ c ∈ s.toList, isNameChar c = true := by
  intro c hc
  rcases h with rfl | h
  · cases hc
  · rw [← Text.joinAll_splitAll '.' s.toList] at hc
    rcases Text.exists_of_mem_joinAll hc with rfl | ⟨piece, hpiece, hc⟩
    · decide
    · have hname := h _ (List.mem_map_of_mem hpiece)
      rw [isNameChar, isIdentifierPart_of_mem hname (by rwa [String.toList_ofList]), Bool.true_or]

/-- A text that a dotted name could be a part of. -/
structure IsSpelling (s : String) : Prop where
  ne_empty : s ≠ ""
  chars : ∀ c ∈ s.toList, isNameChar c = true

namespace IsSpelling

variable {s t : String}

theorem point : IsSpelling "." := ⟨by decide, List.forall_mem_singleton.mpr (by decide)⟩

theorem of_isDottedName (h : IsDottedName s) : IsSpelling s := ⟨h.1, isNameChar_of_isDotted h.2⟩

theorem append (hs : ∀ c ∈ s.toList, isNameChar c = true) (ht : IsSpelling t) : IsSpelling (s ++ "." ++ t) where
  ne_empty h := by
    have hchars := congrArg String.toList h
    simp at hchars
  chars := by
    simp only [String.toList_append, List.forall_mem_append]
    exact ⟨⟨hs, point.chars⟩, ht.chars⟩

end IsSpelling

/-! ## Classes -/

namespace Model

variable {m : Model} {c d : ClassId}

/-- The name of the first class may be made with that of the second one, which is around it or the base of it. -/
def MadeWith (m : Model) (c d : ClassId) : Prop :=
  (m.entry c).outer = some d ∨
    (m.entry c).origin = .anonymous ∧ ∃ base, (m.entry c).superclass = some base ∧ base.basis = d

/-- All names that the name of a class may be made with are dotted ones, or those of unnamed packages. -/
def WellNamed (m : Model) (c : ClassId) : Prop :=
  ∀ d, Relation.ReflTransGen m.MadeWith c d →
    IsDottedName (m.entry d).name ∧ IsDotted (m.packageEntry (m.entry d).package).name

namespace WellNamed

theorem isSpelling (hc : m.WellNamed c) : IsSpelling (m.entry c).name := .of_isDottedName (hc c .refl).1

/-- The name of a class that is in no other class, and has no base in the place of its own name, is made with the names
of the class itself and of its package. -/
theorem of_outer_eq_none (houter : (m.entry c).outer = none) (horigin : (m.entry c).origin ≠ .anonymous)
    (hname : IsDottedName (m.entry c).name) (hpackage : IsDotted (m.packageEntry (m.entry c).package).name) :
    m.WellNamed c := by
  intro d hd
  rcases Relation.ReflTransGen.cases_head hd with rfl | ⟨e, he | he, -⟩
  · exact ⟨hname, hpackage⟩
  · rw [houter] at he
    cases he
  · exact absurd he.1 horigin

theorem of_madeWith (hc : m.WellNamed c) (h : m.MadeWith c d) : m.WellNamed d := fun e he ↦ hc e (he.head h)

theorem of_mem_outersWithin {n : Nat} (hc : m.WellNamed c) (hd : d ∈ m.outersWithin n c) : m.WellNamed d := by
  induction n generalizing c with
  | zero => cases hd
  | succ n ih =>
      rw [outersWithin] at hd
      cases ho : (m.entry c).outer with
      | none => simp [ho] at hd
      | some o =>
          have hwell := hc.of_madeWith (Or.inl ho)
          rw [ho] at hd
          rcases List.mem_cons.mp hd with rfl | hd
          · exact hwell
          · exact ih hwell hd

theorem isSpelling_fullName (hc : m.WellNamed c) : IsSpelling (m.fullName c) := by
  refine descend_of (P := fun c name ↦ m.WellNamed c → IsSpelling name) (fun c hc ↦ hc.isSpelling)
    (fun name c ih hc ↦ ?_) _ _ c hc
  unfold nameStep
  simp only
  split
  · exact hc.isSpelling
  · rename_i base horigin hbase
    exact ih _ (hc.of_madeWith (Or.inr ⟨horigin, base, hbase, rfl⟩))
  · rename_i o ho _ _
    exact .append (ih o (hc.of_madeWith (Or.inl ho))).chars hc.isSpelling
  · unfold packaged
    simp only
    split
    · exact hc.isSpelling
    · exact .append (isNameChar_of_isDotted (hc c .refl).2) hc.isSpelling

end WellNamed

theorem isSpelling_spellChain (r : Resolution) {chain : List ClassId} (h : ∀ c ∈ chain, m.WellNamed c) :
    ∀ s ∈ r.spellChain m chain, IsSpelling s := by
  induction chain with
  | nil => exact List.forall_mem_nil _
  | cons c rest ih =>
      obtain ⟨hc, hrest⟩ := List.forall_mem_cons.mp h
      unfold Resolution.spellChain
      simp only
      split
      · exact List.forall_mem_singleton.mpr hc.isSpelling
      · split
        · exact List.forall_mem_singleton.mpr hc.isSpelling_fullName
        · refine List.forall_mem_append.mpr ⟨ih hrest, ?_⟩
          exact List.forall_mem_cons.mpr ⟨.point, List.forall_mem_singleton.mpr hc.isSpelling⟩

theorem spellChain_ne_nil (r : Resolution) (m : Model) (c : ClassId) (rest : List ClassId) :
    r.spellChain m (c :: rest) ≠ [] := by
  unfold Resolution.spellChain
  simp only
  split
  · exact List.cons_ne_nil _ _
  · split
    · exact List.cons_ne_nil _ _
    · exact List.append_ne_nil_of_right_ne_nil _ (List.cons_ne_nil _ _)

end Model

end JavaSource
