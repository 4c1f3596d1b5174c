import JavaSource.Proofs.Rendering.Scope

/-!
# Placeholders in a unit

A reference is spelled outwards from the class it is to, up to a visible class or a placeholder. The scan for
placeholders looks at the class itself only. So it lists the placeholders that references spell, each once and in
the order of their first use, but none that is spelled for a class inside it.
-/

namespace JavaSource

theorem foldl_addOnce_eq_eraseDups {α : Type} [DecidableEq α] (l : List α) : l.foldl addOnce [] = l.eraseDups := by
  induction l using List.reverseRecOn with
  | nil => rfl
  | append_singleton l a ih =>
      rw [List.foldl_append, List.foldl_cons, List.foldl_nil, ih, List.eraseDups_append, addOnce]
      by_cases ha : a ∈ l
      · simp [ha, List.removeAll]
      · simp [ha, List.removeAll, List.eraseDups_cons]

theorem nodup_eraseDups {α : Type} [DecidableEq α] (l : List α) : l.eraseDups.Nodup := by
  rw [← foldl_addOnce_eq_eraseDups]
  exact List.foldlRecOn l addOnce List.nodup_nil fun _ h _ _ ↦ nodup_addOnce h

namespace Model

variable {m : Model} {t x p : ClassId} {r : Resolution}

/-- The classes that the unit of a class refers to, as they are written. -/
def printedReferences (m : Model) (t : ClassId) : List ClassId :=
  (m.declarationEvents t).filterMap fun
    | .reference x => some x
    | _ => none

/-- Whether a class is written by its short name, with nothing in front. -/
def isShown (m : Model) (r : Resolution) (c : ClassId) : Bool := decide (c ∈ r.visible) || (m.entry c).isPlaceholder

/-- The placeholder that a reference to a class is spelled with. -/
def spelledPlaceholder? (m : Model) (r : Resolution) (x : ClassId) : Option ClassId :=
  ((x :: m.outers x).find? (m.isShown r)).filter fun c ↦ (m.entry c).isPlaceholder

/-- Whether a class is nested in a placeholder, at any depth. -/
def isInPlaceholder (m : Model) (x : ClassId) : Bool := (m.outers x).any fun o ↦ (m.entry o).isPlaceholder

/-! ## What references spell -/

theorem isShown_iff : m.isShown r x = true ↔ x ∈ r.visible ∨ (m.entry x).isPlaceholder = true := by
  rw [isShown, Bool.or_eq_true, decide_eq_true_eq]

theorem spelledPlaceholder?_of_shown (hx : m.isShown r x) :
    m.spelledPlaceholder? r x = if (m.entry x).isPlaceholder then some x else none := by
  rw [spelledPlaceholder?, List.find?_cons_of_pos hx]
  rfl

theorem spelledPlaceholder?_of_hidden (hm : m.WellFormed) (hx : ¬ m.isShown r x) :
    m.spelledPlaceholder? r x = (m.entry x).outer.bind (m.spelledPlaceholder? r) := by
  rw [spelledPlaceholder?, List.find?_cons_of_neg hx]
  cases ho : (m.entry x).outer with
  | none =>
      rw [outers_of_outer_eq_none ho]
      rfl
  | some o =>
      rw [outers_of_outer_eq_some hm.outer_below ho]
      rfl

/-- The placeholder of a reference is the one with whose name alone its text begins. -/
theorem spelledPlaceholder?_eq_some_iff (hm : m.WellFormed) :
    m.spelledPlaceholder? r x = some p ↔ (m.entry p).isPlaceholder = true ∧ m.NamesShort r x p := by
  have shown : ∀ x, m.isShown r x = true →
      (m.spelledPlaceholder? r x = some p ↔ (m.entry p).isPlaceholder = true ∧ m.NamesShort r x p) := fun x hx ↦ by
    rw [spelledPlaceholder?_of_shown hx, namesShort_iff_of_shown (isShown_iff.mp hx), Option.ite_none_right_eq_some,
      Option.some_inj]
    refine ⟨fun ⟨hx, hxp⟩ ↦ ⟨hxp ▸ hx, hxp.symm⟩, fun ⟨hp, hpx⟩ ↦ ⟨hpx ▸ hp, hpx.symm⟩⟩
  induction x using outer_induction hm.outer_below with
  | top x ho =>
      by_cases hx : m.isShown r x
      · exact shown x hx
      · obtain ⟨hvisible, hplaceholder⟩ := not_or.mp (mt isShown_iff.mpr hx)
        have hspell : r.spell m x = [m.fullName x] := by
          rw [spell_of_hidden hm hvisible (by simpa [ClassEntry.isPlaceholder] using hplaceholder), ho]
        rw [spelledPlaceholder?_of_hidden hm hx, ho, Option.bind_none, namesShort_iff_of_spell hspell]
        refine iff_of_false (Option.some_ne_none p).symm ?_
        rintro ⟨hp, rfl, _⟩
        exact hplaceholder hp
  | inner x o ho ih =>
      by_cases hx : m.isShown r x
      · exact shown x hx
      · have hvisible : x ∉ r.visible := fun h ↦ hx (isShown_iff.mpr (Or.inl h))
        rw [spelledPlaceholder?_of_hidden hm hx, ho, Option.bind_some, namesShort_iff_of_hidden hm hvisible ho]
        exact ih

/-! ## What the scan finds -/

theorem unresolvedTypes_eq_eraseDups (m : Model) (t : ClassId) :
    m.unresolvedTypes t =
      (((m.printedReferences t).filter fun x ↦ (m.entry x).isPlaceholder).map
        fun x ↦ (m.entry x).name).eraseDups := by
  rw [unresolvedTypes, placeholderNames, ← foldl_addOnce_eq_eraseDups, printedReferences]
  generalize ([] : List String) = names
  induction m.declarationEvents t generalizing names with
  | nil => rfl
  | cons e events ih =>
      cases e with
      | reference x =>
          rw [List.foldl_cons, ih]
          by_cases hx : (m.entry x).isPlaceholder = true
          · simp [hx]
          · simp [hx]
      | _ => exact ih names

/-- A placeholder has no class around it. -/
theorem isInPlaceholder_of_isPlaceholder (hm : m.WellFormed) (hx : (m.entry x).isPlaceholder = true) :
    m.isInPlaceholder x = false := by
  cases ho : (m.entry x).outer with
  | none => rw [isInPlaceholder, outers_of_outer_eq_none ho, List.any_nil]
  | some o => exact absurd (by simpa [ClassEntry.isPlaceholder] using hx) (origin_ne_placeholder_of_outer hm ho)

/-- Outside of placeholders, only a reference to a placeholder is spelled with one. -/
theorem spelledPlaceholder?_of_not_inside (hx : m.isInPlaceholder x = false) :
    m.spelledPlaceholder? r x = if (m.entry x).isPlaceholder then some x else none := by
  by_cases hshown : m.isShown r x
  · exact spelledPlaceholder?_of_shown hshown
  · have hplaceholder : (m.entry x).isPlaceholder = false :=
      Bool.eq_false_iff.mpr fun h ↦ hshown (isShown_iff.mpr (Or.inr h))
    rw [spelledPlaceholder?, List.find?_cons_of_neg hshown, hplaceholder, if_neg (by decide),
      Option.filter_eq_none_iff]
    exact fun o ho ↦ List.any_eq_false.mp hx o (List.mem_of_find?_eq_some ho)

theorem filterMap_spelledPlaceholder? (hm : m.WellFormed) (l : List ClassId) :
    (l.filter fun x ↦ !m.isInPlaceholder x).filterMap (m.spelledPlaceholder? r) =
      l.filter fun x ↦ (m.entry x).isPlaceholder := by
  rw [List.filterMap_filter, ← List.filterMap_eq_filter]
  refine List.filterMap_congr fun x _ ↦ ?_
  by_cases hinside : m.isInPlaceholder x
  · have hplaceholder : (m.entry x).isPlaceholder = false :=
      Bool.eq_false_iff.mpr fun h ↦ by simp [isInPlaceholder_of_isPlaceholder hm h] at hinside
    simp [Option.guard, hinside, hplaceholder]
  · rw [Bool.not_eq_true] at hinside
    rw [spelledPlaceholder?_of_not_inside hinside]
    simp [hinside, Option.guard]

/-- The scan lists the placeholders that are spelled in a unit, each once and in the order of their first use, but it
leaves out references to classes inside placeholders. -/
theorem unresolvedTypes_exact (hm : m.Reachable) (t : ClassId) :
    (∀ x ∈ m.printedReferences t, ∀ p, m.spelledPlaceholder? (m.resolve t) x = some p ↔
      (m.entry p).isPlaceholder = true ∧ m.NamesShort (m.resolve t) x p) ∧
    (m.unresolvedTypes t).Nodup ∧
    m.unresolvedTypes t =
      ((((m.printedReferences t).filter fun x ↦ !m.isInPlaceholder x).filterMap
        (m.spelledPlaceholder? (m.resolve t))).map fun p ↦ (m.entry p).name).eraseDups ∧
    (m.unresolvedTypes t = [] ↔ ∀ x ∈ m.printedReferences t, (m.entry x).isPlaceholder = false) := by
  have hwf := hm.wellFormed
  refine ⟨fun x _ p ↦ spelledPlaceholder?_eq_some_iff hwf, ?_, ?_, ?_⟩
  · rw [unresolvedTypes_eq_eraseDups]
    exact nodup_eraseDups _
  · rw [filterMap_spelledPlaceholder? hwf, unresolvedTypes_eq_eraseDups]
  · rw [unresolvedTypes_eq_eraseDups, List.eq_nil_iff_forall_not_mem]
    simp only [List.mem_eraseDups, List.mem_map, List.mem_filter, not_exists, not_and]
    constructor
    · exact fun h x hx ↦ Bool.eq_false_iff.mpr fun hplaceholder ↦ h _ x ⟨hx, hplaceholder⟩ rfl
    · exact fun h _ x hx _ ↦ absurd hx.2 (by simp [h x hx.1])

/-- A reference to a placeholder, and one to a class inside another placeholder. -/
def placeholderInside : List Operation :=
  [.package "p", .define (.package ⟨2⟩) .none "T" .plain, .placeholder "E", .placeholder "F",
    .referenceNested ⟨2⟩ "X", .member ⟨1⟩ (.field .none (.reference ⟨3⟩) "f"),
    .member ⟨1⟩ (.field .none (.reference ⟨4⟩) "g"), .member ⟨1⟩ (.field .none (.reference ⟨3⟩) "h")]

theorem unresolvedTypes_exact_placeholderInside :
    (initial.run placeholderInside).Reachable ∧ (initial.run placeholderInside).unresolvedTypes ⟨1⟩ = ["F"] ∧
      ⟨4⟩ ∈ (initial.run placeholderInside).printedReferences ⟨1⟩ ∧
      (initial.run placeholderInside).NamesShort ((initial.run placeholderInside).resolve ⟨1⟩) ⟨4⟩ ⟨2⟩ := by
  have hreachable : (initial.run placeholderInside).Reachable := .run .initial (by decide +kernel)
  have hprinted : ⟨4⟩ ∈ (initial.run placeholderInside).printedReferences ⟨1⟩ := by decide +kernel
  have hspelled : (initial.run placeholderInside).spelledPlaceholder?
      ((initial.run placeholderInside).resolve ⟨1⟩) ⟨4⟩ = some ⟨2⟩ := by
    decide +kernel
  obtain ⟨hspell, -, hexact, -⟩ := unresolvedTypes_exact hreachable ⟨1⟩
  exact ⟨hreachable, hexact.trans (by decide +kernel), hprinted, ((hspell ⟨4⟩ hprinted ⟨2⟩).mp hspelled).2⟩

end Model
end JavaSource
