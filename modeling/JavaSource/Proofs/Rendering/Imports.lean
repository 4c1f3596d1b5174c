import JavaSource.Proofs.Rendering.ShortNames
import JavaSource.Proofs.Text.Splitting

/-!
# Imports

The import list of a unit is exact. It holds the full names of the classes through which some class in the
unit is written and which do not go by their short names anyway, each once, in ascending order.
-/

namespace JavaSource

namespace Scene

theorem mem_dropRepeats {l : List String} {a : String} : a ∈ dropRepeats l ↔ a ∈ l := by
  induction l with
  | nil => rfl
  | cons b l ih =>
      cases l with
      | nil => rfl
      | cons c l =>
          unfold dropRepeats
          split
          · rename_i h
            rw [ih, h]
            simp
          · rw [List.mem_cons, ih, List.mem_cons (b := b)]

theorem pairwise_dropRepeats {l : List String} (h : l.Pairwise (· ≤ ·)) :
    (dropRepeats l).Pairwise (· < ·) := by
  induction l with
  | nil => exact .nil
  | cons b l ih =>
      cases l with
      | nil => exact List.pairwise_singleton _ _
      | cons c l =>
          obtain ⟨hb, hrest⟩ := List.pairwise_cons.mp h
          unfold dropRepeats
          split
          · exact ih hrest
          · rename_i hne
            refine List.pairwise_cons.mpr ⟨fun a ha ↦ ?_, ih hrest⟩
            -- `b` stands before `c` and `c` before all others.
            have hca : c ≤ a := by
              rcases List.mem_cons.mp (mem_dropRepeats.mp ha) with rfl | ha
              · exact String.le_refl a
              · exact (List.pairwise_cons.mp hrest).1 a ha
            have hbc := hb c (List.mem_cons_self ..)
            refine String.not_le.mp fun hab ↦ hne ?_
            exact String.le_antisymm hbc (String.le_trans hca hab)

variable {s : Scene}

theorem mem_importNames {visible : List ClassId} {name : String} :
    name ∈ s.importNames visible ↔ ∃ c ∈ visible, s.isImplicit c = false ∧ s.model.fullName c = name := by
  simp [importNames, mem_dropRepeats, and_assoc]

theorem pairwise_importNames (visible : List ClassId) :
    (s.importNames visible).Pairwise (· < ·) := by
  have hle : ∀ a b : String, (!decide (b < a)) = true ↔ a ≤ b := fun a b ↦ by
    rw [Bool.not_eq_true', decide_eq_false_iff_not, String.not_lt]
  have htrans : ∀ a b c : String, (!decide (b < a)) = true → (!decide (c < b)) = true →
      (!decide (c < a)) = true := by
    intro a b c hab hbc
    rw [hle] at hab hbc ⊢
    exact String.le_trans hab hbc
  have htotal : ∀ a b : String, (!decide (b < a) || !decide (a < b)) = true := by
    intro a b
    rw [Bool.or_eq_true, hle, hle]
    exact String.le_total a b
  apply pairwise_dropRepeats
  apply (List.pairwise_mergeSort htrans htotal _).imp
  exact fun h ↦ (hle _ _).mp h

end Scene

namespace Model

/-- The class needs no import in a unit: it is the class of the unit or nested in it, or it is a top-level
class of the unnamed package, of the built-in one or of the package of the unit. -/
def IsExempt (m : Model) (t c : ClassId) : Prop :=
  c = t ∨ t ∈ m.outers c ∨
    ((m.entry c).outer = none ∧ ((m.entry c).package = rootPackage ∨
      (m.entry c).package = builtinPackage ∨ (m.entry c).package = (m.entry t).package))

/-- The unit refers to no anonymous class, and nothing is nested in an anonymous class or in one whose body
the unit writes without declaring it. -/
structure IsPlain (m : Model) (t : ClassId) : Prop where
  references : ∀ c, .reference c ∈ m.declarationEvents t → (m.entry c).origin ≠ .anonymous
  anonymous : ∀ c, (m.entry c).origin = .anonymous → (m.entry c).nested.entries = []
  bodies : ∀ c, m.Writes t (.body c) → m.Writes t (.header c) ∨ (m.entry c).nested.entries = []

variable {m : Model} {t : ClassId}

theorem fullName_eq (hc : m.Knows t) : ∃ name, m.fullName t = m.nameStep "." name t := by
  obtain ⟨n, hn⟩ : ∃ n, m.classes.length = n + 1 := ⟨m.classes.length - 1, by
    have : t.index < m.classes.length := hc
    omega⟩
  exact ⟨_, by rw [fullName, qualifiedName, hn, descend, if_neg List.not_mem_nil]⟩

/-- The full name of a class of a package ends in its short name. -/
theorem splitLast_fullName (hm : m.WellFormed) {c : ClassId} (hc : m.Knows c) (hl : (m.entry c).IsListed) :
    (Text.splitLast '.' (m.fullName c)).2 = (m.entry c).name := by
  have hdot := point_notMem_of_identifier (hm.name_valid c hc hl)
  have happend : ∀ front : String,
      (Text.splitLast '.' (front ++ "." ++ (m.entry c).name)).2 = (m.entry c).name :=
    fun front ↦ congrArg Prod.snd (Text.splitLast_append hdot front)
  obtain ⟨name, hname⟩ := fullName_eq hc
  rw [hname]
  unfold nameStep
  simp only
  split
  · rename_i horigin
    rcases hl with hl | hl <;> simp [hl] at horigin
  · rename_i horigin _
    rcases hl with hl | hl <;> simp [hl] at horigin
  · exact happend _
  · unfold packaged
    simp only
    split
    · exact congrArg Prod.snd (Text.splitLast_of_notMem hdot)
    · exact happend _

theorem outermost_eq_iff (hm : m.WellFormed) (ht : m.IsUnit t) {c : ClassId} :
    m.outermost c = t ↔ c = t ∨ t ∈ m.outers c := by
  constructor
  · intro h
    cases hlast : (m.outers c).getLast? with
    | none => simp [outermost, hlast] at h; exact Or.inl h
    | some o =>
        have hmem := List.mem_of_getLast? hlast
        simp [outermost, hlast] at h
        exact Or.inr (h ▸ hmem)
  · rintro (rfl | hmem)
    · exact outermost_of_outer_eq_none ht.2
    · rw [← outermost_of_mem_outers hm.outer_below hmem, outermost_of_outer_eq_none ht.2]

theorem isImplicit_iff (hm : m.WellFormed) (ht : m.IsUnit t) {c : ClassId} :
    (m.scene t).isImplicit c = true ↔ m.IsExempt t c := by
  unfold Scene.isImplicit IsExempt
  rw [← or_assoc, ← outermost_eq_iff hm ht]
  split
  · rename_i h
    exact iff_of_true rfl (Or.inl h)
  · rename_i h
    have hother : ¬ m.outermost c = t := h
    rw [or_iff_right hother, Bool.and_eq_true, Option.isNone_iff_eq_none, Bool.or_eq_true, Bool.or_eq_true,
      decide_eq_true_eq, decide_eq_true_eq, decide_eq_true_eq, or_assoc]
    rfl

/-- A unit that is plain declares its class and what is nested in it, and nothing else. -/
theorem eq_or_mem_outers_of_declared (hm : m.WellFormed) (hp : m.IsPlain t) {d : ClassId}
    (hd : m.Writes t (.header d)) : d = t ∨ t ∈ m.outers d := by
  have houter : ∀ d, m.Writes t (.header d) → d = t ∨
      ∃ c, (m.entry d).outer = some c ∧ m.Writes t (.header c) := by
    intro d hd
    cases hd with
    | header => exact Or.inl rfl
    | @within p _ hp' hq =>
        rcases List.mem_append.mp hq with hq | hq
        · obtain ⟨x, -, hq⟩ := List.mem_flatMap.mp hq
          cases x <;> simp [Mention.parts] at hq
        · cases p with
          | header c => cases hq
          | base c => cases hq
          | body c =>
              obtain ⟨e, he, hq⟩ := List.mem_flatMap.mp hq
              obtain rfl : d = e := by simpa using hq
              obtain ⟨name, he⟩ := Table.mem_values.mp he
              have hnested : (m.entry c).nested.entries ≠ [] := List.ne_nil_of_mem he
              exact Or.inr ⟨c, (hm.of_mem_nested c name d he).2.2.2.2,
                (hp.bodies c hp').resolve_right hnested⟩
  induction d using outer_induction hm.outer_below with
  | top d hnone =>
      rcases houter d hd with rfl | ⟨c, hc, -⟩
      · exact Or.inl rfl
      · rw [hnone] at hc
        cases hc
  | inner d o ho ih =>
      rcases houter d hd with rfl | ⟨c, hc, hheader⟩
      · exact Or.inl rfl
      · rw [ho] at hc
        cases hc
        refine Or.inr ?_
        rw [outers_of_outer_eq_some hm.outer_below ho]
        rcases ih hheader with rfl | hmem
        · exact List.mem_cons_self ..
        · exact List.mem_cons_of_mem _ hmem

theorem mem_visible_of_head? {c x : ClassId} (h : (m.resolve t).head? m x = some c) :
    c ∈ (m.resolve t).visible ∧ (c = x ∨ c ∈ m.outers x) := by
  refine ⟨by simpa using List.find?_some h, ?_⟩
  exact List.mem_cons.mp (List.mem_of_find?_eq_some h)

theorem origin_ne_placeholder_of_outer (hm : m.WellFormed) {c o : ClassId}
    (ho : (m.entry c).outer = some o) : (m.entry c).origin ≠ .placeholder := by
  intro horigin
  rcases (hm.listed_inner c o ho).1 with hl | hl <;> rw [horigin] at hl <;> cases hl

/-- What is written for a class that is not visible and no placeholder. -/
theorem spell_of_hidden (hm : m.WellFormed) {r : Resolution} {x : ClassId} (hx : x ∉ r.visible)
    (hplaceholder : (m.entry x).origin ≠ .placeholder) :
    r.spell m x = match (m.entry x).outer with
      | none => [m.fullName x]
      | some o => r.spell m o ++ [".", (m.entry x).name] := by
  have hentry : (m.entry x).isPlaceholder = false := by simpa [ClassEntry.isPlaceholder] using hplaceholder
  cases ho : (m.entry x).outer with
  | none => simp [Resolution.spell, outers_of_outer_eq_none ho, Resolution.spellChain, hx, hentry]
  | some o =>
      simp [Resolution.spell, outers_of_outer_eq_some hm.outer_below ho, Resolution.spellChain, hx, hentry]

/-- A class with a head is written as the short name of its head and, after points, the short names of the
classes from there down to the class. -/
theorem spell_of_head? (hm : m.WellFormed) {r : Resolution} {c x : ClassId} (h : r.head? m x = some c) :
    ∃ inner, x :: m.outers x = inner ++ c :: m.outers c ∧
      r.spell m x = (m.entry c).name :: inner.reverse.flatMap fun d ↦ [".", (m.entry d).name] := by
  induction x using outer_induction hm.outer_below with
  | top x hx =>
      rw [Resolution.head?, outers_of_outer_eq_none hx] at h
      obtain ⟨hvisible, rfl⟩ : x ∈ r.visible ∧ x = c := by simpa using h
      refine ⟨[], rfl, ?_⟩
      simp [Resolution.spell, outers_of_outer_eq_none hx, Resolution.spellChain, hvisible]
  | inner x o ho ih =>
      rw [Resolution.head?, outers_of_outer_eq_some hm.outer_below ho] at h
      by_cases hx : x ∈ r.visible
      · obtain rfl : x = c := by simpa [hx] using h
        refine ⟨[], rfl, ?_⟩
        simp [Resolution.spell, outers_of_outer_eq_some hm.outer_below ho, Resolution.spellChain, hx]
      · have hhead : r.head? m o = some c := by
          rw [List.find?_cons_of_neg (by simpa using hx)] at h
          exact h
        obtain ⟨inner, heq, hspell⟩ := ih hhead
        refine ⟨x :: inner, by rw [outers_of_outer_eq_some hm.outer_below ho, heq, List.cons_append], ?_⟩
        rw [spell_of_hidden hm hx (origin_ne_placeholder_of_outer hm ho), ho]
        simp [hspell]

/-- A class around which or in place of which a plain unit names something is no anonymous class. -/
theorem not_anonymous_of_recorded (hm : m.WellFormed) (ht : m.IsUnit t) (hp : m.IsPlain t)
    {x c : ClassId} (hx : (m.scene t).Recorded x) (hc : c = x ∨ c ∈ m.outers x) :
    m.Knows c ∧ (m.entry c).origin ≠ .anonymous := by
  rcases hc with rfl | hc
  · rcases recorded_iff.mp hx with href | hdecl
    · exact ⟨isWritten_of_mem hm ht.knows _ href, hp.references c href⟩
    · rcases eq_or_mem_outers_of_declared hm hp (isWritten_of_mem hm ht.knows _ hdecl) with rfl | hmem
      · refine ⟨ht.knows, fun h ↦ ?_⟩
        rw [ht.1] at h
        cases h
      · cases ho : (m.entry c).outer with
        | none => simp [outers_of_outer_eq_none ho] at hmem
        | some o =>
            refine ⟨(hm.knows_of_outer ho).1, fun h ↦ ?_⟩
            rcases (hm.listed_inner c o ho).1 with hl | hl <;> rw [h] at hl <;> cases hl
  · refine ⟨hm.knows_of_mem_outers hc, fun h ↦ ?_⟩
    obtain ⟨d, hd, -⟩ := exists_inner_of_mem_outers hm.outer_below hc
    have hmem := Table.mem_entries_of_get? (hm.listed_inner d c hd).2
    rw [hp.anonymous c h] at hmem
    cases hmem

theorem listed_of_mem_visible (hm : m.WellFormed) (ht : m.IsUnit t) (hp : m.IsPlain t) {c : ClassId}
    (hc : c ∈ (m.resolve t).visible) (hplaceholder : (m.entry c).origin ≠ .placeholder) :
    m.Knows c ∧ (m.entry c).IsListed := by
  have hs := coherent_scene hm ht
  obtain ⟨x, hx, hhead⟩ : ∃ x, (m.scene t).Recorded x ∧ (c = x ∨ c ∈ m.outers x) := by
    by_cases hne : c = t
    · exact ⟨t, hs.target_recorded, Or.inl hne⟩
    · rw [visible_resolve] at hc
      obtain ⟨x, hx, hhead⟩ := Scene.exists_head_of_mem_visible hs hc hne
      exact ⟨x, hx, (mem_visible_of_head? hhead).2⟩
  obtain ⟨hknown, hanonymous⟩ := not_anonymous_of_recorded hm ht hp hx hhead
  refine ⟨hknown, ?_⟩
  unfold ClassEntry.IsListed
  cases ho : (m.entry c).origin <;> simp_all

/-- A visible class needs an import exactly if the unit refers to a class through it and it is not exempt. -/
theorem exists_reference_of_visible (hm : m.WellFormed) (ht : m.IsUnit t) (hp : m.IsPlain t) {c : ClassId}
    (hc : c ∈ (m.resolve t).visible) (hexempt : ¬ m.IsExempt t c) :
    ∃ x, .reference x ∈ m.declarationEvents t ∧ (m.resolve t).head? m x = some c := by
  have hs := coherent_scene hm ht
  have hne : c ≠ t := fun h ↦ hexempt (Or.inl h)
  rw [visible_resolve] at hc
  obtain ⟨x, hx, hhead⟩ := Scene.exists_head_of_mem_visible hs hc hne
  refine ⟨x, ?_, hhead⟩
  rcases recorded_iff.mp hx with href | hdecl
  · exact href
  · -- What is only declared stands in the unit itself, and so does its head.
    refine absurd ?_ hexempt
    have hinside := eq_or_mem_outers_of_declared hm hp (isWritten_of_mem hm ht.knows _ hdecl)
    have houtermost := (outermost_eq_iff hm ht).mpr hinside
    have hc' : m.outermost c = t := by
      rcases (mem_visible_of_head? hhead).2 with rfl | hmem
      · exact houtermost
      · rw [outermost_of_mem_outers hm.outer_below hmem, houtermost]
    exact ((outermost_eq_iff hm ht).mp hc').imp_right Or.inl

/-- The class is visible, and its full name is in the import list. -/
def IsImported (m : Model) (t c : ClassId) : Prop :=
  c ∈ (m.resolve t).visible ∧ m.fullName c ∈ (m.resolve t).imports

theorem mem_imports (hm : m.WellFormed) (ht : m.IsUnit t) {name : String} :
    name ∈ (m.resolve t).imports ↔
      ∃ c ∈ (m.resolve t).visible, ¬ m.IsExempt t c ∧ m.fullName c = name := by
  have himplicit : ∀ c, (m.scene t).isImplicit c = false ↔ ¬ m.IsExempt t c := fun c ↦ by
    rw [← isImplicit_iff hm ht, Bool.not_eq_true]
  simp only [← himplicit]
  rw [imports_resolve]
  exact Scene.mem_importNames

theorem not_placeholder_of_not_exempt (hm : m.WellFormed) {c : ClassId} (hc : ¬ m.IsExempt t c) :
    (m.entry c).origin ≠ .placeholder := by
  intro horigin
  refine hc (Or.inr (Or.inr ⟨?_, Or.inl (hm.package_placeholder c horigin)⟩))
  cases ho : (m.entry c).outer with
  | none => rfl
  | some o => exact absurd horigin (origin_ne_placeholder_of_outer hm ho)

theorem eq_of_fullName_eq (hm : m.WellFormed) (ht : m.IsUnit t) (hp : m.IsPlain t) {c d : ClassId}
    (hc : c ∈ (m.resolve t).visible) (hd : d ∈ (m.resolve t).visible)
    (hc' : (m.entry c).origin ≠ .placeholder) (hd' : (m.entry d).origin ≠ .placeholder)
    (hname : (Text.splitLast '.' (m.fullName c)).2 = (Text.splitLast '.' (m.fullName d)).2) : c = d := by
  obtain ⟨hcknown, hclisted⟩ := listed_of_mem_visible hm ht hp hc hc'
  obtain ⟨hdknown, hdlisted⟩ := listed_of_mem_visible hm ht hp hd hd'
  rw [splitLast_fullName hm hcknown hclisted, splitLast_fullName hm hdknown hdlisted] at hname
  rw [visible_resolve] at hc hd
  exact Scene.eq_of_nameOf_eq (coherent_scene hm ht) hc hd hname

/-- The import list is exact. It ascends strictly, no two imports end in one simple name, every import is the
full name of an imported class, and a class that is no placeholder is imported exactly if the unit refers to
some class through it and it is not exempt. -/
theorem imports_exact (hm : m.Reachable) (ht : m.IsUnit t) (hp : m.IsPlain t) :
    (m.resolve t).imports.Pairwise (· < ·) ∧
      ((m.resolve t).imports.map fun name ↦ (Text.splitLast '.' name).2).Nodup ∧
      (∀ name ∈ (m.resolve t).imports, ∃ c, (m.entry c).origin ≠ .placeholder ∧ m.IsImported t c ∧
        m.fullName c = name) ∧
      ∀ c, (m.entry c).origin ≠ .placeholder →
        (m.IsImported t c ↔
          (∃ x, .reference x ∈ m.declarationEvents t ∧ (m.resolve t).head? m x = some c) ∧
            ¬ m.IsExempt t c) := by
  have hwf := hm.wellFormed
  have hascending : (m.resolve t).imports.Pairwise (· < ·) := by
    rw [imports_resolve]
    exact Scene.pairwise_importNames _
  refine ⟨hascending, ?_, fun name hname ↦ ?_, fun c hplaceholder ↦ ⟨?_, ?_⟩⟩
  · refine List.Nodup.map_on (fun a ha b hb hab ↦ ?_) (hascending.imp fun h ↦ String.ne_of_lt h)
    obtain ⟨c, hc, hce, rfl⟩ := (mem_imports hwf ht).mp ha
    obtain ⟨d, hd, hde, rfl⟩ := (mem_imports hwf ht).mp hb
    rw [eq_of_fullName_eq hwf ht hp hc hd (not_placeholder_of_not_exempt hwf hce)
      (not_placeholder_of_not_exempt hwf hde) hab]
  · obtain ⟨c, hc, hce, rfl⟩ := (mem_imports hwf ht).mp hname
    exact ⟨c, not_placeholder_of_not_exempt hwf hce, ⟨hc, hname⟩, rfl⟩
  · rintro ⟨hc, hname⟩
    obtain ⟨d, hd, hde, heq⟩ := (mem_imports hwf ht).mp hname
    obtain rfl := eq_of_fullName_eq hwf ht hp hd hc (not_placeholder_of_not_exempt hwf hde) hplaceholder
      (congrArg (fun name ↦ (Text.splitLast '.' name).2) heq)
    exact ⟨exists_reference_of_visible hwf ht hp hd hde, hde⟩
  · rintro ⟨⟨x, -, hhead⟩, hce⟩
    have hc := (mem_visible_of_head? hhead).1
    exact ⟨hc, (mem_imports hwf ht).mpr ⟨c, hc, hce, rfl⟩⟩

/-- A unit of a model without anonymous classes is plain when it has its own header and body only. -/
theorem isPlain_of_no_anonymous (hdefined : ∀ e ∈ m.classes, e.origin ≠ .anonymous)
    (hheader : m.partsWithin (.header t) = []) (hbody : m.partsWithin (.body t) = []) :
    m.IsPlain t where
  references c _ := entry_of_forall (P := fun e ↦ e.origin ≠ .anonymous) nofun hdefined c
  anonymous c hc := absurd hc <|
    entry_of_forall (P := fun e ↦ e.origin ≠ .anonymous) nofun hdefined c
  bodies c hc := by
    obtain rfl : c = t := hc.owner_eq hheader hbody
    exact Or.inl .header

set_option maxRecDepth 100000 in
theorem imports_exact_twoMaps :
    (initial.run twoMaps).Reachable ∧ (initial.run twoMaps).IsUnit ⟨1⟩ ∧
      (initial.run twoMaps).IsPlain ⟨1⟩ ∧ (initial.run twoMaps).IsImported ⟨1⟩ ⟨2⟩ := by
  have hunit : (initial.run twoMaps).IsUnit ⟨1⟩ := by decide +kernel
  have hplain : (initial.run twoMaps).IsPlain ⟨1⟩ :=
    isPlain_of_no_anonymous (by decide +kernel) (by decide +kernel) (by decide +kernel)
  have hhead : ((initial.run twoMaps).resolve ⟨1⟩).head? (initial.run twoMaps) ⟨3⟩ = some ⟨2⟩ := by
    decide +kernel
  have hreference : .reference ⟨3⟩ ∈ (initial.run twoMaps).declarationEvents ⟨1⟩ := by decide +kernel
  have hexempt : ¬ (initial.run twoMaps).IsExempt ⟨1⟩ ⟨2⟩ := by
    unfold IsExempt
    decide +kernel
  have h := (imports_exact reachable_twoMaps hunit hplain).2.2.2 ⟨2⟩ (by decide +kernel)
  exact ⟨reachable_twoMaps, hunit, hplain, h.mpr ⟨⟨⟨3⟩, hreference, hhead⟩, hexempt⟩⟩

/-- A unit that refers to a class and to a placeholder with the full name of that class. -/
def sharedFullName : List Operation :=
  [.package "p", .define (.package ⟨2⟩) .none "T" .plain, .reference "java.util.List",
    .placeholder "java.util.List", .member ⟨1⟩ (.implement (.reference ⟨2⟩)),
    .member ⟨1⟩ (.implement (.reference ⟨3⟩))]

/-- A unit that writes the body of a class with a nested class in place of an anonymous one. -/
def borrowedBody : List Operation :=
  [.package "p", .define (.package ⟨2⟩) .none "T" .plain, .package "q",
    .define (.package ⟨3⟩) .none "C" .plain, .define (.class ⟨2⟩) .none "CD" .plain,
    .member ⟨1⟩ (.field .none (.reference ⟨0⟩) "f"),
    .member ⟨1⟩ (.adjustField "f" .none (.reference ⟨0⟩) (some (.new (.anonymous ⟨2⟩) [])) [])]

set_option maxRecDepth 100000 in
/-- A placeholder counts as imported when a class with its name is, and a class that is only declared inside a
borrowed body is imported although nothing refers to it. -/
theorem imported_though_exempt_or_unreferenced :
    ((initial.run sharedFullName).Reachable ∧ (initial.run sharedFullName).IsUnit ⟨1⟩ ∧
      (initial.run sharedFullName).IsPlain ⟨1⟩ ∧
      ¬ ((initial.run sharedFullName).IsImported ⟨1⟩ ⟨3⟩ ↔
        (∃ x, .reference x ∈ (initial.run sharedFullName).declarationEvents ⟨1⟩ ∧
          ((initial.run sharedFullName).resolve ⟨1⟩).head? (initial.run sharedFullName) x = some ⟨3⟩) ∧
          ¬ (initial.run sharedFullName).IsExempt ⟨1⟩ ⟨3⟩)) ∧
    ((initial.run borrowedBody).Reachable ∧ (initial.run borrowedBody).IsUnit ⟨1⟩ ∧
      (∀ e ∈ (initial.run borrowedBody).classes, e.origin ≠ .anonymous) ∧
      ¬ ((initial.run borrowedBody).IsImported ⟨1⟩ ⟨3⟩ ↔
        (∃ x, .reference x ∈ (initial.run borrowedBody).declarationEvents ⟨1⟩ ∧
          ((initial.run borrowedBody).resolve ⟨1⟩).head? (initial.run borrowedBody) x = some ⟨3⟩) ∧
          ¬ (initial.run borrowedBody).IsExempt ⟨1⟩ ⟨3⟩)) := by
  have hborrowed : (initial.run borrowedBody).Reachable := .run .initial (by decide +kernel)
  have hunit : (initial.run borrowedBody).IsUnit ⟨1⟩ := by decide +kernel
  refine ⟨⟨.run .initial (by decide +kernel), by decide +kernel, ?_, fun h ↦ ?_⟩,
    ⟨hborrowed, hunit, by decide +kernel, fun h ↦ ?_⟩⟩
  · exact isPlain_of_no_anonymous (by decide +kernel) (by decide +kernel) (by decide +kernel)
  · have himported : (initial.run sharedFullName).IsImported ⟨1⟩ ⟨3⟩ := by
      unfold IsImported
      decide +kernel
    refine (h.mp himported).2 ?_
    unfold IsExempt
    decide +kernel
  · have himported : (initial.run borrowedBody).IsImported ⟨1⟩ ⟨3⟩ := by
      unfold IsImported
      decide +kernel
    obtain ⟨x, hx, hhead⟩ := (h.mp himported).1
    have hother : ∀ i < (initial.run borrowedBody).classes.length,
        .reference ⟨i⟩ ∈ (initial.run borrowedBody).declarationEvents ⟨1⟩ →
          ((initial.run borrowedBody).resolve ⟨1⟩).head? (initial.run borrowedBody) ⟨i⟩ ≠ some ⟨3⟩ := by
      decide +kernel
    have hknown : (initial.run borrowedBody).Knows x :=
      isWritten_of_mem hborrowed.wellFormed hunit.knows _ hx
    exact hother x.index hknown hx hhead

end Model

end JavaSource
