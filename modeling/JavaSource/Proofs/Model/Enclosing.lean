import JavaSource.Model.Names

/-!
# Enclosing classes

Where a class is always made after the class around it, the enclosing classes of a class are the class around
it and the enclosing classes of that one, and the chain ends at a top-level class.
-/

namespace JavaSource.Model

/-- The class around a class has the smaller handle. -/
def OutersBelow (m : Model) : Prop := ∀ c o, (m.entry c).outer = some o → o.index < c.index

theorem outersWithin_eq_outers {m : Model} (h : m.OutersBelow) {n : Nat} {c : ClassId} (hn : c.index ≤ n) :
    m.outersWithin n c = m.outers c := by
  induction n using Nat.strongRecOn generalizing c with
  | _ n ih =>
      cases ho : (m.entry c).outer with
      | none => cases n <;> cases hc : c.index <;> simp [outers, outersWithin, ho, hc]
      | some o =>
          have hlt := h c o ho
          obtain ⟨k, rfl⟩ : ∃ k, n = k + 1 := ⟨n - 1, by omega⟩
          obtain ⟨i, hi⟩ : ∃ i, c.index = i + 1 := ⟨c.index - 1, by omega⟩
          have hk : m.outersWithin k o = m.outers o := ih k (by omega) (by omega)
          have hi' : m.outersWithin i o = m.outers o := by
            rcases Nat.lt_or_ge i (k + 1) with hik | hik
            · exact ih i hik (by omega)
            · omega
          simp only [outers, hi, outersWithin, ho, hk, hi']

theorem outers_of_outer_eq_none {m : Model} {c : ClassId} (ho : (m.entry c).outer = none) :
    m.outers c = [] := by
  unfold outers
  cases c.index <;> simp [outersWithin, ho]

theorem outers_of_outer_eq_some {m : Model} (h : m.OutersBelow) {c o : ClassId}
    (ho : (m.entry c).outer = some o) : m.outers c = o :: m.outers o := by
  have hlt := h c o ho
  obtain ⟨i, hi⟩ : ∃ i, c.index = i + 1 := ⟨c.index - 1, by omega⟩
  rw [outers, hi, outersWithin, ho]
  simp only
  rw [outersWithin_eq_outers h (by omega)]

/-- Induction from the outside in. -/
theorem outer_induction {m : Model} (h : m.OutersBelow) {P : ClassId → Prop}
    (top : ∀ c, (m.entry c).outer = none → P c)
    (inner : ∀ c o, (m.entry c).outer = some o → P o → P c) (c : ClassId) : P c := by
  induction hn : c.index using Nat.strongRecOn generalizing c with
  | _ n ih =>
      cases ho : (m.entry c).outer with
      | none => exact top c ho
      | some o => exact inner c o ho (ih o.index (hn ▸ h c o ho) o rfl)

theorem index_lt_of_mem_outers {m : Model} (h : m.OutersBelow) {c d : ClassId} (hd : d ∈ m.outers c) :
    d.index < c.index := by
  induction c using outer_induction h with
  | top c ho => simp [outers_of_outer_eq_none ho] at hd
  | inner c o ho ih =>
      have hlt := h c o ho
      rw [outers_of_outer_eq_some h ho, List.mem_cons] at hd
      rcases hd with rfl | hd
      · exact hlt
      · exact Nat.lt_trans (ih hd) hlt

theorem outers_eq_append_of_mem {m : Model} (h : m.OutersBelow) {c o : ClassId} (ho : o ∈ m.outers c) :
    ∃ inner, m.outers c = inner ++ o :: m.outers o := by
  induction c using outer_induction h with
  | top c hc => simp [outers_of_outer_eq_none hc] at ho
  | inner c d hc ih =>
      rw [outers_of_outer_eq_some h hc, List.mem_cons] at ho
      rcases ho with rfl | ho
      · exact ⟨[], outers_of_outer_eq_some h hc⟩
      · obtain ⟨inner, hi⟩ := ih ho
        exact ⟨d :: inner, by rw [outers_of_outer_eq_some h hc, hi, List.cons_append]⟩

/-- The last step down a chain of enclosing classes. -/
theorem exists_inner_of_mem_outers {m : Model} (h : m.OutersBelow) {c o : ClassId} (ho : o ∈ m.outers c) :
    ∃ d, (m.entry d).outer = some o ∧ (d = c ∨ d ∈ m.outers c) := by
  induction c using outer_induction h with
  | top c hc => simp [outers_of_outer_eq_none hc] at ho
  | inner c e hc ih =>
      rw [outers_of_outer_eq_some h hc] at ho ⊢
      rcases List.mem_cons.mp ho with rfl | ho
      · exact ⟨c, hc, Or.inl rfl⟩
      · obtain ⟨d, hd, hmem⟩ := ih ho
        exact ⟨d, hd, Or.inr (List.mem_cons.mpr hmem)⟩

theorem outers_of_outers_eq_append {m : Model} (h : m.OutersBelow) {c o : ClassId}
    {inner rest : List ClassId} (hc : m.outers c = inner ++ o :: rest) : m.outers o = rest := by
  induction inner generalizing c with
  | nil =>
      cases ho : (m.entry c).outer with
      | none => simp [outers_of_outer_eq_none ho] at hc
      | some d =>
          rw [outers_of_outer_eq_some h ho, List.nil_append] at hc
          obtain ⟨rfl, htail⟩ := List.cons.inj hc
          exact htail
  | cons d inner ih =>
      cases ho : (m.entry c).outer with
      | none => simp [outers_of_outer_eq_none ho] at hc
      | some e =>
          rw [outers_of_outer_eq_some h ho, List.cons_append] at hc
          exact ih (List.cons.inj hc).2

theorem outermost_of_outer_eq_none {m : Model} {c : ClassId} (ho : (m.entry c).outer = none) :
    m.outermost c = c := by
  simp [outermost, outers_of_outer_eq_none ho]

theorem outermost_of_mem_outers {m : Model} (h : m.OutersBelow) {c o : ClassId} (ho : o ∈ m.outers c) :
    m.outermost o = m.outermost c := by
  obtain ⟨inner, hi⟩ := outers_eq_append_of_mem h ho
  simp [outermost, hi, List.getLast?_cons]

/-- A model in which the same classes enclose each other gives every class the same chain. -/
theorem outers_congr {m n : Model} (known : ClassId → Prop)
    (hknown : ∀ c o, known c → (m.entry c).outer = some o → known o)
    (heq : ∀ c, known c → (n.entry c).outer = (m.entry c).outer) {c : ClassId} (hc : known c) :
    n.outers c = m.outers c := by
  have hwithin : ∀ (k : Nat) (d : ClassId), known d → n.outersWithin k d = m.outersWithin k d := by
    intro k
    induction k with
    | zero => intros; rfl
    | succ k ih =>
        intro d hd
        simp only [outersWithin, heq d hd]
        cases ho : (m.entry d).outer with
        | none => rfl
        | some o => simp only [ih o (hknown d o hd ho)]
  exact hwithin c.index c hc

end JavaSource.Model
