import Mathlib.Data.List.Nodup
import Mathlib.Data.List.Perm.Subperm
import JavaSource.Model.Descent

/-!
# Where walks end

A walk through known classes that has been at all of them is back at one it is still at. So it never runs out
of depth before it stops of its own accord, and two walks with the same steps give the same value however deep
they may go.
-/

namespace JavaSource

/-- A path without repetitions that is as long as there are classes holds all of them. -/
theorem mem_path_of_length_le {path : List ClassId} {bound : Nat} (hnodup : path.Nodup)
    (hpath : ∀ d ∈ path, d.index < bound) (hlength : bound ≤ path.length) {c : ClassId}
    (hc : c.index < bound) : c ∈ path := by
  by_contra hmem
  have hindices : ((c :: path).map ClassId.index).Nodup := by
    exact List.Nodup.map (fun _ _ h ↦ ClassId.eq_of_index_eq h) (List.nodup_cons.mpr ⟨hmem, hnodup⟩)
  have hrange : (c :: path).map ClassId.index ⊆ List.range bound := by
    intro i hi
    obtain ⟨d, hd, rfl⟩ := List.mem_map.mp hi
    rcases List.mem_cons.mp hd with rfl | hd
    · exact List.mem_range.mpr hc
    · exact List.mem_range.mpr (hpath d hd)
  have hle := (hindices.subperm hrange).length_le
  simp only [List.length_map, List.length_cons, List.length_range] at hle
  omega

/-- A path whose classes have other handles that are as many as there are classes holds all of them. -/
theorem mem_path_of_length_le_map {f : ClassId → ClassId} (hf : Function.Injective f) {path : List ClassId}
    {bound : Nat} (hnodup : path.Nodup) (hpath : ∀ d ∈ path, (f d).index < bound) (hlength : bound ≤ path.length)
    {c : ClassId} (hc : (f c).index < bound) : c ∈ path := by
  have hmem := mem_path_of_length_le (hnodup.map hf) (List.forall_mem_map.mpr hpath) (by rwa [List.length_map]) hc
  exact (List.mem_map_of_injective hf).mp hmem

variable {α β : Type} {R : α → β → Prop} {again : ClassId → α} {again' : ClassId → β}
  {step : (ClassId → α) → ClassId → α} {step' : (ClassId → β) → ClassId → β} {bound bound' : Nat}

/-- Two walks through known classes are related when their steps are. The second walk may know the classes by
other handles. -/
theorem descend_rel_map {f : ClassId → ClassId} (hf : Function.Injective f) (known : ClassId → Prop)
    (hknown : ∀ c, known c → c.index < bound) (hknown' : ∀ c, known c → (f c).index < bound')
    (hagain : ∀ c, known c → R (again c) (again' (f c)))
    (hstep : ∀ c g g', known c → (∀ d, known d → R (g d) (g' (f d))) → R (step g c) (step' g' (f c)))
    {n n' : Nat} {path : List ClassId} (hnodup : path.Nodup) (hpath : ∀ d ∈ path, known d)
    (hn : bound ≤ n + path.length) (hn' : bound' ≤ n' + path.length) {c : ClassId} (hc : known c) :
    R (descend again step n path c) (descend again' step' n' (path.map f) (f c)) := by
  have hmap : f c ∈ path.map f ↔ c ∈ path := List.mem_map_of_injective hf
  by_cases hmem : c ∈ path
  · cases n <;> cases n' <;> simpa [descend, hmem, hmap] using hagain c hc
  · induction n generalizing n' path c with
    | zero =>
        refine absurd (mem_path_of_length_le hnodup (fun d hd ↦ hknown d (hpath d hd)) ?_ (hknown c hc)) hmem
        omega
    | succ n ih =>
        cases n' with
        | zero =>
            refine absurd (mem_path_of_length_le_map hf hnodup (fun d hd ↦ hknown' d (hpath d hd)) ?_
              (hknown' c hc)) hmem
            omega
        | succ n' =>
            simp only [descend, hmem, hmap, if_false]
            refine hstep c _ _ hc fun d hd ↦ ?_
            have hnodup' : (c :: path).Nodup := List.nodup_cons.mpr ⟨hmem, hnodup⟩
            have hpath' : ∀ e ∈ c :: path, known e := List.forall_mem_cons.mpr ⟨hc, hpath⟩
            have hmap' : f d ∈ (c :: path).map f ↔ d ∈ c :: path := List.mem_map_of_injective hf
            rw [← List.map_cons]
            by_cases hd' : d ∈ c :: path
            · cases n <;> cases n' <;> simpa only [descend, hd', hmap', if_true] using hagain d hd
            · refine ih hnodup' hpath' ?_ ?_ hd hmap' hd'
              · simp only [List.length_cons]
                omega
              · simp only [List.length_cons]
                omega

theorem descend_rel (known : ClassId → Prop) (hknown : ∀ c, known c → c.index < bound)
    (hagain : ∀ c, known c → R (again c) (again' c))
    (hstep : ∀ c f g, known c → (∀ d, known d → R (f d) (g d)) → R (step f c) (step' g c))
    {n n' : Nat} {path : List ClassId} (hnodup : path.Nodup) (hpath : ∀ d ∈ path, known d)
    (hn : bound ≤ n + path.length) (hn' : bound ≤ n' + path.length) {c : ClassId} (hc : known c) :
    R (descend again step n path c) (descend again' step' n' path c) := by
  have h := descend_rel_map (f := id) Function.injective_id known hknown hknown hagain hstep hnodup hpath hn hn' hc
  rwa [List.map_id] at h

/-- What holds for the values at which a walk turns back and is kept by its steps holds for all its values, however
deep it goes and wherever it has been. -/
theorem descend_of {P : ClassId → α → Prop} (hagain : ∀ c, P c (again c))
    (hstep : ∀ f c, (∀ d, P d (f d)) → P c (step f c)) (n : Nat) (path : List ClassId) (c : ClassId) :
    P c (descend again step n path c) := by
  induction n generalizing path c with
  | zero => exact hagain c
  | succ n ih =>
      rw [descend]
      split
      · exact hagain c
      · exact hstep _ c fun d ↦ ih (c :: path) d

end JavaSource
