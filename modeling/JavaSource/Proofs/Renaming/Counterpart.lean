import JavaSource.Proofs.Renaming.Corresponding

/-!
# Counterparts of classes

The counterpart of a class in another model is the class with the same address. Classes that both models have
correspond to their counterparts.
-/

namespace JavaSource

/-- Whether no class of an address is anonymous. -/
def Address.IsNamed (a : Address) : Prop := ∀ x ∈ a.chain, x.2 ≠ .anonymous

namespace Model

variable {m n : Model} {c d o : ClassId}

/-- The address of the class that all classes extend. -/
def objectAddress : Address := ⟨builtinName, [("Object", .external)]⟩

theorem Extends.address_object (h : initial.Extends m) : m.address object = objectAddress := by
  rw [h.address_eq wellFormed_initial (by decide)]
  exact address_of_outer_eq_none rfl

/-- A placeholder is known by the name it was given. -/
theorem WellFormed.address_of_placeholder (hm : m.WellFormed) (hc : (m.entry c).origin = .placeholder) :
    m.address c = ⟨"", [((m.entry c).name, .placeholder)]⟩ := by
  have houter : (m.entry c).outer = none := by
    cases ho : (m.entry c).outer with
    | none => rfl
    | some o => rcases (hm.listed_inner c o ho).1 with h | h <;> rw [h] at hc <;> cases hc
  rw [address_of_outer_eq_none houter, hm.package_placeholder c hc, hm.name_rootPackage, hc]

/-- The class with an address, if there is one. -/
def ofAddress? (m : Model) (a : Address) : Option ClassId :=
  ((List.range m.classes.length).map ClassId.mk).find? fun c ↦ m.address c = a

theorem ofAddress?_eq_some (hm : m.WellFormed) (hp : m.Orderly) (hc : m.Knows c) (hnamed : (m.address c).IsNamed) :
    m.ofAddress? (m.address c) = some c := by
  have hmem : c ∈ (List.range m.classes.length).map ClassId.mk :=
    List.mem_map.mpr ⟨c.index, List.mem_range.mpr hc, rfl⟩
  have hsome : (m.ofAddress? (m.address c)).isSome := List.find?_isSome.mpr ⟨c, hmem, by simp⟩
  obtain ⟨d, hd⟩ := Option.isSome_iff_exists.mp hsome
  have haddress : m.address d = m.address c := by simpa using List.find?_some hd
  have hknown : m.Knows d := by
    obtain ⟨i, hi, rfl⟩ := List.mem_map.mp (List.mem_of_find?_eq_some hd)
    exact List.mem_range.mp hi
  rw [hd, hm.eq_of_address_eq hp hknown hc (haddress ▸ hnamed) haddress]

/-- Both models have a class with the address, and there is only one. -/
def Shared (m n : Model) (c : ClassId) : Prop :=
  m.Knows c ∧ (m.address c).IsNamed ∧ ∃ d, n.Knows d ∧ n.address d = m.address c

/-- The class of the second model with the address of a class of the first. A class that the second model does not
have gets a handle that is not in use there. -/
def counterpart (m n : Model) (c : ClassId) : ClassId :=
  if c.index < m.classes.length ∧ ∀ x ∈ (m.address c).chain, x.2 ≠ .anonymous then
    (n.ofAddress? (m.address c)).getD ⟨n.classes.length + c.index⟩
  else ⟨n.classes.length + c.index⟩

variable (hm : m.WellFormed) (hp : m.Orderly) (hn : n.WellFormed) (hq : n.Orderly)

section

include hn hq

theorem counterpart_eq (hc : m.Knows c) (hnamed : (m.address c).IsNamed) (hd : n.Knows d)
    (haddress : n.address d = m.address c) : m.counterpart n c = d := by
  have hfind := ofAddress?_eq_some hn hq hd (haddress ▸ hnamed)
  rw [counterpart, if_pos ⟨hc, hnamed⟩, ← haddress, hfind]
  rfl

theorem Shared.knows_counterpart (h : m.Shared n c) : n.Knows (m.counterpart n c) := by
  obtain ⟨hc, hnamed, d, hd, haddress⟩ := h
  rw [counterpart_eq hn hq hc hnamed hd haddress]
  exact hd

theorem Shared.address_counterpart (h : m.Shared n c) : n.address (m.counterpart n c) = m.address c := by
  obtain ⟨hc, hnamed, d, hd, haddress⟩ := h
  rw [counterpart_eq hn hq hc hnamed hd haddress, haddress]

theorem Shared.head_eq (h : m.Shared n c) :
    (n.entry (m.counterpart n c)).name = (m.entry c).name ∧
      (n.entry (m.counterpart n c)).origin = (m.entry c).origin :=
  Prod.mk.inj (List.cons.inj (congrArg Address.chain (h.address_counterpart hn hq))).1

theorem Shared.outer_eq_none (h : m.Shared n c) (houter : (m.entry c).outer = none) :
    (n.entry (m.counterpart n c)).outer = none := by
  have haddress := h.address_counterpart hn hq
  rw [address_of_outer_eq_none houter] at haddress
  cases houter' : (n.entry (m.counterpart n c)).outer with
  | none => rfl
  | some o' =>
      rw [hn.address_of_outer_eq_some houter'] at haddress
      simp [address] at haddress

include hm

/-- A class around a class that both models have is in both models as well. -/
theorem Shared.outer_eq_some (h : m.Shared n c) (houter : (m.entry c).outer = some o) :
    m.Shared n o ∧ (n.entry (m.counterpart n c)).outer = some (m.counterpart n o) := by
  have haddress := h.address_counterpart hn hq
  have hnamed := h.2.1
  rw [hm.address_of_outer_eq_some houter] at haddress hnamed
  have hnamed' : (m.address o).IsNamed := fun x hx ↦ hnamed x (List.mem_cons_of_mem _ hx)
  cases houter' : (n.entry (m.counterpart n c)).outer with
  | none =>
      rw [address_of_outer_eq_none houter'] at haddress
      simp [address] at haddress
  | some o' =>
      rw [hn.address_of_outer_eq_some houter'] at haddress
      obtain ⟨hpackage, hchain⟩ := Address.mk.inj haddress
      have hsame : n.address o' = m.address o := congrArg₂ Address.mk hpackage (List.cons.inj hchain).2
      have hknown := (hn.knows_of_outer houter').2
      exact ⟨⟨(hm.knows_of_outer houter).2, hnamed', o', hknown, hsame⟩,
        by rw [counterpart_eq hn hq (hm.knows_of_outer houter).2 hnamed' hknown hsame]⟩

end

theorem counterpart_of_not_shared (h : ¬ m.Shared n c) : m.counterpart n c = ⟨n.classes.length + c.index⟩ := by
  unfold counterpart
  split
  · rename_i hc
    cases hfind : n.ofAddress? (m.address c) with
    | none => rfl
    | some d =>
        refine absurd ⟨hc.1, hc.2, d, ?_, by simpa using List.find?_some hfind⟩ h
        obtain ⟨i, hi, rfl⟩ := List.mem_map.mp (List.mem_of_find?_eq_some hfind)
        exact List.mem_range.mp hi
  · rfl

include hm hp hn hq

theorem counterpart_injective : Function.Injective (m.counterpart n) := by
  have hfresh : ∀ c, ¬ m.Shared n c → ¬ n.Knows (m.counterpart n c) := fun c hc hknows ↦ by
    rw [counterpart_of_not_shared hc] at hknows
    exact Nat.not_lt.mpr (Nat.le_add_right ..) hknows
  intro c d h
  by_cases hc : m.Shared n c
  · by_cases hd : m.Shared n d
    · refine hm.eq_of_address_eq hp hc.1 hd.1 hc.2.1 ?_
      rw [← hc.address_counterpart hn hq, h, hd.address_counterpart hn hq]
    · exact absurd (h ▸ hc.knows_counterpart hn hq) (hfresh d hd)
  · by_cases hd : m.Shared n d
    · exact absurd (h.symm ▸ hd.knows_counterpart hn hq) (hfresh c hc)
    · rw [counterpart_of_not_shared hc, counterpart_of_not_shared hd, ClassId.mk.injEq] at h
      exact ClassId.eq_of_index_eq (by omega)

/-- Classes that both models have correspond to their counterparts, if the defined ones are of the same kinds. -/
theorem corresponds_counterpart (hobject : m.address object = objectAddress)
    (hobject' : n.address object = objectAddress)
    (hkind : ∀ c d, m.Knows c → n.Knows d → (m.entry c).origin = .defined → n.address d = m.address c →
      (n.entry d).kind = (m.entry c).kind) :
    m.Corresponds n (m.counterpart n) (m.Shared n) where
  injective := counterpart_injective hm hp hn hq
  object_eq := by
    refine counterpart_eq hn hq hm.knows_object ?_ hn.knows_object (hobject'.trans hobject.symm)
    rw [hobject]
    exact List.forall_mem_singleton.mpr nofun
  knows := fun c hc ↦ hc.1
  knows' := fun c hc ↦ hc.knows_counterpart hn hq
  named := fun c hc ↦ hc.2.1 _ (List.mem_cons_self ..)
  name_eq := fun c hc ↦ (hc.head_eq hn hq).1
  kind_eq := fun c hc ↦ by
    by_cases hdefined : (m.entry c).origin = .defined
    · exact hkind c _ hc.1 (hc.knows_counterpart hn hq) hdefined (hc.address_counterpart hn hq)
    · rw [hp.kind_eq c hdefined, hq.kind_eq _ ((hc.head_eq hn hq).2 ▸ hdefined)]
  origin_eq := fun c hc ↦ (hc.head_eq hn hq).2
  packageName_eq := fun c hc ↦ congrArg Address.package (hc.address_counterpart hn hq)
  outer_eq := fun c hc ↦ by
    cases houter : (m.entry c).outer with
    | some o => exact (hc.outer_eq_some hm hn hq houter).2
    | none => exact hc.outer_eq_none hn hq houter
  outer_mem := fun c o hc houter ↦ (hc.outer_eq_some hm hn hq houter).1

end Model
end JavaSource
