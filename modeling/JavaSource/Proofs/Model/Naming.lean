import JavaSource.Proofs.Model.Descent
import JavaSource.Proofs.Model.Frame

/-!
# Where names come from

The name of a class is made from the name of one other class at most: its base when it is anonymous, the class
around it otherwise. Where going from class to class in this way comes to an end, the name is what the recursion
over these classes gives, with no watch kept on how deep it goes or where it has been.
-/

namespace JavaSource

namespace Model

variable {m : Model} {c d : ClassId} {separator : String}

/-- The class whose name the name of a class is made from. -/
def nameSource? (m : Model) (c : ClassId) : Option ClassId :=
  let e := m.entry c
  match e.origin, e.superclass with
  | .placeholder, _ => none
  | .anonymous, some base => some base.basis
  | _, _ => e.outer

/-- The name of the class `c` is made from that of the class `d`. -/
def NamedAfter (m : Model) (c d : ClassId) : Prop := m.nameSource? c = some d

/-- The recursion for the name of a class, given up when it goes deeper than so many classes. -/
def nameWithin (m : Model) (separator : String) : Nat → ClassId → Option String
  | 0, _ => none
  | n + 1, c =>
    let e := m.entry c
    match e.origin, e.superclass, e.outer with
    | .placeholder, _, _ => some e.name
    | .anonymous, some base, _ => m.nameWithin separator n base.basis
    | _, _, some o => (m.nameWithin separator n o).map (· ++ separator ++ e.name)
    | _, _, none => some (m.packaged e.package e.name)

/-- Going from class to class for the name of a class comes to an end. -/
def HasNameEnd (m : Model) (c : ClassId) : Prop := Acc (fun d c ↦ m.NamedAfter c d) c

/-- The name of a class depends on no other name than that of its source. -/
theorem nameStep_congr {f g : ClassId → String} (h : ∀ d, m.NamedAfter c d → f d = g d) :
    m.nameStep separator f c = m.nameStep separator g c := by
  unfold NamedAfter nameSource? at h
  simp only [nameStep]
  split <;> simp_all

theorem nameWithin_of_nameSource?_eq_none (h : m.nameSource? c = none) (f : ClassId → String) (k : Nat) :
    m.nameWithin separator (k + 1) c = some (m.nameStep separator f c) := by
  simp only [nameSource?] at h
  simp only [nameWithin, nameStep]
  split <;> simp_all

theorem nameWithin_of_namedAfter (h : m.NamedAfter c d) (k : Nat) :
    m.nameWithin separator (k + 1) c =
      (m.nameWithin separator k d).map fun name ↦ m.nameStep separator (fun _ ↦ name) c := by
  simp only [NamedAfter, nameSource?] at h
  simp only [nameWithin, nameStep]
  split <;> simp_all

theorem nameWithin_mono {k l : Nat} (hkl : k ≤ l) {name : String} (h : m.nameWithin separator k c = some name) :
    m.nameWithin separator l c = some name := by
  induction k generalizing l c name with
  | zero => cases h
  | succ k ih =>
      obtain ⟨l, rfl⟩ : ∃ j, l = j + 1 := ⟨l - 1, by omega⟩
      cases hd : m.nameSource? c with
      | none =>
          rw [nameWithin_of_nameSource?_eq_none hd fun _ ↦ ""] at h ⊢
          exact h
      | some d =>
          rw [nameWithin_of_namedAfter hd, Option.map_eq_some_iff] at h ⊢
          obtain ⟨name', hname', rfl⟩ := h
          exact ⟨name', ih (Nat.le_of_succ_le_succ hkl) hname', rfl⟩

/-- The recursion gives no other name when it may go deeper. -/
theorem eq_of_nameWithin {k l : Nat} {name name' : String} (h : m.nameWithin separator k c = some name)
    (h' : m.nameWithin separator l c = some name') : name = name' := by
  have hk := nameWithin_mono (Nat.le_max_left k l) h
  have hl := nameWithin_mono (Nat.le_max_right k l) h'
  exact Option.some.inj (hk.symm.trans hl)

/-- A recursion that gives a name has come to an end. -/
theorem hasNameEnd_of_nameWithin {k : Nat} {name : String} (h : m.nameWithin separator k c = some name) :
    m.HasNameEnd c := by
  induction k generalizing c name with
  | zero => cases h
  | succ k ih =>
      refine Acc.intro c fun d hd ↦ ?_
      rw [nameWithin_of_namedAfter hd, Option.map_eq_some_iff] at h
      obtain ⟨name', hname', _⟩ := h
      exact ih hname'

theorem HasNameEnd.not_transGen (h : m.HasNameEnd c) : ¬ Relation.TransGen m.NamedAfter c c := by
  induction h with
  | intro c _ ih =>
      intro hloop
      obtain ⟨d, hcd, hdc⟩ := Relation.TransGen.head'_iff.mp hloop
      exact ih d hcd (.tail' hdc hcd)

theorem namedAfter_cases (h : m.NamedAfter c d) :
    ((m.entry c).origin = .anonymous ∧ ∃ base, (m.entry c).superclass = some base ∧ base.basis = d) ∨
      (m.entry c).outer = some d := by
  simp only [NamedAfter, nameSource?] at h
  split at h
  · cases h
  · rename_i base horigin hs
    exact Or.inl ⟨horigin, base, hs, Option.some.inj h⟩
  · exact Or.inr h

theorem NamedAfter.knows (h : m.NamedAfter c d) : m.Knows c := by
  by_contra hc
  rcases namedAfter_cases h with ⟨_, _, hs, _⟩ | ho
  · rw [entry_of_not_knows hc] at hs
    cases hs
  · rw [entry_of_not_knows hc] at ho
    cases ho

theorem knows_basis_of_superclass {e : ClassEntry} (hmentions : ∀ x ∈ e.mentions, ∀ c ∈ x.classes, m.Knows c)
    {base : ClassType} (hs : e.superclass = some base) : m.Knows base.basis := by
  have hx : Mention.type base.toType ∈ e.mentions := by
    refine ClassEntry.mem_mentions.mpr (Or.inr (Or.inr (Or.inl ?_)))
    simp [hs, ClassType.mentions]
  exact knows_basis_of_ofType? (ClassType.ofType?_toType base) (hmentions _ hx)

theorem WellFormed.knows_of_superclass (hm : m.WellFormed) {base : ClassType}
    (hs : (m.entry c).superclass = some base) : m.Knows base.basis :=
  knows_basis_of_superclass (hm.mentions_known c) hs

theorem WellFormed.knows_of_namedAfter (hm : m.WellFormed) (h : m.NamedAfter c d) : m.Knows d := by
  rcases namedAfter_cases h with ⟨_, base, hs, rfl⟩ | ho
  · exact hm.knows_of_superclass hs
  · exact (hm.knows_of_outer ho).2

/-- On its way to the end, the walk for a name is never back at a class that it comes from. -/
theorem HasNameEnd.exists_nameWithin_eq_descend (hm : m.WellFormed) (hc : m.HasNameEnd c) (hknown : m.Knows c)
    {k : Nat} {path : List ClassId} (hnodup : path.Nodup)
    (hpath : ∀ p ∈ path, m.Knows p ∧ Relation.TransGen m.NamedAfter p c)
    (hk : m.classes.length ≤ k + path.length) :
    ∃ l, m.nameWithin separator l c =
      some (descend (fun d ↦ (m.entry d).name) (m.nameStep separator) k path c) := by
  -- Every class of the path leads to `c`, so one that is met again would lead to itself.
  induction hc generalizing k path with
  | intro c hacc ih =>
      have hmem : c ∉ path := fun hmem ↦ HasNameEnd.not_transGen (Acc.intro c hacc) (hpath c hmem).2
      cases k with
      | zero =>
          have hall := mem_path_of_length_le hnodup (fun p hp ↦ (hpath p hp).1) (by omega) hknown
          exact absurd hall hmem
      | succ k =>
          rw [descend, if_neg hmem]
          cases hd : m.nameSource? c with
          | none => exact ⟨1, nameWithin_of_nameSource?_eq_none hd _ 0⟩
          | some d =>
              have hpath' : ∀ p ∈ c :: path, m.Knows p ∧ Relation.TransGen m.NamedAfter p d :=
                List.forall_mem_cons.mpr ⟨⟨hknown, .single hd⟩, fun p hp ↦ ⟨(hpath p hp).1, (hpath p hp).2.tail hd⟩⟩
              have hk' : m.classes.length ≤ k + (c :: path).length := by
                rw [List.length_cons]
                omega
              obtain ⟨l, hl⟩ := ih d hd (hm.knows_of_namedAfter hd) (List.nodup_cons.mpr ⟨hmem, hnodup⟩) hpath' hk'
              refine ⟨l + 1, ?_⟩
              rw [nameWithin_of_namedAfter hd, hl, Option.map_some]
              refine congrArg some (nameStep_congr fun e he ↦ ?_)
              obtain rfl : d = e := Option.some.inj (hd.symm.trans he)
              rfl

theorem HasNameEnd.exists_nameWithin (hm : m.WellFormed) (hc : m.HasNameEnd c) (hknown : m.Knows c)
    (separator : String) : ∃ k, m.nameWithin separator k c = some (m.qualifiedName separator c) :=
  hc.exists_nameWithin_eq_descend hm hknown List.nodup_nil nofun (Nat.le_refl _)

/-- Where the walk for a name ends, the name is made from the name of its source. -/
theorem HasNameEnd.qualifiedName_eq (hm : m.WellFormed) (hc : m.HasNameEnd c) (hknown : m.Knows c)
    (separator : String) : m.qualifiedName separator c = m.nameStep separator (m.qualifiedName separator) c := by
  obtain ⟨k, hk⟩ := hc.exists_nameWithin hm hknown separator
  replace hk := nameWithin_mono (Nat.le_succ k) hk
  cases hd : m.nameSource? c with
  | none =>
      rw [nameWithin_of_nameSource?_eq_none hd (m.qualifiedName separator)] at hk
      exact (Option.some.inj hk).symm
  | some d =>
      have hend : m.HasNameEnd d := hc.inv hd
      obtain ⟨l, hl⟩ := hend.exists_nameWithin hm (hm.knows_of_namedAfter hd) separator
      rw [nameWithin_of_namedAfter hd, Option.map_eq_some_iff] at hk
      obtain ⟨name, hname, hk⟩ := hk
      obtain rfl := eq_of_nameWithin hname hl
      rw [← hk]
      refine nameStep_congr fun e he ↦ ?_
      obtain rfl : d = e := Option.some.inj (hd.symm.trans he)
      rfl

end Model
end JavaSource
