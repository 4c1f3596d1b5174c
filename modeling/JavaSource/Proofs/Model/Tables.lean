import JavaSource.Proofs.Model.Step

/-!
# Handles and name tables

A handle is the place of its entry, and a name in a table leads to the entry that has the name there. Both hold
in every model that callers can build, and the other way round as well: an entry that belongs into a table is
found in it, and only there.
-/

namespace JavaSource.Model

/-- The second class directly encloses the first. -/
def Encloses (m : Model) (c o : ClassId) : Prop := (m.entry c).outer = some o

/-- What holds between the entries of a model and its tables of names. -/
structure TablesAgree (m : Model) : Prop where
  id_eq : ∀ c, m.Knows c → (m.entry c).id = c
  packageNames : (m.packages.map (·.name)).Nodup
  classKeys : ∀ p, (m.packageEntry p).classes.keys.Nodup
  nestedKeys : ∀ o, (m.entry o).nested.keys.Nodup
  of_mem_classes : ∀ p n c, (n, c) ∈ (m.packageEntry p).classes.entries →
    m.Knows c ∧ (m.entry c).IsListed ∧ (m.entry c).name = n ∧ (m.entry c).package = p ∧
      (m.entry c).outer = none
  of_mem_nested : ∀ o n c, (n, c) ∈ (m.entry o).nested.entries →
    m.Knows c ∧ (m.entry c).IsListed ∧ (m.entry c).name = n ∧ m.Encloses c o ∧
      (m.entry c).package = (m.entry o).package ∧ o.index < c.index
  mem_classes : ∀ c, m.Knows c → (m.entry c).IsListed → (m.entry c).outer = none →
    m.KnowsPackage (m.entry c).package ∧
      ((m.entry c).name, c) ∈ (m.packageEntry (m.entry c).package).classes.entries
  mem_nested : ∀ c o, m.Encloses c o →
    m.Knows o ∧ (m.entry c).IsListed ∧ ((m.entry c).name, c) ∈ (m.entry o).nested.entries
  /-- Placeholders and anonymous classes stand alone. -/
  unlisted : ∀ c, m.Knows c → ¬ (m.entry c).IsListed → (m.entry c).outer = none ∧
    (∀ p n, (n, c) ∉ (m.packageEntry p).classes.entries) ∧
      ∀ o n, (n, c) ∉ (m.entry o).nested.entries
  outer_defined : ∀ c o, m.Encloses c o → (m.entry c).origin = .defined → (m.entry o).origin = .defined
  nested_defined : ∀ o n c, (m.entry o).origin = .defined → (n, c) ∈ (m.entry o).nested.entries →
    (m.entry c).origin = .defined
  apart : ∀ c o, (m.entry c).origin = .defined → Relation.TransGen m.Encloses c o →
    (m.entry o).name ≠ (m.entry c).name

variable {m : Model}

theorem mem_outers_of_encloses (hm : m.OutersBelow) {c o : ClassId}
    (h : Relation.TransGen m.Encloses c o) : o ∈ m.outers c := by
  induction h using Relation.TransGen.head_induction_on with
  | single hco =>
      rw [outers_of_outer_eq_some hm hco]
      exact List.mem_cons_self ..
  | head hcd _ ih =>
      rw [outers_of_outer_eq_some hm hcd]
      exact List.mem_cons_of_mem _ ih

theorem WellFormed.tablesAgree_of_wellFormed (hm : m.WellFormed) : m.TablesAgree where
  id_eq := hm.id_eq
  packageNames := hm.packageNames
  classKeys := hm.classKeys
  nestedKeys := hm.nestedKeys
  of_mem_classes := hm.of_mem_classes
  of_mem_nested o n c hc := by
    obtain ⟨hknown, hlisted, hname, hpackage, houter⟩ := hm.of_mem_nested o n c hc
    exact ⟨hknown, hlisted, hname, houter, hpackage, hm.outer_below c o houter⟩
  mem_classes c hc hlisted houter := by
    have hget := hm.listed_top c hc hlisted houter
    exact ⟨hm.package_known c hc, Table.mem_entries_of_get? hget⟩
  mem_nested c o ho := by
    obtain ⟨hlisted, hget⟩ := hm.listed_inner c o ho
    exact ⟨(hm.knows_of_outer ho).2, hlisted, Table.mem_entries_of_get? hget⟩
  unlisted c _ hlisted := by
    refine ⟨?_, fun p n hc ↦ hlisted (hm.of_mem_classes p n c hc).2.1, fun o n hc ↦
      hlisted (hm.of_mem_nested o n c hc).2.1⟩
    cases ho : (m.entry c).outer with
    | none => rfl
    | some o => exact absurd (hm.listed_inner c o ho).1 hlisted
  outer_defined c o ho := (hm.outer_defined c o ho).mp
  nested_defined o n c ho hc := by
    have houter := (hm.of_mem_nested o n c hc).2.2.2.2
    exact (hm.outer_defined c o houter).mpr ho
  apart c o hc ho := hm.apart c hc o (mem_outers_of_encloses hm.outer_below ho)

/-- In every model that callers can build, handles and name tables agree. -/
theorem Reachable.tablesAgree (hm : m.Reachable) : m.TablesAgree :=
  hm.wellFormed.tablesAgree_of_wellFormed

/-- Classes inside a defined class, an external one, an anonymous one and a placeholder. -/
def nestedEverywhere : List Operation :=
  [.package "p", .define (.package ⟨2⟩) .none "T" .plain, .define (.class ⟨1⟩) .none "U" .enum,
    .reference "q.C$D", .anonymous (.reference ⟨1⟩), .referenceNested ⟨5⟩ "X", .placeholder "y.Y",
    .referenceNested ⟨7⟩ "X"]

theorem tablesAgree_nestedEverywhere :
    (initial.run nestedEverywhere).Reachable ∧ (initial.run nestedEverywhere).TablesAgree ∧
      ("X", ⟨6⟩) ∈ ((initial.run nestedEverywhere).entry ⟨5⟩).nested.entries ∧
      ((initial.run nestedEverywhere).entry ⟨6⟩).package = ⟨2⟩ := by
  have hreachable : (initial.run nestedEverywhere).Reachable := .run .initial (by decide +kernel)
  have hagree := hreachable.tablesAgree
  have hmem : ("X", ⟨6⟩) ∈ ((initial.run nestedEverywhere).entry ⟨5⟩).nested.entries := by
    decide +kernel
  have hpackage : ((initial.run nestedEverywhere).entry ⟨5⟩).package = ⟨2⟩ := by decide +kernel
  exact ⟨hreachable, hagree, hmem, hpackage ▸ (hagree.of_mem_nested ⟨5⟩ "X" ⟨6⟩ hmem).2.2.2.2.1⟩

end JavaSource.Model
