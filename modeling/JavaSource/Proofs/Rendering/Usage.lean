import JavaSource.Rendering.Usage

/-!
# The table of names in use

The table that is built from the events of a unit holds a class under its name exactly if an event names the
class, and marks a name as an identifier exactly if an event is that identifier.
-/

namespace JavaSource.UsageTable

/-- The class is referred to or declared under the name. -/
def Records (t : UsageTable) (name : String) (c : ClassId) : Prop := c ∈ (t.usage name).refs

def RecordsIdentifier (t : UsageTable) (name : String) : Prop := (t.usage name).asIdentifier = true

instance (t : UsageTable) (name : String) (c : ClassId) : Decidable (t.Records name c) :=
  inferInstanceAs (Decidable (_ ∈ _))

instance (t : UsageTable) (name : String) : Decidable (t.RecordsIdentifier name) :=
  inferInstanceAs (Decidable (_ = _))

/-- What every table of names in use is like: each name is there for a class or as an identifier, and no class
is there twice. -/
structure Lawful (t : UsageTable) : Prop where
  keys : t.keys.Nodup
  refs : ∀ name, (t.usage name).refs.Nodup
  used : ∀ name u, t.get? name = some u → u.refs = [] → u.asIdentifier = true

variable {m : Model} {t : UsageTable}

theorem usage_insert (t : UsageTable) (name other : String) (u : Usage) :
    usage (t.insert name u) other = if name = other then u else t.usage other := by
  simp only [usage, Table.get?_insert]
  split <;> rfl

theorem usage_of_get? {name : String} {u : Usage} (h : t.get? name = some u) : t.usage name = u := by
  simp [usage, h]

theorem usage_of_get?_eq_none {name : String} (h : t.get? name = none) : t.usage name = {} := by
  simp [usage, h]

theorem records_addClass {name other : String} {c d : ClassId} :
    (t.addClass name c).Records other d ↔ t.Records other d ∨ (name = other ∧ d = c) := by
  simp only [Records, addClass, usage_insert]
  split
  · rename_i h
    simp [h]
  · rename_i h
    simp [h]

theorem records_record {e : Event} {name : String} {c : ClassId} :
    (record m t e).Records name c ↔
      t.Records name c ∨ ((m.entry c).name = name ∧ (e = .reference c ∨ e = .declared c)) := by
  cases e with
  | identifier other =>
      simp only [record, Records, addIdentifier, usage_insert]
      split
      · rename_i h
        simp [h]
      · simp
  | reference d | declared d =>
      simp only [record, records_addClass, reduceCtorEq, Event.reference.injEq, Event.declared.injEq,
        false_or, or_false]
      refine or_congr_right ⟨?_, ?_⟩ <;> rintro ⟨rfl, rfl⟩ <;> exact ⟨rfl, rfl⟩
  | text _ | newline | indent | outdent => simp [record]

theorem recordsIdentifier_record {e : Event} {name : String} :
    (record m t e).RecordsIdentifier name ↔ t.RecordsIdentifier name ∨ e = .identifier name := by
  cases e with
  | identifier other =>
      simp only [record, RecordsIdentifier, addIdentifier, usage_insert, Event.identifier.injEq]
      split
      · rename_i h
        simp [h]
      · rename_i h
        simp [h]
  | reference d | declared d =>
      simp only [record, RecordsIdentifier, addClass, usage_insert, reduceCtorEq, or_false]
      split
      · rename_i h
        simp [h]
      · rfl
  | text _ | newline | indent | outdent => simp [record]

theorem lawful_empty : Lawful ({} : UsageTable) where
  keys := List.nodup_nil
  refs _ := List.nodup_nil
  used _ _ h := nomatch h

theorem Lawful.insert (h : t.Lawful) (name : String) {u : Usage} (hrefs : u.refs.Nodup)
    (hused : u.refs = [] → u.asIdentifier = true) : Lawful (t.insert name u) where
  keys := Table.nodup_keys_insert h.keys
  refs other := by
    rw [usage_insert]
    split
    · exact hrefs
    · exact h.refs other
  used other v hv := by
    rw [Table.get?_insert] at hv
    split at hv
    · exact Option.some.inj hv ▸ hused
    · exact h.used other v hv

theorem Lawful.record (h : t.Lawful) (m : Model) (e : Event) : (record m t e).Lawful := by
  cases e with
  | identifier name => exact h.insert name (h.refs name) fun _ ↦ rfl
  | reference c | declared c =>
      refine h.insert _ (nodup_addOnce (h.refs _)) fun hnil ↦ ?_
      have hc : c ∈ addOnce (t.usage (m.entry c).name).refs c := mem_addOnce.mpr (Or.inr rfl)
      exact absurd hc (List.eq_nil_iff_forall_not_mem.mp hnil c)
  | text _ | newline | indent | outdent => exact h

theorem records_foldl {events : List Event} {name : String} {c : ClassId} :
    Records (events.foldl (record m) t) name c ↔ t.Records name c ∨
      ((m.entry c).name = name ∧ (.reference c ∈ events ∨ .declared c ∈ events)) := by
  induction events generalizing t with
  | nil => simp
  | cons e rest ih =>
      rw [List.foldl_cons, ih, records_record]
      simp only [List.mem_cons, eq_comm (a := e)]
      grind

theorem recordsIdentifier_foldl {events : List Event} {name : String} :
    RecordsIdentifier (events.foldl (record m) t) name ↔
      t.RecordsIdentifier name ∨ .identifier name ∈ events := by
  induction events generalizing t with
  | nil => simp
  | cons e rest ih =>
      rw [List.foldl_cons, ih, recordsIdentifier_record, List.mem_cons, or_assoc, eq_comm (a := e)]

theorem lawful_foldl (h : t.Lawful) (events : List Event) : Lawful (events.foldl (record m) t) := by
  induction events generalizing t with
  | nil => exact h
  | cons e rest ih => exact ih (h.record m e)

theorem records_ofEvents {events : List Event} {name : String} {c : ClassId} :
    (ofEvents m events).Records name c ↔
      (m.entry c).name = name ∧ (.reference c ∈ events ∨ .declared c ∈ events) := by
  rw [ofEvents, records_foldl]
  exact or_iff_right List.not_mem_nil

theorem recordsIdentifier_ofEvents {events : List Event} {name : String} :
    (ofEvents m events).RecordsIdentifier name ↔ .identifier name ∈ events := by
  rw [ofEvents, recordsIdentifier_foldl]
  exact or_iff_right Bool.false_ne_true

theorem lawful_ofEvents (m : Model) (events : List Event) : (ofEvents m events).Lawful :=
  lawful_foldl lawful_empty events

end JavaSource.UsageTable
