/-!
# Tables

Values under names, in the order in which the names were first given. A new value for a known name takes the
place of the old one.
-/

namespace JavaSource

structure Table (α : Type) where
  entries : List (String × α) := []

namespace Table

variable {α : Type}

def empty : Table α := ⟨[]⟩

instance : Inhabited (Table α) := ⟨empty⟩

def keys (t : Table α) : List String := t.entries.map (·.1)

def values (t : Table α) : List α := t.entries.map (·.2)

def size (t : Table α) : Nat := t.entries.length

def isEmpty (t : Table α) : Bool := t.entries.isEmpty

def find (name : String) : List (String × α) → Option α
  | [] => none
  | (n, a) :: rest => if n = name then some a else find name rest

def get? (t : Table α) (name : String) : Option α := find name t.entries

def contains (t : Table α) (name : String) : Bool := (t.get? name).isSome

def put (name : String) (a : α) : List (String × α) → List (String × α)
  | [] => [(name, a)]
  | (n, b) :: rest => if n = name then (name, a) :: rest else (n, b) :: put name a rest

def insert (t : Table α) (name : String) (a : α) : Table α := ⟨put name a t.entries⟩

@[simp] theorem get?_empty (name : String) : (empty : Table α).get? name = none := rfl

theorem find_put (name other : String) (a : α) (l : List (String × α)) :
    find other (put name a l) = if name = other then some a else find other l := by
  induction l with
  | nil => simp [put, find]
  | cons e rest ih =>
    obtain ⟨n, b⟩ := e
    by_cases h : n = name
    · subst h
      by_cases ho : n = other <;> simp [put, find, ho]
    · by_cases ho : n = other
      · subst ho
        simp [put, find, h, Ne.symm h]
      · simp [put, find, h, ho, ih]

@[simp] theorem get?_insert (t : Table α) (name other : String) (a : α) :
    (t.insert name a).get? other = if name = other then some a else t.get? other :=
  find_put name other a t.entries

theorem find_eq_none_iff {name : String} {l : List (String × α)} :
    find name l = none ↔ name ∉ l.map (·.1) := by
  induction l with
  | nil => simp [find]
  | cons e rest ih =>
    obtain ⟨n, b⟩ := e
    by_cases h : n = name
    · simp [find, h]
    · rw [find, if_neg h, ih]
      simp [Ne.symm h]

theorem get?_eq_none_iff {t : Table α} {name : String} : t.get? name = none ↔ name ∉ t.keys :=
  find_eq_none_iff

theorem mem_of_find {name : String} {a : α} {l : List (String × α)} (h : find name l = some a) :
    (name, a) ∈ l := by
  induction l with
  | nil => simp [find] at h
  | cons e rest ih =>
    obtain ⟨n, b⟩ := e
    by_cases hn : n = name
    · simp_all [find]
    · simp only [find, if_neg hn] at h
      exact List.mem_cons_of_mem _ (ih h)

theorem mem_put {name : String} {a : α} {l : List (String × α)} {x : String × α} (h : x ∈ put name a l) :
    x ∈ l ∨ x = (name, a) := by
  induction l with
  | nil => exact Or.inr (List.mem_singleton.mp h)
  | cons e rest ih =>
    rw [put] at h
    split at h
    · rcases List.mem_cons.mp h with rfl | h
      · exact Or.inr rfl
      · exact Or.inl (List.mem_cons_of_mem _ h)
    · rcases List.mem_cons.mp h with rfl | h
      · exact Or.inl List.mem_cons_self
      · exact (ih h).imp_left (List.mem_cons_of_mem _)

theorem put_of_notMem {name : String} {a : α} {l : List (String × α)} (h : name ∉ l.map (·.1)) :
    put name a l = l ++ [(name, a)] := by
  induction l with
  | nil => rfl
  | cons e rest ih =>
    obtain ⟨n, b⟩ := e
    simp only [List.map_cons, List.mem_cons, not_or] at h
    simp [put, Ne.symm h.1, ih h.2]

theorem map_fst_put_of_mem {name : String} {a : α} {l : List (String × α)}
    (h : name ∈ l.map (·.1)) : (put name a l).map (·.1) = l.map (·.1) := by
  induction l with
  | nil => simp at h
  | cons e rest ih =>
    obtain ⟨n, b⟩ := e
    by_cases hn : n = name
    · simp [put, hn]
    · simp only [List.map_cons, List.mem_cons, Ne.symm hn, false_or] at h
      simp [put, hn, ih h]

theorem entries_insert_of_notMem {t : Table α} {name : String} {a : α} (h : name ∉ t.keys) :
    (t.insert name a).entries = t.entries ++ [(name, a)] :=
  put_of_notMem h

theorem keys_insert_of_mem {t : Table α} {name : String} {a : α} (h : name ∈ t.keys) :
    (t.insert name a).keys = t.keys :=
  map_fst_put_of_mem h

theorem keys_insert_of_notMem {t : Table α} {name : String} {a : α} (h : name ∉ t.keys) :
    (t.insert name a).keys = t.keys ++ [name] := by
  rw [keys, entries_insert_of_notMem h, List.map_append]
  rfl

theorem nodup_keys_insert {t : Table α} {name : String} {a : α} (ht : t.keys.Nodup) :
    (t.insert name a).keys.Nodup := by
  by_cases h : name ∈ t.keys
  · rwa [keys_insert_of_mem h]
  · rw [keys_insert_of_notMem h]
    refine List.nodup_append.mpr ⟨ht, by simp, ?_⟩
    rintro x hx y hy rfl
    exact h (List.mem_singleton.mp hy ▸ hx)

theorem mem_entries_insert {t : Table α} {name : String} {a : α} {x : String × α}
    (h : x ∈ (t.insert name a).entries) : x ∈ t.entries ∨ x = (name, a) :=
  mem_put h

theorem mem_entries_insert_of_get?_eq_none {t : Table α} {name : String} {a : α}
    (h : t.get? name = none) {x : String × α} :
    x ∈ (t.insert name a).entries ↔ x ∈ t.entries ∨ x = (name, a) := by
  rw [entries_insert_of_notMem (get?_eq_none_iff.mp h), List.mem_append, List.mem_singleton]

theorem mem_entries_of_get? {t : Table α} {name : String} {a : α} (h : t.get? name = some a) :
    (name, a) ∈ t.entries :=
  mem_of_find h

theorem get?_of_mem_entries {t : Table α} (ht : t.keys.Nodup) {name : String} {a : α}
    (h : (name, a) ∈ t.entries) : t.get? name = some a := by
  obtain ⟨l⟩ := t
  induction l with
  | nil => simp at h
  | cons e rest ih =>
    obtain ⟨n, b⟩ := e
    have hnd : n ∉ rest.map (·.1) ∧ (rest.map (·.1)).Nodup := by simpa [keys] using ht
    rcases List.mem_cons.mp h with heq | h
    · obtain ⟨rfl, rfl⟩ := Prod.mk.inj heq
      simp [get?, find]
    · have hne : n ≠ name := by
        rintro rfl
        exact hnd.1 (List.mem_map.mpr ⟨(n, a), h, rfl⟩)
      have := ih hnd.2 h
      simpa [get?, find, hne] using this

theorem mem_values {t : Table α} {a : α} : a ∈ t.values ↔ ∃ name, (name, a) ∈ t.entries := by
  simp [values]

end Table
end JavaSource
