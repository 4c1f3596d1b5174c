import JavaSource.Proofs.Model.MemberTables

/-!
# Fields under their names

The fields of a class stand in a table under their names. To rename one, it is taken out of the table and put back
under its new name at its old place. Done along with the class itself, these steps always lead to the fields of the
class, each under the name that it has.
-/

namespace JavaSource

theorem insertIdx_length_append {α : Type} (before after : List α) (a : α) :
    (before ++ after).insertIdx before.length a = before ++ a :: after := by
  induction before with
  | nil => rfl
  | cons b before ih => rw [List.cons_append, List.length_cons, List.insertIdx_succ_cons, ih, List.cons_append]

namespace Table

variable {α : Type}

/-- Changes the value under a name. -/
def adjust (t : Table α) (name : String) (f : α → α) : Table α :=
  ⟨t.entries.map fun x ↦ if x.1 = name then (x.1, f x.2) else x⟩

/-- The place and the value of a name, and the table without them. What comes after moves up. -/
def extract? (t : Table α) (name : String) : Option (Nat × α × Table α) :=
  (t.entries.findIdx? (·.1 = name)).bind fun i ↦
    t.entries[i]?.map fun x ↦ (i, x.2, ⟨t.entries.eraseIdx i⟩)

/-- Puts a value under a name at a place. A name that is there already moves to that place. -/
def insertAt (t : Table α) (i : Nat) (name : String) (a : α) : Table α :=
  ⟨(t.entries.filter (·.1 ≠ name)).insertIdx i (name, a)⟩

theorem contains_iff {t : Table α} {name : String} : t.contains name ↔ name ∈ t.keys := by
  rw [contains, Option.isSome_iff_ne_none, ne_eq, get?_eq_none_iff, not_not]

theorem extract?_of_notMem {t : Table α} {name : String} (h : name ∉ t.keys) : t.extract? name = none := by
  have hnone : t.entries.findIdx? (·.1 = name) = none := by
    rw [List.findIdx?_eq_none_iff]
    exact fun x hx ↦ decide_eq_false fun hname ↦ h (hname ▸ List.mem_map_of_mem hx)
  rw [extract?, hnone, Option.bind_none]

theorem extract?_append {before after : List (String × α)} {name : String} (a : α)
    (h : name ∉ before.map (·.1)) :
    extract? ⟨before ++ (name, a) :: after⟩ name = some (before.length, a, ⟨before ++ after⟩) := by
  have hbefore : before.findIdx? (·.1 = name) = none := by
    rw [List.findIdx?_eq_none_iff]
    exact fun x hx ↦ decide_eq_false fun hname ↦ h (hname ▸ List.mem_map_of_mem hx)
  have hfind : (before ++ (name, a) :: after).findIdx? (·.1 = name) = some before.length := by
    simp [List.findIdx?_append, hbefore, List.findIdx?_cons]
  simp [extract?, hfind, List.eraseIdx_append_of_length_le]

theorem insertAt_append {before after : List (String × α)} {name : String} (a : α)
    (hbefore : name ∉ before.map (·.1)) (hafter : name ∉ after.map (·.1)) :
    insertAt ⟨before ++ after⟩ before.length name a = ⟨before ++ (name, a) :: after⟩ := by
  have hkept : (before ++ after).filter (·.1 ≠ name) = before ++ after := by
    rw [List.filter_eq_self]
    intro x hx
    rcases List.mem_append.mp hx with hx | hx
    · exact decide_eq_true fun hname ↦ hbefore (hname ▸ List.mem_map_of_mem hx)
    · exact decide_eq_true fun hname ↦ hafter (hname ▸ List.mem_map_of_mem hx)
  rw [insertAt, hkept, insertIdx_length_append]

end Table

/-! ## The builders on a table -/

namespace FieldTable

def add (owner : String) (t : Table Field) (mods : Modifiers) (type : JavaType) (name : String) :
    Except ModelError (Table Field) := do
  checkName .field name
  if t.contains name then
    throw (.nameTaken name (.fields owner))
  return t.insert name { mods, type, name }

def rename (owner : String) (t : Table Field) (old new : String) : Except ModelError (Table Field) := do
  checkName .field new
  if old ≠ new ∧ t.contains new then
    throw (.nameTaken new (.fields owner))
  match t.extract? old with
  | none => throw (.state (.noField owner old))
  | some (i, f, rest) => return rest.insertAt i new { f with name := new }

end FieldTable

/-- What a change to the members of a class does to the table of its fields. -/
def MemberStep.applyKeyed (owner : String) (t : Table Field) : MemberStep → Except ModelError (Table Field)
  | .field mods type name => FieldTable.add owner t mods type name
  | .adjustField name mods type init lines =>
    .ok (t.adjust name fun f ↦ { f with mods, type, init, javadoc := lines })
  | .renameField old new => FieldTable.rename owner t old new
  | .annotate (.field name) u => .ok (t.adjust name (·.annotate u))
  | _ => .ok t

/-- What an operation does to the table of the fields of a class. -/
def Operation.stepKeyed (c : ClassId) (m : Model) (t : Table Field) : Operation → Table Field
  | .member d s => if d = c then (s.applyKeyed (m.entry c).name t).toOption.getD t else t
  | _ => t

/-- The table of the fields of a class after a run. -/
def Model.runKeyed (c : ClassId) : Model → Table Field → List Operation → Table Field
  | _, t, [] => t
  | m, t, o :: os => runKeyed c (o.step m) (o.stepKeyed c m t) os

/-! ## The table of a class -/

namespace ClassEntry

/-- The fields of a class, each under its name. -/
def keyedFields (e : ClassEntry) : Table Field := ⟨e.fields.map fun f ↦ (f.name, f)⟩

theorem keys_keyedFields (e : ClassEntry) : e.keyedFields.keys = e.fieldNames := by
  simp [keyedFields, Table.keys, fieldNames]

theorem values_keyedFields (e : ClassEntry) : e.keyedFields.values = e.fields := by
  simp [keyedFields, Table.values, Function.comp_def]

theorem key_eq_of_mem_keyedFields {e : ClassEntry} {x : String × Field} (hx : x ∈ e.keyedFields.entries) :
    x.1 = x.2.name := by
  obtain ⟨f, -, rfl⟩ := List.mem_map.mp hx
  rfl

theorem contains_keyedFields {e : ClassEntry} {name : String} :
    e.keyedFields.contains name ↔ (e.field? name).isSome := by
  rw [Table.contains_iff, keys_keyedFields, isSome_field?_iff]

theorem add_keyedFields (e : ClassEntry) (mods : Modifiers) (type : JavaType) (name : String) :
    FieldTable.add e.name e.keyedFields mods type name = (e.addField mods type name).map keyedFields := by
  rw [FieldTable.add, addField]
  cases checkName .field name with
  | error fault => rfl
  | ok _ =>
      show (if e.keyedFields.contains name then _ else _) = Except.map _ (if (e.field? name).isSome then _ else _)
      by_cases htaken : (e.field? name).isSome
      · rw [if_pos htaken, if_pos (contains_keyedFields.mpr htaken)]
        rfl
      · have hfree : ¬ e.keyedFields.contains name := mt contains_keyedFields.mp htaken
        rw [if_neg htaken, if_neg hfree]
        have hentries := Table.entries_insert_of_notMem (a := { mods, type, name }) (mt Table.contains_iff.mpr hfree)
        refine congrArg Except.ok (congrArg Table.mk (hentries.trans ?_))
        simp [keyedFields]

theorem adjust_keyedFields {f : Field → Field} (hf : ∀ x, (f x).name = x.name) (e : ClassEntry) (name : String) :
    e.keyedFields.adjust name f = (e.modifyField name f).keyedFields := by
  simp only [Table.adjust, keyedFields, modifyField, List.map_map]
  refine congrArg Table.mk (List.map_congr_left fun x _ ↦ ?_)
  simp only [Function.comp_apply]
  split
  · rw [hf]
  · rfl

/-- The one field of a name, between those before it and those after it. -/
theorem exists_fields_eq {e : ClassEntry} (he : e.fieldNames.Nodup) {name : String} (hname : name ∈ e.fieldNames) :
    ∃ before x after, e.fields = before ++ x :: after ∧ x.name = name ∧
      name ∉ before.map (·.name) ∧ name ∉ after.map (·.name) := by
  obtain ⟨x, hx, rfl⟩ := List.mem_map.mp hname
  obtain ⟨before, after, hfields⟩ := List.append_of_mem hx
  rw [fieldNames, hfields, List.map_append, List.map_cons, List.nodup_middle, List.nodup_cons, List.mem_append,
    not_or] at he
  exact ⟨before, x, after, hfields, rfl, he.1⟩

theorem fields_modifyField_of_eq {e : ClassEntry} {before after : List Field} {x : Field}
    (hfields : e.fields = before ++ x :: after) (hbefore : x.name ∉ before.map (·.name))
    (hafter : x.name ∉ after.map (·.name)) (f : Field → Field) :
    (e.modifyField x.name f).fields = before ++ f x :: after := by
  have hkept : ∀ l : List Field, x.name ∉ l.map (·.name) → l.map (fun y ↦ if y.name = x.name then f y else y) = l := by
    intro l hl
    refine (List.map_congr_left fun y hy ↦ if_neg fun hname ↦ hl ?_).trans (List.map_id l)
    exact hname ▸ List.mem_map_of_mem hy
  rw [modifyField, hfields, List.map_append, List.map_cons, hkept before hbefore, hkept after hafter, if_pos rfl]

/-- A renamed field keeps its place and its contents, and so does everything else. -/
theorem exists_fields_of_renameField {e f : ClassEntry} (he : e.fieldNames.Nodup) {old new : String}
    (h : e.renameField old new = .ok f) :
    ∃ before x after, e.fields = before ++ x :: after ∧ x.name = old ∧
      f = { e with fields := before ++ { x with name := new } :: after } := by
  obtain ⟨-, -, hold, rfl⟩ := renameField_eq_ok_iff.mp h
  obtain ⟨before, x, after, hfields, rfl, hbefore, hafter⟩ := exists_fields_eq he hold
  refine ⟨before, x, after, hfields, rfl, ?_⟩
  rw [← fields_modifyField_of_eq hfields hbefore hafter fun y ↦ { y with name := new }]
  rfl

theorem keyedFields_of_eq {e : ClassEntry} {before after : List Field} {x : Field}
    (hfields : e.fields = before ++ x :: after) :
    e.keyedFields = ⟨before.map (fun f ↦ (f.name, f)) ++ (x.name, x) :: after.map fun f ↦ (f.name, f)⟩ := by
  rw [keyedFields, hfields, List.map_append, List.map_cons]

/-- The field that is taken out of the table goes back to its place under the new name. -/
theorem exists_extract?_eq {e : ClassEntry} (he : e.fieldNames.Nodup) {old new : String} (hold : old ∈ e.fieldNames)
    (hnew : old = new ∨ new ∉ e.fieldNames) :
    ∃ i x rest, e.keyedFields.extract? old = some (i, x, rest) ∧
      rest.insertAt i new { x with name := new } = (e.modifyField old fun f ↦ { f with name := new }).keyedFields := by
  obtain ⟨before, x, after, hfields, rfl, hbefore, hafter⟩ := exists_fields_eq he hold
  have hkeys : ∀ l : List Field, (l.map fun f ↦ (f.name, f)).map (·.1) = l.map (·.name) := fun l ↦ by
    rw [List.map_map]
    rfl
  -- A new name that is not the old one stands nowhere in the class.
  have hfree : new ∉ before.map (·.name) ∧ new ∉ after.map (·.name) := by
    rcases hnew with rfl | hnew
    · exact ⟨hbefore, hafter⟩
    · rw [fieldNames, hfields, List.map_append, List.map_cons, List.mem_append, List.mem_cons] at hnew
      tauto
  have hextract : e.keyedFields.extract? x.name =
      some ((before.map fun f ↦ (f.name, f)).length, x,
        ⟨before.map (fun f ↦ (f.name, f)) ++ after.map fun f ↦ (f.name, f)⟩) := by
    rw [keyedFields_of_eq hfields]
    exact Table.extract?_append x (by rwa [hkeys])
  refine ⟨_, x, _, hextract, ?_⟩
  rw [keyedFields_of_eq (fields_modifyField_of_eq hfields hbefore hafter _)]
  apply Table.insertAt_append
  · rw [hkeys]
    exact hfree.1
  · rw [hkeys]
    exact hfree.2

theorem rename_keyedFields {e : ClassEntry} (he : e.fieldNames.Nodup) (old new : String) :
    FieldTable.rename e.name e.keyedFields old new = (e.renameField old new).map keyedFields := by
  rw [FieldTable.rename, renameField]
  cases checkName .field new with
  | error fault => rfl
  | ok _ =>
      show (if old ≠ new ∧ e.keyedFields.contains new then _ else _) =
        Except.map _ (if old ≠ new ∧ (e.field? new).isSome then _ else _)
      by_cases htaken : old ≠ new ∧ (e.field? new).isSome
      · rw [if_pos htaken, if_pos ⟨htaken.1, contains_keyedFields.mpr htaken.2⟩]
        rfl
      · rw [if_neg htaken, if_neg fun h ↦ htaken ⟨h.1, contains_keyedFields.mp h.2⟩]
        show _ = Except.map _ (if (e.field? old).isNone then _ else _)
        by_cases hold : old ∈ e.fieldNames
        · have hnew : old = new ∨ new ∉ e.fieldNames := by
            rw [← isSome_field?_iff]
            tauto
          obtain ⟨i, x, rest, hextract, hinsert⟩ := exists_extract?_eq he hold hnew
          have hpresent : ¬ (e.field? old).isNone := by
            simpa [Option.isSome_iff_ne_none] using isSome_field?_iff.mpr hold
          rw [hextract, if_neg hpresent]
          exact congrArg Except.ok hinsert
        · have habsent : (e.field? old).isNone := by simpa using mt isSome_field?_iff.mp hold
          have hextract := Table.extract?_of_notMem (t := e.keyedFields) (by rwa [keys_keyedFields])
          rw [hextract, if_pos habsent]
          rfl

end ClassEntry

/-! ## Runs -/

/-- Whether a change is one to the fields. -/
def MemberStep.isOnFields : MemberStep → Bool
  | .field _ _ _ | .adjustField _ _ _ _ _ | .renameField _ _ | .annotate (.field _) _ => true
  | _ => false

theorem MemberStep.applyKeyed_of_not_isOnFields {s : MemberStep} (hs : s.isOnFields = false) (owner : String)
    (t : Table Field) : s.applyKeyed owner t = .ok t := by
  cases s with
  | field | adjustField | renameField => cases hs
  | annotate target u =>
      cases target with
      | field name => cases hs
      | type | method | param => rfl
  | _ => rfl

theorem MemberStep.fields_of_not_isOnFields {e f : ClassEntry} {s : MemberStep} (hs : s.isOnFields = false)
    (h : s.apply e = .ok f) : f.fields = e.fields := by
  cases s with
  | field | adjustField | renameField => cases hs
  | annotate target u =>
      cases h
      cases target with
      | field name => cases hs
      | type | method | param => rfl
  | modifiers _ | constructor _ | adjustConstant _ _ | initBlock _ _ | javadoc _ =>
      cases h
      rfl
  | superclass t =>
      obtain ⟨-, _, -, rfl⟩ := ClassEntry.setExtends_eq_ok_iff.mp h
      rfl
  | implement t =>
      obtain ⟨_, -, rfl⟩ := ClassEntry.addInterface_eq_ok h
      rfl
  | typeParam v =>
      obtain ⟨-, -, rfl⟩ := ClassEntry.generify_eq_ok h
      rfl
  | method mods returnType name =>
      obtain ⟨-, rfl⟩ := ClassEntry.addMethod_eq_ok h
      rfl
  | constant name =>
      obtain ⟨-, -, -, rfl⟩ := ClassEntry.addConstant_eq_ok h
      rfl
  | inMethod i s =>
      obtain rfl | ⟨_, _, -, -, rfl⟩ := ClassEntry.updateMethod_eq_ok h <;> rfl

/-- On fields, a change does the same to the table as to the class, and is refused for the same reasons. -/
theorem MemberStep.applyKeyed_of_isOnFields {e : ClassEntry} (he : e.fieldNames.Nodup) {s : MemberStep}
    (hs : s.isOnFields = true) : s.applyKeyed e.name e.keyedFields = (s.apply e).map ClassEntry.keyedFields := by
  cases s with
  | field mods type name => exact e.add_keyedFields mods type name
  | renameField old new => exact ClassEntry.rename_keyedFields he old new
  | adjustField name mods type init lines =>
      exact congrArg Except.ok (ClassEntry.adjust_keyedFields
        (f := fun x ↦ { x with mods, type, init, javadoc := lines }) (fun _ ↦ rfl) e name)
  | annotate target u =>
      cases target with
      | field name =>
          exact congrArg Except.ok (ClassEntry.adjust_keyedFields (f := (·.annotate u)) (fun _ ↦ rfl) e name)
      | type | method | param => cases hs
  | _ => cases hs

/-- The table follows the class, whether the change is made or refused. -/
theorem MemberStep.getD_applyKeyed {e : ClassEntry} (he : e.fieldNames.Nodup) (s : MemberStep) :
    (s.applyKeyed e.name e.keyedFields).toOption.getD e.keyedFields = ((s.apply e).toOption.getD e).keyedFields := by
  cases hs : s.isOnFields with
  | true =>
      rw [applyKeyed_of_isOnFields he hs]
      cases s.apply e <;> rfl
  | false =>
      rw [applyKeyed_of_not_isOnFields hs]
      cases h : s.apply e with
      | error fault => rfl
      | ok f =>
          have hfields := fields_of_not_isOnFields hs h
          simp only [ClassEntry.keyedFields, Except.toOption, Option.getD_some, hfields]

namespace Model

variable {m n : Model}

theorem Addition.fields_eq {s : Sites} (h : Addition s m n) (c : ClassId) :
    (n.entry c).fields = (m.entry c).fields := by
  cases h with
  | package _ => rfl
  | «class» he hn _ =>
      by_cases hold : m.Knows c
      · rw [hn.entry_old c hold]
      · rw [entry_of_not_knows hold]
        by_cases hnew : c = m.nextClass
        · rw [hnew, hn.entry_new, he.bare.fields]
          rfl
        · rw [entry_of_not_knows fun h ↦ (hn.knows_iff.mp h).elim hold hnew]

theorem fields_eq_of_grown {s : Sites} (h : Relation.ReflTransGen (Addition s) m n) (c : ClassId) :
    (n.entry c).fields = (m.entry c).fields := by
  induction h with
  | refl => rfl
  | tail _ hlast ih => exact (hlast.fields_eq c).trans ih

theorem stepKeyed_keyedFields (hm : m.Reachable) {o : Operation} (ho : m.Admits o) (c : ClassId) :
    o.stepKeyed c m (m.entry c).keyedFields = ((o.step m).entry c).keyedFields := by
  cases o with
  | member d s =>
      have hd : m.Knows d := ho.1 (.class d) List.mem_cons_self d List.mem_cons_self
      rw [exec_member]
      by_cases hdc : d = c
      · subst hdc
        rw [Operation.stepKeyed, if_pos rfl, MemberStep.getD_applyKeyed (hm.nodup_fieldNames d)]
        cases s.apply (m.entry d) with
        | error fault => rfl
        | ok e =>
            simp only [entry_modifyClass, hd, and_self, if_true]
            rfl
      · rw [Operation.stepKeyed, if_neg hdc]
        cases s.apply (m.entry d) with
        | error fault => rfl
        | ok e => simp only [entry_modifyClass_ne m hdc]
  | package _ | define _ _ _ _ | anonymous _ | reference _ | referenceIn _ _ | referenceNested _ _ | placeholder _ =>
      have hgrown := (step_cases hm.wellFormed ho).resolve_left (by rintro ⟨_, _, _, h, -⟩; cases h)
      exact congrArg (fun l : List Field ↦ Table.mk (l.map fun f ↦ (f.name, f))) (fields_eq_of_grown hgrown c).symm

/-- Along a run, the table of a class and the class come to the same fields. -/
theorem runKeyed_keyedFields (hm : m.Reachable) {os : List Operation} (hos : m.AdmitsAll os) (c : ClassId) :
    runKeyed c m (m.entry c).keyedFields os = ((m.run os).entry c).keyedFields := by
  induction os generalizing m with
  | nil => rfl
  | cons o os ih =>
      rw [runKeyed, stepKeyed_keyedFields hm hos.1]
      exact ih (hm.step hos.1) hos.2

/-- At every time of a run, the tables of a class are consistent. Its fields stand in their table under the names they
have. A field can be renamed to every valid name that no other field has, and then changes its name and nothing
else. -/
theorem member_tables_consistent {os : List Operation} (hos : initial.AdmitsAll os) (c : ClassId) :
    ((initial.run os).entry c).Consistent ∧
    (runKeyed c initial {} os).values = ((initial.run os).entry c).fields ∧
    (∀ x ∈ (runKeyed c initial {} os).entries, x.1 = x.2.name) ∧
    (∀ old new, (∃ e, ((initial.run os).entry c).renameField old new = .ok e) ↔
      nameFault? new = none ∧ (old = new ∨ new ∉ ((initial.run os).entry c).fieldNames) ∧
        old ∈ ((initial.run os).entry c).fieldNames) ∧
    ∀ old new e, ((initial.run os).entry c).renameField old new = .ok e →
      ∃ before x after, ((initial.run os).entry c).fields = before ++ x :: after ∧ x.name = old ∧
        e = { (initial.run os).entry c with fields := before ++ { x with name := new } :: after } := by
  have hstart : (initial.entry c).keyedFields = {} := by
    rw [ClassEntry.keyedFields, (isMemberless_initial c).fields]
    rfl
  have htable : runKeyed c initial {} os = ((initial.run os).entry c).keyedFields := by
    rw [← hstart]
    exact runKeyed_keyedFields .initial hos c
  have hconsistent := consistent_run os c
  refine ⟨hconsistent, ?_, ?_, fun old new ↦ ?_, fun old new e he ↦ ?_⟩
  · rw [htable, ClassEntry.values_keyedFields]
  · rw [htable]
    exact fun x hx ↦ ClassEntry.key_eq_of_mem_keyedFields hx
  · simp only [ClassEntry.renameField_eq_ok_iff, exists_and_left, exists_eq, and_true]
  · exact ClassEntry.exists_fields_of_renameField hconsistent.fields.nodup he

/-- Two fields, of which the first is renamed. It is then refused the name of the other, which keeps its own, and there
is no third one. -/
def renamedFields : List Operation :=
  [.define (.package rootPackage) .none "T" .plain, .member ⟨1⟩ (.field .none (.primitive .int) "a"),
    .member ⟨1⟩ (.field .none (.primitive .int) "b"), .member ⟨1⟩ (.renameField "a" "c"),
    .member ⟨1⟩ (.renameField "c" "b"), .member ⟨1⟩ (.renameField "b" "b"), .member ⟨1⟩ (.renameField "a" "d")]

theorem member_tables_consistent_renamedFields :
    initial.AdmitsAll renamedFields ∧
    ((initial.run renamedFields).entry ⟨1⟩).Consistent ∧
    (runKeyed ⟨1⟩ initial {} renamedFields).keys = ["c", "b"] ∧
    (runKeyed ⟨1⟩ initial {} renamedFields).values = ((initial.run renamedFields).entry ⟨1⟩).fields ∧
    (∃ e before x after, ((initial.run renamedFields).entry ⟨1⟩).renameField "b" "e" = .ok e ∧
      ((initial.run renamedFields).entry ⟨1⟩).fields = before ++ x :: after ∧ x.name = "b" ∧
      e = { (initial.run renamedFields).entry ⟨1⟩ with fields := before ++ { x with name := "e" } :: after }) := by
  have hos : initial.AdmitsAll renamedFields := by decide +kernel
  obtain ⟨hconsistent, hvalues, -, hrenames, heffect⟩ := member_tables_consistent hos ⟨1⟩
  obtain ⟨e, he⟩ := (hrenames "b" "e").mpr ⟨by decide +kernel, Or.inr (by decide +kernel), by decide +kernel⟩
  obtain ⟨before, x, after, hfields, hname, heq⟩ := heffect "b" "e" e he
  exact ⟨hos, hconsistent, by decide +kernel, hvalues, e, before, x, after, he, hfields, hname, heq⟩

end Model
end JavaSource
