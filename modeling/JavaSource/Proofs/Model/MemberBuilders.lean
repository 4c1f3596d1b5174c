import JavaSource.Proofs.Model.Growth

/-!
# Builders of members

A builder of a class or of a method asks for something and then makes one change. Here is for each of them what it
asked for when it was not refused, and the change that it made.
-/

namespace JavaSource

theorem Except.bind_eq_ok {ε α β : Type} {x : Except ε α} {f : α → Except ε β} {b : β} :
    (x >>= f) = .ok b ↔ ∃ a, x = .ok a ∧ f a = .ok b := by
  cases x <;> simp [bind, Except.bind]

theorem checkName_bind_eq_ok {α : Type} {role : NameRole} {name : String} {f : Unit → Except ModelError α} {a : α} :
    (checkName role name >>= f) = .ok a ↔ nameFault? name = none ∧ f () = .ok a := by
  rw [Except.bind_eq_ok]
  constructor
  · rintro ⟨_, hname, h⟩
    exact ⟨checkName_eq_ok_iff.mp hname, h⟩
  · rintro ⟨hvalid, h⟩
    exact ⟨(), checkName_eq_ok_iff.mpr hvalid, h⟩

theorem addTypeParam_eq_ok {owner : String} {params new : List TypeVar} {v : TypeVar}
    (h : addTypeParam owner params v = .ok new) :
    nameFault? v.name = none ∧ v.name ∉ params.map (·.name) ∧ new = params ++ [v] := by
  rw [addTypeParam, checkName_bind_eq_ok] at h
  obtain ⟨hvalid, h⟩ := h
  split at h
  · cases h
  · rename_i hfree
    exact ⟨hvalid, by simpa using hfree, (Except.ok.inj h).symm⟩

namespace Method

def paramNames (m : Method) : List String := m.allParams.map (·.name)

theorem generify_eq_ok {m n : Method} {v : TypeVar} (h : m.generify v = .ok n) :
    nameFault? v.name = none ∧ v.name ∉ m.typeParams.map (·.name) ∧
      n = { m with typeParams := m.typeParams ++ [v] } := by
  rw [generify, Except.bind_eq_ok] at h
  obtain ⟨_, hparams, h⟩ := h
  obtain ⟨hvalid, hfree, rfl⟩ := addTypeParam_eq_ok hparams
  exact ⟨hvalid, hfree, (Except.ok.inj h).symm⟩

theorem checkParamName_eq_ok {m : Method} {name : String} (h : m.checkParamName name = .ok ()) :
    nameFault? name = none ∧ name ∉ m.paramNames := by
  rw [checkParamName, checkName_bind_eq_ok] at h
  refine ⟨h.1, fun hmem ↦ ?_⟩
  have htaken : m.allParams.any (·.name = name) = true := by simpa [paramNames] using hmem
  rw [if_pos htaken] at h
  exact nomatch h.2

theorem addParam_eq_ok {m n : Method} {mods : Modifiers} {type : JavaType} {name : String}
    (h : m.addParam mods type name = .ok n) :
    nameFault? name = none ∧ name ∉ m.paramNames ∧ m.varargs = none ∧
      n = { m with params := m.params ++ [{ mods, type, name }] } := by
  rw [addParam, Except.bind_eq_ok] at h
  obtain ⟨_, hname, h⟩ := h
  obtain ⟨hvalid, hfree⟩ := checkParamName_eq_ok hname
  split at h
  · cases h
  · rename_i hvarargs
    exact ⟨hvalid, hfree, by simpa using hvarargs, (Except.ok.inj h).symm⟩

theorem setVarargs_eq_ok {m n : Method} {type : JavaType} {name : String} (h : m.setVarargs type name = .ok n) :
    nameFault? name = none ∧ name ∉ m.paramNames ∧ m.varargs = none ∧
      n = { m with varargs := some { mods := .none, type, name } } := by
  rw [setVarargs, Except.bind_eq_ok] at h
  obtain ⟨_, hname, h⟩ := h
  obtain ⟨hvalid, hfree⟩ := checkParamName_eq_ok hname
  split at h
  · cases h
  · rename_i hvarargs
    exact ⟨hvalid, hfree, by simpa using hvarargs, (Except.ok.inj h).symm⟩

end Method

namespace ClassEntry

def fieldNames (e : ClassEntry) : List String := e.fields.map (·.name)

theorem isSome_field?_iff {e : ClassEntry} {name : String} : (e.field? name).isSome ↔ name ∈ e.fieldNames := by
  simp [field?, fieldNames]

theorem setExtends_eq_ok_iff {e f : ClassEntry} {t : JavaType} :
    e.setExtends t = .ok f ↔
      e.kind = .plain ∧ ∃ base, ClassType.ofType? t = some base ∧ f = { e with superclass := some base } := by
  by_cases hkind : e.kind = .plain
  · cases ht : ClassType.ofType? t with
    | none => simp [setExtends, hkind, ht, throw, throwThe, MonadExceptOf.throw]
    | some base => simp [setExtends, hkind, ht, pure, Except.pure, eq_comm]
  · simp [setExtends, hkind, throw, throwThe, MonadExceptOf.throw, bind, Except.bind]

theorem addInterface_eq_ok {e f : ClassEntry} {t : JavaType} (h : e.addInterface t = .ok f) :
    ∃ i, ClassType.ofType? t = some i ∧ f = { e with interfaces := addOnce e.interfaces i } := by
  rw [addInterface] at h
  split at h
  · cases h
  · rename_i i hi
    exact ⟨i, hi, (Except.ok.inj h).symm⟩

theorem generify_eq_ok {e f : ClassEntry} {v : TypeVar} (h : e.generify v = .ok f) :
    nameFault? v.name = none ∧ v.name ∉ e.typeParams.map (·.name) ∧
      f = { e with typeParams := e.typeParams ++ [v] } := by
  rw [generify, Except.bind_eq_ok] at h
  obtain ⟨_, hparams, h⟩ := h
  obtain ⟨hvalid, hfree, rfl⟩ := addTypeParam_eq_ok hparams
  exact ⟨hvalid, hfree, (Except.ok.inj h).symm⟩

theorem addField_eq_ok {e f : ClassEntry} {mods : Modifiers} {type : JavaType} {name : String}
    (h : e.addField mods type name = .ok f) :
    nameFault? name = none ∧ name ∉ e.fieldNames ∧ f = { e with fields := e.fields ++ [{ mods, type, name }] } := by
  rw [addField, checkName_bind_eq_ok] at h
  obtain ⟨hvalid, h⟩ := h
  split at h
  · cases h
  · rename_i hfree
    exact ⟨hvalid, mt isSome_field?_iff.mpr hfree, (Except.ok.inj h).symm⟩

theorem renameField_eq_ok_iff {e f : ClassEntry} {old new : String} :
    e.renameField old new = .ok f ↔
      nameFault? new = none ∧ (old = new ∨ new ∉ e.fieldNames) ∧ old ∈ e.fieldNames ∧
        f = e.modifyField old fun x ↦ { x with name := new } := by
  rw [renameField, checkName_bind_eq_ok]
  refine and_congr_right fun _ ↦ ?_
  by_cases hfree : old = new ∨ new ∉ e.fieldNames
  · have htaken : ¬ (old ≠ new ∧ (e.field? new).isSome) := fun h ↦
      hfree.elim h.1 fun hnew ↦ hnew (isSome_field?_iff.mp h.2)
    rw [if_neg htaken]
    dsimp only
    by_cases hold : old ∈ e.fieldNames
    · have hpresent : ¬ (e.field? old).isNone := by
        simpa [Option.isSome_iff_ne_none] using isSome_field?_iff.mpr hold
      rw [if_neg hpresent]
      exact ⟨fun h ↦ ⟨hfree, hold, (Except.ok.inj h).symm⟩, fun h ↦ congrArg Except.ok h.2.2.symm⟩
    · have habsent : (e.field? old).isNone := by simpa using mt isSome_field?_iff.mp hold
      rw [if_pos habsent]
      exact iff_of_false (fun h ↦ by cases h) fun h ↦ absurd h.2.1 hold
  · have htaken : old ≠ new ∧ (e.field? new).isSome := by
      rw [isSome_field?_iff]
      exact ⟨fun h ↦ hfree (Or.inl h), Classical.not_not.mp fun h ↦ hfree (Or.inr h)⟩
    rw [if_pos htaken]
    exact iff_of_false (fun h ↦ by cases h) fun h ↦ hfree h.1

theorem addMethod_eq_ok {e f : ClassEntry} {mods : Modifiers} {returnType : JavaType} {name : String}
    (h : e.addMethod mods returnType name = .ok f) :
    nameFault? name = none ∧
      f = { e with methods := e.methods ++ [{ owner := e.id, name, mods, returnType := some returnType,
                                              body := if e.startsBodiless mods then none else some [] }] } := by
  rw [addMethod, checkName_bind_eq_ok] at h
  exact ⟨h.1, (Except.ok.inj h.2).symm⟩

theorem addConstant_eq_ok {e f : ClassEntry} {name : String} (h : e.addConstant name = .ok f) :
    e.kind = .enum ∧ nameFault? name = none ∧ name ∉ e.constants.map (·.name) ∧
      f = { e with constants := e.constants ++ [⟨name, [], []⟩] } := by
  simp only [addConstant] at h
  split at h
  · cases h
  · rename_i hkind
    rw [checkName_bind_eq_ok] at h
    obtain ⟨hvalid, h⟩ := h
    split at h
    · cases h
    · rename_i hfree
      exact ⟨Classical.not_not.mp hkind, hvalid, by simpa using hfree, (Except.ok.inj h).symm⟩

/-- A change to a method that is not there changes nothing. -/
theorem updateMethod_eq_ok {e f : ClassEntry} {i : Nat} {change : Method → Except ModelError Method}
    (h : e.updateMethod i change = .ok f) :
    f = e ∨ ∃ m n, e.methods[i]? = some m ∧ change m = .ok n ∧ f = { e with methods := e.methods.set i n } := by
  rw [updateMethod] at h
  split at h
  · exact Or.inl (Except.ok.inj h).symm
  · rename_i m hm
    rw [Except.bind_eq_ok] at h
    obtain ⟨n, hn, h⟩ := h
    exact Or.inr ⟨m, n, hm, hn, (Except.ok.inj h).symm⟩

end ClassEntry
end JavaSource
