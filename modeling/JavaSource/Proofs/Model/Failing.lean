import JavaSource.Proofs.Model.Call
import JavaSource.Proofs.Model.Lookup

/-!
# Calls that fail

A call that fails leaves the model as it was. Most calls check everything before they change anything. To refer to
a class by its binary name enters package and classes one after the other, so there the names are walked through
first, and what passes the walk is entered without a fault.
-/

namespace JavaSource

namespace Build

variable {α β : Type}

/-- A step that leaves the model as it was when it fails. -/
def IsAtomic (b : Build α) : Prop := ∀ m e, (b.exec m).1 = .error e → (b.exec m).2 = m

/-- A step that never changes the model. -/
def IsReading (b : Build α) : Prop := ∀ m, (b.exec m).2 = m

/-- A step that never fails. -/
def IsTotal (b : Build α) : Prop := ∀ m, ∃ a, (b.exec m).1 = .ok a

theorem isReading_get : IsReading (get : Build Model) := fun _ ↦ rfl

theorem isReading_liftExcept (x : Except ModelError α) : IsReading (liftExcept x : Build α) := by
  intro m
  rw [exec_liftExcept]

theorem isReading_throw (e : ModelError) : IsReading (throw e : Build α) := fun _ ↦ rfl

theorem IsReading.isAtomic {b : Build α} (h : b.IsReading) : b.IsAtomic := fun m _ _ ↦ h m

theorem IsTotal.isAtomic {b : Build α} (h : b.IsTotal) : b.IsAtomic := by
  intro m e he
  obtain ⟨a, ha⟩ := h m
  rw [ha] at he
  cases he

theorem isTotal_pure (a : α) : IsTotal (pure a : Build α) := fun _ ↦ ⟨a, rfl⟩

theorem isTotal_set (m : Model) : IsTotal (set m : Build PUnit) := fun _ ↦ ⟨_, rfl⟩

theorem IsTotal.bind {b : Build α} {f : α → Build β} (hb : b.IsTotal) (hf : ∀ a, (f a).IsTotal) :
    (b >>= f).IsTotal := by
  intro m
  obtain ⟨a, ha⟩ := hb m
  rw [exec_bind]
  rcases h : b.exec m with ⟨_ | a', n⟩
  · rw [h] at ha
    cases ha
  · exact hf a' n

/-- Changes that are all made at once. -/
theorem isAtomic_set_pure (n : Model) (a : α) : IsAtomic (do set n; return a) :=
  ((isTotal_set n).bind fun _ ↦ isTotal_pure a).isAtomic

/-- What is read first changes nothing, so only what comes after counts. -/
theorem IsAtomic.bind_reading {b : Build α} {f : α → Build β} (hb : b.IsReading) (hf : ∀ a, (f a).IsAtomic) :
    (b >>= f).IsAtomic := by
  intro m e he
  have hm := hb m
  rw [exec_bind] at he ⊢
  rcases h : b.exec m with ⟨_ | a, n⟩
  · rw [h] at hm
    exact hm
  · rw [h] at he hm
    obtain rfl : n = m := hm
    exact hf a n e he

/-- Nothing fails after a step that may. -/
theorem IsAtomic.bind_total {b : Build α} {f : α → Build β} (hb : b.IsAtomic) (hf : ∀ a, (f a).IsTotal) :
    (b >>= f).IsAtomic := by
  intro m e he
  have hm := hb m
  rw [exec_bind] at he ⊢
  rcases h : b.exec m with ⟨fault | a, n⟩
  · rw [h] at hm
    exact hm fault rfl
  · rw [h] at he
    obtain ⟨x, hx⟩ := hf a n
    rw [hx] at he
    cases he

theorem IsAtomic.map {b : Build α} (hb : b.IsAtomic) (f : α → β) : (f <$> b).IsAtomic := by
  rw [map_eq_pure_bind]
  exact hb.bind_total fun a ↦ isTotal_pure (f a)

end Build

namespace Model

open Build (IsAtomic)

variable {m : Model}

/-! ## Steps that check first -/

theorem isTotal_package (name : String) : (package name).IsTotal := by
  intro m
  unfold package
  rw [Build.exec_bind, Build.exec_get]
  simp only
  split
  · exact ⟨_, rfl⟩
  · exact ⟨_, rfl⟩

theorem isTotal_placeholder (name : String) : (placeholder name).IsTotal := by
  intro m
  unfold placeholder
  rw [Build.exec_bind, Build.exec_get]
  simp only
  split
  · exact ⟨_, rfl⟩
  · exact ⟨_, rfl⟩

theorem isAtomic_defineClass (owner : Owner) (mods : Modifiers) (name : String) (kind : ClassKind) :
    (defineClass owner mods name kind).IsAtomic := by
  unfold defineClass
  refine .bind_reading (Build.isReading_liftExcept _) fun _ ↦ .bind_reading Build.isReading_get fun m ↦ ?_
  split
  · exact (Build.isReading_throw _).isAtomic
  · cases owner with
    | package p => exact Build.isAtomic_set_pure _ _
    | «class» c => exact Build.isAtomic_set_pure _ _

theorem isAtomic_anonymousClass (base : JavaType) : (anonymousClass base).IsAtomic := by
  unfold anonymousClass
  refine .bind_reading Build.isReading_get fun m ↦ ?_
  split
  · exact (Build.isReading_throw _).isAtomic
  · exact Build.isAtomic_set_pure _ _

theorem isAtomic_referenceIn (p : PackageId) (name : String) : (referenceIn p name).IsAtomic := by
  unfold referenceIn
  refine .bind_reading Build.isReading_get fun m ↦ ?_
  split
  · exact (Build.isTotal_pure _).isAtomic
  · exact .bind_reading (Build.isReading_liftExcept _) fun _ ↦ Build.isAtomic_set_pure _ _

theorem isAtomic_referenceNested (outer : ClassId) (name : String) : (referenceNested outer name).IsAtomic := by
  unfold referenceNested
  refine .bind_reading Build.isReading_get fun m ↦ ?_
  have henter : IsAtomic (do
      liftExcept (checkName .type name)
      set (m.addNested outer name .plain .external .none)
      return m.nextClass) :=
    .bind_reading (Build.isReading_liftExcept _) fun _ ↦ Build.isAtomic_set_pure _ _
  split
  · exact (Build.isTotal_pure _).isAtomic
  · split
    · exact .bind_reading (Build.isReading_throw _) fun _ ↦ henter
    · exact henter

theorem isAtomic_updateClass (c : ClassId) (f : ClassEntry → Except ModelError ClassEntry) :
    (updateClass c f).IsAtomic := by
  intro m e he
  rw [exec_updateClass] at he ⊢
  cases h : f (m.entry c) with
  | ok entry => simp [h] at he
  | error fault => rfl

/-! ## Names that are walked through first -/

theorem exec_referenceNested_of_get?_eq_none {outer : ClassId} {name : String}
    (h : (m.entry outer).nested.get? name = none) (houter : (m.entry outer).isDefined = false)
    (hname : nameFault? name = none) :
    (referenceNested outer name).exec m = (.ok m.nextClass, m.addNested outer name .plain .external .none) := by
  unfold referenceNested
  rw [Build.exec_bind, Build.exec_get]
  simp only [h, houter, checkName_eq_ok_iff.mpr hname]
  rfl

theorem exec_package_of_findPackage?_eq_none {name : String} (h : m.findPackage? name = none) :
    (package name).exec m = (.ok m.nextPackage, m.pushPackage name) := by
  unfold package
  rw [Build.exec_bind, Build.exec_get]
  simp only [h]
  rfl

theorem exec_referenceIn_of_get?_eq_none {p : PackageId} {name : String}
    (h : (m.packageEntry p).classes.get? name = none) (hname : nameFault? name = none) :
    (referenceIn p name).exec m = (.ok m.nextClass, m.addTopLevel p name .plain .external .none) := by
  unfold referenceIn
  rw [Build.exec_bind, Build.exec_get]
  simp only [h, checkName_eq_ok_iff.mpr hname]
  rfl

/-- A class that was entered a moment ago: nothing was defined in it or entered in it. A handle that is good only
from then on may have been named as the class around it. -/
structure IsFresh (m : Model) (c : ClassId) : Prop where
  undefined : (m.entry c).isDefined = false
  empty : ∀ name d, (m.entry c).nested.get? name = some d → d = c

theorem isFresh_addTopLevel (m : Model) (p : PackageId) (name : String) :
    (m.addTopLevel p name .plain .external .none).IsFresh m.nextClass := by
  have hentry := entry_addTopLevel m p name .plain .external .none m.nextClass
  rw [if_pos rfl] at hentry
  constructor
  · rw [hentry]
    rfl
  · rw [hentry]
    exact nofun

theorem isFresh_addNested (m : Model) (outer : ClassId) (name : String) :
    (m.addNested outer name .plain .external .none).IsFresh m.nextClass := by
  constructor
  · rw [addNested, entry_modifyClass, entry_pushClass, if_pos rfl]
    split <;> rfl
  · intro other d
    rw [addNested, entry_modifyClass, entry_pushClass, if_pos rfl]
    split
    · rw [Table.get?_insert]
      intro h
      split at h
      · exact (Option.some.inj h).symm
      · cases h
    · intro h
      cases h

theorem nestedFault?_none_cons {name : String} {path : List String}
    (h : m.nestedFault? none (name :: path) = none) : nameFault? name = none ∧ m.nestedFault? none path = none := by
  rw [nestedFault?] at h
  cases hname : checkName .type name with
  | error fault => simp [hname] at h
  | ok _ => exact ⟨checkName_eq_ok_iff.mp hname, by simpa [hname] using h⟩

/-- From a class entered a moment ago on, only the names count. -/
theorem exists_referencePath_of_isFresh {n : Model} {c : ClassId} (hc : n.IsFresh c) {path : List String}
    (hpath : m.nestedFault? none path = none) : ∃ d, ((referencePath c path).exec n).1 = .ok d := by
  induction path generalizing n c with
  | nil => exact ⟨c, rfl⟩
  | cons name path ih =>
      obtain ⟨hname, hpath⟩ := nestedFault?_none_cons hpath
      rw [referencePath, Build.exec_bind]
      cases hget : (n.entry c).nested.get? name with
      | some d =>
          rw [exec_referenceNested_of_get? hget]
          obtain rfl := hc.empty name d hget
          exact ih hc hpath
      | none =>
          rw [exec_referenceNested_of_get?_eq_none hget hc.undefined hname]
          exact ih (isFresh_addNested n c name) hpath

/-- The walk through the nested names of a known class foretells that they are entered. -/
theorem exists_referencePath {c : ClassId} {path : List String} (hpath : m.nestedFault? (some c) path = none) :
    ∃ d, ((referencePath c path).exec m).1 = .ok d := by
  induction path generalizing c with
  | nil => exact ⟨c, rfl⟩
  | cons name path ih =>
      rw [nestedFault?] at hpath
      rw [referencePath, Build.exec_bind]
      cases hget : (m.entry c).nested.get? name with
      | some d =>
          rw [exec_referenceNested_of_get? hget]
          simp only [hget] at hpath
          exact ih hpath
      | none =>
          simp only [hget] at hpath
          cases hdefined : (m.entry c).isDefined with
          | true => simp [hdefined] at hpath
          | false =>
              cases hname : checkName .type name with
              | error fault => simp [hdefined, hname] at hpath
              | ok _ =>
                  have hrest : m.nestedFault? none path = none := by simpa [hdefined, hname] using hpath
                  rw [exec_referenceNested_of_get?_eq_none hget hdefined (checkName_eq_ok_iff.mp hname)]
                  exact exists_referencePath_of_isFresh (isFresh_addNested m c name) hrest

theorem exec_reference_of_fault {q : String} {fault : ModelError}
    (h : m.referenceFault? (BinaryName.ofString q) = some fault) : (reference q).exec m = (.error fault, m) := by
  unfold reference
  rw [Build.exec_bind, Build.exec_get]
  simp only [h]
  rfl

theorem exists_referencePath_of_referenceIn {n : Model} {p : PackageId} {top : String} {nested : List String}
    (hfree : (n.packageEntry p).classes.get? top = none) (htop : nameFault? top = none)
    (hnested : m.nestedFault? none nested = none) :
    ∃ d, ((referenceIn p top >>= fun c ↦ referencePath c nested).exec n).1 = .ok d := by
  rw [Build.exec_bind, exec_referenceIn_of_get?_eq_none hfree htop]
  exact exists_referencePath_of_isFresh (isFresh_addTopLevel n p top) hnested

/-- What passes the walk is entered: the names that the walk did not find are valid, and nothing stands in the way
of a class inside one that was entered a moment ago. -/
theorem exists_reference {q : String} (h : m.referenceFault? (BinaryName.ofString q) = none) :
    ∃ c, ((reference q).exec m).1 = .ok c := by
  unfold reference
  rw [Build.exec_bind, Build.exec_get]
  simp only [h]
  generalize BinaryName.ofString q = n at h
  rw [referenceFault?] at h
  rw [Build.exec_bind]
  cases hp : m.findPackage? n.package with
  | none =>
      rw [exec_package_of_findPackage?_eq_none hp]
      have hfree : ((m.pushPackage n.package).packageEntry m.nextPackage).classes.get? n.top = none := by
        rw [packageEntry_pushPackage, if_pos rfl]
        rfl
      cases htop : checkName .type n.top with
      | error fault => simp [hp, htop] at h
      | ok _ =>
          have hnested : m.nestedFault? none n.nested = none := by simpa [hp, htop] using h
          exact exists_referencePath_of_referenceIn hfree (checkName_eq_ok_iff.mp htop) hnested
  | some p =>
      rw [exec_package_of_findPackage? hp]
      cases hget : (m.packageEntry p).classes.get? n.top with
      | some c =>
          have hnested : m.nestedFault? (some c) n.nested = none := by simpa [hp, hget] using h
          simp only
          rw [Build.exec_bind, exec_referenceIn_of_get? hget]
          exact exists_referencePath hnested
      | none =>
          cases htop : checkName .type n.top with
          | error fault => simp [hp, hget, htop] at h
          | ok _ =>
              have hnested : m.nestedFault? none n.nested = none := by simpa [hp, hget, htop] using h
              exact exists_referencePath_of_referenceIn hget (checkName_eq_ok_iff.mp htop) hnested

theorem isAtomic_reference (q : String) : (reference q).IsAtomic := by
  intro m e he
  cases hfault : m.referenceFault? (BinaryName.ofString q) with
  | some fault => rw [exec_reference_of_fault hfault]
  | none =>
      obtain ⟨c, hc⟩ := exists_reference hfault
      rw [hc] at he
      cases he

/-! ## Calls -/

theorem isAtomic_operation (o : Operation) : o.perform.IsAtomic := by
  cases o with
  | package name => exact (isTotal_package name).isAtomic.map _
  | define owner mods name kind => exact (isAtomic_defineClass owner mods name kind).map _
  | anonymous base => exact (isAtomic_anonymousClass base).map _
  | reference q => exact (isAtomic_reference q).map _
  | referenceIn p name => exact (isAtomic_referenceIn p name).map _
  | referenceNested outer name => exact (isAtomic_referenceNested outer name).map _
  | placeholder name => exact (isTotal_placeholder name).isAtomic.map _
  | member c s => exact (isAtomic_updateClass c s.apply).bind_total fun _ ↦ Build.isTotal_pure _

theorem isAtomic_call (c : Call) : c.perform.IsAtomic := by
  cases c with
  | operation o => exact isAtomic_operation o
  | inBody c i s => exact (isAtomic_updateClass c _).bind_total fun _ ↦ Build.isTotal_pure _
  | inInitBlock c i s => exact (isAtomic_updateClass c _).bind_total fun _ ↦ Build.isTotal_pure _

theorem step_of_not_isSuccess {c : Call} {answer : Except ModelError Answer}
    (hanswer : (c.perform.exec m).1 = answer) (h : answer.isOk = false) : c.step m = m := by
  cases answer with
  | ok a => cases h
  | error e => exact isAtomic_call c m e hanswer

theorem successes_cons_of_isSuccess {c : Call} (cs : List Call) (h : (c.perform.exec m).1.isOk) :
    m.successes (c :: cs) = ⟨c, (c.perform.exec m).1, c.step m⟩ :: (c.step m).successes cs :=
  List.filter_cons_of_pos h

theorem successes_cons_of_not_isSuccess {c : Call} (cs : List Call) (h : (c.perform.exec m).1.isOk = false) :
    m.successes (c :: cs) = m.successes cs := by
  have hm : c.step m = m := step_of_not_isSuccess rfl h
  rw [successes, outcomes, hm]
  exact List.filter_cons_of_neg (by simp [Outcome.isSuccess, h])

/-- Without the calls that fail, the others come out as they did. -/
theorem outcomes_successes (m : Model) (cs : List Call) :
    m.outcomes ((m.successes cs).map (·.call)) = m.successes cs := by
  induction cs generalizing m with
  | nil => rfl
  | cons c cs ih =>
      cases h : (c.perform.exec m).1.isOk with
      | false => rw [successes_cons_of_not_isSuccess cs h, ih m]
      | true => rw [successes_cons_of_isSuccess cs h, List.map_cons, outcomes, ih (c.step m)]

theorem afterCalls_successes (m : Model) (cs : List Call) :
    m.afterCalls ((m.successes cs).map (·.call)) = m.afterCalls cs := by
  induction cs generalizing m with
  | nil => rfl
  | cons c cs ih =>
      cases h : (c.perform.exec m).1.isOk with
      | false =>
          have hm : c.step m = m := step_of_not_isSuccess rfl h
          rw [successes_cons_of_not_isSuccess cs h, ih m, afterCalls, afterCalls, List.foldl_cons, hm]
      | true =>
          rw [successes_cons_of_isSuccess cs h, List.map_cons]
          exact ih (c.step m)

/-- The second segment of the first name is refused, so the package is made by the third call. -/
example :
    (initial.successes
      [.operation (.reference "p.A$1b"), .operation (.reference "q.A$B"), .operation (.package "p")]).map
        (·.answer.toOption) = [some (.class ⟨2⟩), some (.package ⟨3⟩)] := by
  decide +kernel

end Model
end JavaSource
