import JavaSource.JavaType.Construction
import JavaSource.Model.Types
import JavaSource.Proofs.Model.Operation

/-!
# Erased types

Erasure follows bounds, components and the bases of anonymous classes until it comes to a primitive or to a class.
`Erases` states it as rules, in which an anonymous class erases to whatever its base erases to. Each type erases
to exactly one type, that type is erased, and erased types erase to themselves.
-/

namespace JavaSource

/-- A primitive or a class, under any number of array dimensions. -/
inductive JavaType.IsErased : JavaType → Prop
  | primitive (p : Primitive) : IsErased (.primitive p)
  | reference (c : ClassId) : IsErased (.reference c)
  | array {t : JavaType} : IsErased t → IsErased (.array t)

namespace Model

/-- `m.Erases t s` says that the rules lead from `t` to `s` in finitely many steps. -/
inductive Erases (m : Model) : JavaType → JavaType → Prop
  | primitive (p : Primitive) : m.Erases (.primitive p) (.primitive p)
  | reference (c : ClassId) : m.Erases (.reference c) (.reference c)
  | narrowed (c : ClassId) (args : List JavaType) : m.Erases (.narrowed c args) (.reference c)
  | array {t s : JavaType} : m.Erases t s → m.Erases (.array t) (.array s)
  | unbounded (name : String) : m.Erases (.var name none) (.reference object)
  | bounded (name : String) {bound s : JavaType} : m.Erases bound s → m.Erases (.var name (some bound)) s
  | wildcard : m.Erases .wildcard (.reference object)
  | wildcardExtends {bound s : JavaType} : m.Erases bound s → m.Erases (.wildcardExtends bound) s
  | wildcardSuper (bound : JavaType) : m.Erases (.wildcardSuper bound) (.reference object)
  | baseless {c : ClassId} : (m.entry c).superclass = none → m.Erases (.anonymous c) (.reference object)
  | based {c : ClassId} {base : ClassType} {s : JavaType} : (m.entry c).superclass = some base →
    m.Erases base.toType s → m.Erases (.anonymous c) s

/-! ## The rules and the function -/

theorem erasure_toType (m : Model) (t : ClassType) : m.erasure t.toType = .reference t.basis := by
  obtain ⟨c, _ | args⟩ := t <;> rfl

theorem erasure_anonymous_of_base {m : Model} {c : ClassId} {base : ClassType}
    (h : (m.entry c).superclass = some base) : m.erasure (.anonymous c) = m.erasure base.toType := by
  rw [erasure_toType, erasure, h]

theorem erases_toType (m : Model) (t : ClassType) : m.Erases t.toType (.reference t.basis) := by
  obtain ⟨c, _ | args⟩ := t
  · exact .reference c
  · exact .narrowed c args

theorem Erases.eq_erasure {m : Model} {t s : JavaType} (h : m.Erases t s) : s = m.erasure t := by
  induction h with
  | primitive | reference | narrowed | unbounded | wildcard | wildcardSuper => rfl
  | array _ ih => exact congrArg JavaType.array ih
  | bounded _ _ ih | wildcardExtends _ ih => exact ih
  | baseless hbase => rw [erasure, hbase]
  | based hbase _ ih => rw [ih, erasure_anonymous_of_base hbase]

/-- The rules come to an end from every type. -/
theorem erases_erasure (m : Model) (t : JavaType) : m.Erases t (m.erasure t) := by
  induction t using erasure.induct m with
  | case1 p => exact .primitive p
  | case2 c => exact .reference c
  | case3 c args => exact .narrowed c args
  | case4 t ih => exact .array ih
  | case5 name => exact .unbounded name
  | case6 name bound ih => exact .bounded name ih
  | case7 bound ih => exact .wildcardExtends ih
  | case8 => exact .wildcard
  | case9 bound => exact .wildcardSuper bound
  | case10 c base hbase =>
      rw [erasure_anonymous_of_base hbase, erasure_toType]
      exact .based hbase (m.erases_toType base)
  | case11 c hbase =>
      rw [erasure, hbase]
      exact .baseless hbase

theorem erases_iff {m : Model} {t s : JavaType} : m.Erases t s ↔ s = m.erasure t := by
  constructor
  · exact Erases.eq_erasure
  · rintro rfl
    exact m.erases_erasure t

/-! ## The normal form -/

theorem Erases.isErased {m : Model} {t s : JavaType} (h : m.Erases t s) : s.IsErased := by
  induction h with
  | primitive p => exact .primitive p
  | reference c | narrowed c => exact .reference c
  | array _ ih => exact .array ih
  | unbounded | wildcard | wildcardSuper | baseless => exact .reference object
  | bounded _ _ ih | wildcardExtends _ ih | based _ _ ih => exact ih

theorem erasure_of_isErased {m : Model} {t : JavaType} (h : t.IsErased) : m.erasure t = t := by
  induction h with
  | primitive | reference => rfl
  | array _ ih => exact congrArg JavaType.array ih

theorem erasure_raw (m : Model) (t : JavaType) : m.erasure t.raw = m.erasure t := by
  cases t <;> rfl

/-- Type arguments have no say in what a type erases to. -/
theorem erasure_of_narrow (m : Model) {t s : JavaType} {args : List JavaType} (h : t.narrow args = .ok s) :
    m.erasure s = m.erasure t := by
  calc
    m.erasure s = m.erasure s.raw := (m.erasure_raw s).symm
    _ = m.erasure t.raw := by rw [JavaType.raw_of_narrow h]
    _ = m.erasure t := m.erasure_raw t

/-- Erasing brings every type to its one normal form, whatever the bases of anonymous classes are by now. -/
theorem erasure_normal_form (m : Model) (t : JavaType) :
    (∀ s, m.Erases t s ↔ s = m.erasure t) ∧
    (m.erasure t).IsErased ∧
    m.erasure (m.erasure t) = m.erasure t ∧
    m.erasure t.raw = m.erasure t ∧
    (t.IsErased → m.erasure t = t) ∧
    ∀ args s, t.narrow args = .ok s → m.erasure s = m.erasure t := by
  have herased : (m.erasure t).IsErased := (m.erases_erasure t).isErased
  refine ⟨fun s ↦ erases_iff, herased, erasure_of_isErased herased, m.erasure_raw t, erasure_of_isErased, ?_⟩
  intro args s hs
  exact m.erasure_of_narrow hs

/-- A class and an anonymous class on one of its instances. -/
def anonymousList : List Operation :=
  [.reference "java.util.List", .anonymous (.narrowed ⟨1⟩ [.reference object])]

theorem erasure_normal_form_anonymousList :
    (JavaType.reference ⟨1⟩).IsErased ∧
    (JavaType.reference ⟨1⟩).narrow [.wildcard] = .ok (.narrowed ⟨1⟩ [.wildcard]) ∧
    (initial.run anonymousList).erasure (.reference ⟨1⟩) = .reference ⟨1⟩ ∧
    (initial.run anonymousList).erasure (.narrowed ⟨1⟩ [.wildcard]) =
      (initial.run anonymousList).erasure (.reference ⟨1⟩) ∧
    (initial.run anonymousList).Erases (.array (.anonymous ⟨2⟩)) (.array (.reference ⟨1⟩)) := by
  have hlist := erasure_normal_form (initial.run anonymousList) (.reference ⟨1⟩)
  have hanonymous := erasure_normal_form (initial.run anonymousList) (.array (.anonymous ⟨2⟩))
  obtain ⟨-, -, -, -, hfixed, hnarrow⟩ := hlist
  refine ⟨.reference ⟨1⟩, rfl, hfixed (.reference ⟨1⟩), hnarrow [.wildcard] _ rfl, ?_⟩
  exact (hanonymous.1 _).mpr (by decide +kernel)

end Model
end JavaSource
