import JavaSource.Annotation.Edit
import JavaSource.Proofs.Model.MemberStep

/-!
# Setting members one after the other

The value that a member has in the end is the last one that was taken for it. A value equal to the default is
left out, and with it any intent to go back to the default: what was written before stays.
-/

namespace JavaSource

namespace AnnotationShape

/-- The value of a member where a use gives it none. -/
def default? (s : AnnotationShape) (name : String) : Option AnnotationValue :=
  (s.members.get? name).bind (·.2)

/-- The value of a member in a use, written or declared. -/
def effective (s : AnnotationShape) (u : AnnotationUse) (name : String) : Option AnnotationValue :=
  (u.get? name).or (s.default? name)

/-- Whether a value for the member is left out as equal to the default. -/
def skips (s : AnnotationShape) (name : String) (value : AnnotationValue) : Bool :=
  (s.default? name).any (·.same value)

/-- Sets members in turn, all of them successfully. -/
def setAll (s : AnnotationShape) (u : AnnotationUse) (calls : List (String × AnnotationValue)) :
    Except ModelError AnnotationUse :=
  calls.foldlM (fun u call ↦ s.set u call.1 call.2) u

/-- The values given to a member, in turn. -/
def given (name : String) (calls : List (String × AnnotationValue)) : List AnnotationValue :=
  (calls.filter (·.1 = name)).map (·.2)

/-- The values given to a member that are not left out. -/
def taken (s : AnnotationShape) (name : String) (calls : List (String × AnnotationValue)) : List AnnotationValue :=
  (given name calls).filter (!s.skips name ·)

variable {s : AnnotationShape} {u w : AnnotationUse} {name other : String} {v : AnnotationValue}
  {calls : List (String × AnnotationValue)}

theorem mem_given : v ∈ given name calls ↔ (name, v) ∈ calls := by
  constructor
  · intro h
    obtain ⟨⟨n, x⟩, hcall, rfl⟩ := List.mem_map.mp h
    obtain ⟨hmem, hn⟩ := List.mem_filter.mp hcall
    obtain rfl : n = name := by simpa using hn
    exact hmem
  · intro h
    exact List.mem_map.mpr ⟨(name, v), List.mem_filter.mpr ⟨h, by simp⟩, rfl⟩

theorem given_append (calls more : List (String × AnnotationValue)) :
    given name (calls ++ more) = given name calls ++ given name more := by
  rw [given, List.filter_append, List.map_append, given, given]

theorem taken_append (calls more : List (String × AnnotationValue)) :
    s.taken name (calls ++ more) = s.taken name calls ++ s.taken name more := by
  rw [taken, given_append, List.filter_append, taken, taken]

/-- What a successful call does to the use depends on the default alone. -/
theorem eq_of_set (h : s.set u name v = .ok w) : w = if s.skips name v then u else u.set name v := by
  unfold AnnotationShape.set at h
  rw [Except.bind_eq_ok] at h
  obtain ⟨⟨k, default⟩, hmember, h⟩ := h
  have hskips : s.skips name v = default.any (·.same v) := by
    rw [skips, default?, member?_eq_ok.mp hmember, Option.bind_some]
  rw [hskips]
  simp only at h
  split at h
  · rename_i hsame
    rw [if_pos hsame]
    exact (Except.ok.inj h).symm
  · rename_i hsame
    rw [if_neg hsame]
    split at h
    · exact (Except.ok.inj h).symm
    · cases h

/-- One call writes its value over the one before, or leaves it. -/
theorem get?_of_set (h : s.set u other v = .ok w) :
    w.get? name = (s.taken name [(other, v)]).getLast?.or (u.get? name) := by
  rw [eq_of_set h]
  by_cases hname : other = name
  · subst hname
    cases hskips : s.skips other v <;> simp [taken, given, hskips]
  · cases s.skips other v <;> simp [taken, given, hname]

/-- The last value taken is the one that a use ends up with. -/
theorem get?_of_setAll (h : s.setAll u calls = .ok w) :
    w.get? name = (s.taken name calls).getLast?.or (u.get? name) := by
  induction calls generalizing u with
  | nil =>
      obtain rfl := Except.ok.inj h
      rfl
  | cons call calls ih =>
      unfold setAll at h
      rw [List.foldlM_cons, Except.bind_eq_ok] at h
      obtain ⟨u', hstep, hrest⟩ := h
      have happend : s.taken name (call :: calls) = s.taken name [call] ++ s.taken name calls :=
        taken_append [call] calls
      rw [ih hrest, get?_of_set hstep, happend, List.getLast?_append, Option.or_assoc]

/-- A last value that is no default is taken last. -/
theorem getLast?_taken (hlast : (given name calls).getLast? = some v) (hv : s.skips name v = false) :
    (s.taken name calls).getLast? = some v := by
  obtain ⟨before, hbefore⟩ := List.getLast?_eq_some_iff.mp hlast
  rw [taken, hbefore, List.filter_append, List.getLast?_append]
  simp [hv]

/-- A value that is left out is equal to the default. -/
theorem exists_default_of_skips (h : s.skips name v) : ∃ d, s.default? name = some d ∧ d.same v := by
  unfold skips at h
  cases hd : s.default? name with
  | none => simp [hd] at h
  | some d => exact ⟨d, rfl, by simpa [hd] using h⟩

/-- The member ends up with the last value that was taken for it, so with the last value given unless that is
the default. When only defaults were given and nothing was written before, it is the default all the same. -/
theorem effective_setAll (h : s.setAll u calls = .ok w) (name : String) :
    s.effective w name = (s.taken name calls).getLast?.or (s.effective u name) ∧
      (∀ v, (given name calls).getLast? = some v → s.skips name v = false → s.effective w name = some v) ∧
      (u.get? name = none → s.taken name calls = [] →
        ∀ v, (name, v) ∈ calls → ∃ d, s.effective w name = some d ∧ d.same v) ∧
      ((∀ v, (name, v) ∉ calls) → s.effective w name = s.effective u name) := by
  have heffective : s.effective w name = (s.taken name calls).getLast?.or (s.effective u name) := by
    rw [effective, get?_of_setAll h, Option.or_assoc, ← effective]
  have hkept : s.taken name calls = [] → s.effective w name = s.effective u name := by
    intro htaken
    rw [heffective, htaken, List.getLast?_nil, Option.none_or]
  refine ⟨heffective, ?_, ?_, ?_⟩
  · intro v hlast hv
    rw [heffective, getLast?_taken hlast hv, Option.some_or]
  · intro hu htaken v hv
    have hskips : s.skips name v := by
      have := List.filter_eq_nil_iff.mp htaken v (mem_given.mpr hv)
      simpa using this
    obtain ⟨d, hd, hsame⟩ := exists_default_of_skips hskips
    refine ⟨d, ?_, hsame⟩
    rw [hkept htaken, effective, hu, Option.none_or, hd]
  · intro hnever
    apply hkept
    have hgiven : given name calls = [] := by
      apply List.eq_nil_iff_forall_not_mem.mpr
      intro v hv
      exact hnever v (mem_given.mp hv)
    rw [taken, hgiven, List.filter_nil]

/-- An annotation with a size, which is `1` by default, and a unit. -/
def sizeShape : AnnotationShape :=
  ⟨⟨1⟩, "p.Size", ⟨[("value", .int, some (.int 1)), ("unit", .string, none)]⟩⟩

/-- The size is given twice and then reset: it keeps the second value. -/
theorem effective_setAll_size :
    sizeShape.setAll ⟨⟨1⟩, {}⟩
        [("value", .int 2), ("unit", .string "cm"), ("value", .int 3), ("value", .int 1)] =
      .ok ⟨⟨1⟩, ⟨[("value", .int 3), ("unit", .string "cm")]⟩⟩ ∧
    sizeShape.effective ⟨⟨1⟩, ⟨[("value", .int 3), ("unit", .string "cm")]⟩⟩ "value" = some (.int 3) ∧
    sizeShape.effective ⟨⟨1⟩, ⟨[("value", .int 3), ("unit", .string "cm")]⟩⟩ "unit" = some (.string "cm") := by
  have h : sizeShape.setAll ⟨⟨1⟩, {}⟩
      [("value", .int 2), ("unit", .string "cm"), ("value", .int 3), ("value", .int 1)] =
        .ok ⟨⟨1⟩, ⟨[("value", .int 3), ("unit", .string "cm")]⟩⟩ := rfl
  exact ⟨h, (effective_setAll h "value").1, (effective_setAll h "unit").2.1 _ rfl rfl⟩

/-- To set the default after another value does not bring the default back. -/
theorem effective_setAll_stale :
    ¬ ∀ (s : AnnotationShape) (u w : AnnotationUse) (calls : List (String × AnnotationValue)),
      u.type = s.type → s.setAll u calls = .ok w →
        ∀ name v, (given name calls).getLast? = some v → ∃ x, s.effective w name = some x ∧ x.same v := by
  intro h
  obtain ⟨x, hx, hsame⟩ := h sizeShape ⟨⟨1⟩, {}⟩ ⟨⟨1⟩, ⟨[("value", .int 2)]⟩⟩
    [("value", .int 2), ("value", .int 1)] rfl rfl "value" (.int 1) rfl
  have heffective : sizeShape.effective ⟨⟨1⟩, ⟨[("value", .int 2)]⟩⟩ "value" = some (.int 2) := rfl
  rw [heffective] at hx
  cases hx
  exact absurd hsame (by decide)

end AnnotationShape

end JavaSource
