/-!
# Maximal runs of characters

The runs of characters of a class in a text, as long as they can be. A character outside the class ends a run, so
the runs of two texts are those of the whole unless the one text ends and the other begins in the class.
-/

namespace JavaSource.Text

variable {p : Char → Bool}

/-- The maximal runs of characters of a class. -/
def runs (p : Char → Bool) (cs : List Char) : List (List Char) :=
  (cs.splitOnP fun c ↦ !p c).filter fun run ↦ !run.isEmpty

@[simp] theorem runs_nil (p : Char → Bool) : runs p [] = [] := by simp [runs]

theorem runs_append_cons {c : Char} (hc : p c = false) (xs ys : List Char) :
    runs p (xs ++ c :: ys) = runs p xs ++ runs p ys := by
  rw [runs, List.splitOnP_append_cons xs ys (by simp [hc]), List.filter_append]
  rfl

theorem runs_eq_nil {cs : List Char} (h : ∀ c ∈ cs, p c = false) : runs p cs = [] := by
  induction cs with
  | nil => exact runs_nil p
  | cons c cs ih =>
      obtain ⟨hc, hcs⟩ := List.forall_mem_cons.mp h
      rw [← List.nil_append (c :: cs), runs_append_cons hc, runs_nil, ih hcs, List.nil_append]

/-- Runs are joined only where both texts have the class at the seam. -/
theorem runs_append {xs ys : List Char}
    (h : ∀ x ∈ xs.getLast?, ∀ y ∈ ys.head?, ¬ (p x = true ∧ p y = true)) :
    runs p (xs ++ ys) = runs p xs ++ runs p ys := by
  rcases List.eq_nil_or_concat xs with rfl | ⟨xs, x, rfl⟩
  · simp
  · cases ys with
    | nil => simp
    | cons y ys =>
        have hxy : p x = false ∨ p y = false := by
          have := h x (by simp) y (by simp)
          cases hx : p x <;> simp_all
        rcases hxy with hx | hy
        · rw [List.concat_eq_append, List.append_assoc, List.singleton_append, runs_append_cons hx,
            runs_append_cons hx xs [], runs_nil, List.append_nil]
        · rw [runs_append_cons hy, ← List.nil_append (y :: ys), runs_append_cons hy, runs_nil, List.nil_append]

/-- Runs are the same when only characters outside the class are replaced, by others outside it. -/
theorem runs_map {f : Char → Char} (hclass : ∀ c, p (f c) = p c) (hkept : ∀ c, p c = true → f c = c)
    (cs : List Char) : runs p (cs.map f) = runs p cs := by
  refine congrArg (List.filter _) ?_
  induction cs with
  | nil => rfl
  | cons c cs ih =>
      rw [List.map_cons, List.splitOnP_cons_eq_if_modifyHead, List.splitOnP_cons_eq_if_modifyHead, hclass, ih]
      cases hc : p c with
      | false => rfl
      | true => simp only [Bool.not_true, Bool.false_eq_true, if_false, hkept c hc]

end JavaSource.Text
