import Mathlib.Data.List.TakeWhile
import JavaSource.Identifier
import JavaSource.Text.Split

/-!
# Pieces of texts

A text that is put together from pieces without the separator is taken apart into these pieces again. The last
piece can be taken off a text whatever stands in front of it.
-/

namespace JavaSource

namespace Text

variable {sep : Char}

theorem splitAll_append_cons (sep : Char) (as bs : List Char) :
    splitAll sep (as ++ sep :: bs) = splitAll sep as ++ splitAll sep bs := by
  induction as with
  | nil => simp [splitAll]
  | cons c as ih =>
      rw [List.cons_append, splitAll, splitAll, ih]
      by_cases hc : c = sep
      · simp only [if_pos hc, List.cons_append]
      · -- the character goes to the first piece, and there is one
        simp only [if_neg hc]
        cases hpieces : splitAll sep as with
        | nil => exact absurd hpieces (splitAll_ne_nil sep as)
        | cons piece rest => rfl

theorem splitAll_of_notMem {sep : Char} {cs : List Char} (h : sep ∉ cs) : splitAll sep cs = [cs] := by
  induction cs with
  | nil => rfl
  | cons c cs ih =>
      rw [List.mem_cons, not_or] at h
      rw [splitAll, if_neg (Ne.symm h.1), ih h.2]

theorem mem_joinAll {sep c : Char} {pieces : List (List Char)} {piece : List Char} (h : piece ∈ pieces)
    (hc : c ∈ piece) : c ∈ joinAll sep pieces := by
  induction pieces using joinAll.induct with
  | case1 => cases h
  | case2 first =>
      rw [List.mem_singleton] at h
      rw [joinAll, ← h]
      exact hc
  | case3 first rest hrest ih =>
      rw [joinAll, List.mem_append, List.mem_cons]
      · rcases List.mem_cons.mp h with rfl | h
        · exact Or.inl hc
        · exact Or.inr (Or.inr (ih h))
      · exact hrest

/-- A piece has no other characters than the text. -/
theorem mem_of_mem_splitAll {sep c : Char} {cs piece : List Char} (h : piece ∈ splitAll sep cs) (hc : c ∈ piece) :
    c ∈ cs := by
  rw [← joinAll_splitAll sep cs]
  exact mem_joinAll h hc

theorem notMem_of_mem_splitString {sep : Char} {s piece : String} (h : piece ∈ splitString sep s) :
    sep ∉ piece.toList := by
  obtain ⟨chars, hchars, rfl⟩ := List.mem_map.mp h
  rw [String.toList_ofList]
  exact notMem_of_mem_splitAll hchars

theorem mem_of_mem_splitString {sep c : Char} {s piece : String} (h : piece ∈ splitString sep s)
    (hc : c ∈ piece.toList) : c ∈ s.toList := by
  obtain ⟨chars, hchars, rfl⟩ := List.mem_map.mp h
  rw [String.toList_ofList] at hc
  exact mem_of_mem_splitAll hchars hc

theorem joinAll_cons {pieces : List (List Char)} (hne : pieces ≠ []) (piece : List Char) :
    joinAll sep (piece :: pieces) = piece ++ sep :: joinAll sep pieces := by
  rw [joinAll]
  exact hne

theorem joinAll_concat {pieces : List (List Char)} (hne : pieces ≠ []) (piece : List Char) :
    joinAll sep (pieces ++ [piece]) = joinAll sep pieces ++ sep :: piece := by
  induction pieces using joinAll.induct with
  | case1 => exact absurd rfl hne
  | case2 first => rfl
  | case3 first rest hrest ih =>
      have hrest' : rest ++ [piece] ≠ [] := List.append_ne_nil_of_left_ne_nil hrest _
      rw [List.cons_append, joinAll_cons hrest', ih hrest, joinAll_cons hrest, List.append_assoc,
        List.cons_append]

/-- Pieces without the separator are the pieces of the text that is made of them. -/
theorem splitAll_joinAll {pieces : List (List Char)} (hne : pieces ≠ []) (h : ∀ piece ∈ pieces, sep ∉ piece) :
    splitAll sep (joinAll sep pieces) = pieces := by
  induction pieces using joinAll.induct with
  | case1 => exact absurd rfl hne
  | case2 piece => exact splitAll_of_notMem (h piece List.mem_cons_self)
  | case3 piece rest hrest ih =>
      rw [joinAll_cons hrest, splitAll_append_cons, splitAll_of_notMem (h piece List.mem_cons_self),
        ih hrest fun other hother ↦ h other (List.mem_cons_of_mem piece hother), List.singleton_append]

theorem exists_of_mem_joinAll {pieces : List (List Char)} {c : Char} (h : c ∈ joinAll sep pieces) :
    c = sep ∨ ∃ piece ∈ pieces, c ∈ piece := by
  induction pieces using joinAll.induct with
  | case1 => cases h
  | case2 piece => exact Or.inr ⟨piece, List.mem_cons_self, h⟩
  | case3 piece rest hrest ih =>
      rw [joinAll_cons hrest, List.mem_append, List.mem_cons] at h
      rcases h with h | h | h
      · exact Or.inr ⟨piece, List.mem_cons_self, h⟩
      · exact Or.inl h
      · exact (ih h).imp_right fun ⟨other, hother, hc⟩ ↦ ⟨other, List.mem_cons_of_mem piece hother, hc⟩

theorem forall_mem_reverse_ne {s : String} (h : sep ∉ s.toList) :
    ∀ c ∈ s.toList.reverse, decide (c ≠ sep) = true := fun c hc ↦ by
  simpa using fun hsep : c = sep ↦ h (hsep ▸ List.mem_reverse.mp hc)

theorem splitLast_of_notMem {s : String} (h : sep ∉ s.toList) : splitLast sep s = (none, s) := by
  have htake := List.takeWhile_eq_self_iff.mpr (forall_mem_reverse_ne h)
  have hdrop := List.dropWhile_eq_nil_iff.mpr (forall_mem_reverse_ne h)
  simp only [splitLast, htake, hdrop, List.reverse_reverse, String.ofList_toList]

/-- A text that ends in the separator and a piece without it is cut in front of this piece. -/
theorem splitLast_append {s : String} (h : sep ∉ s.toList) (t : String) :
    splitLast sep (t ++ String.singleton sep ++ s) = (some t, s) := by
  have hreverse : (t ++ String.singleton sep ++ s).toList.reverse =
      s.toList.reverse ++ sep :: t.toList.reverse := by
    simp
  have htake : (s.toList.reverse ++ sep :: t.toList.reverse).takeWhile (· ≠ sep) = s.toList.reverse := by
    rw [List.takeWhile_append_of_pos (forall_mem_reverse_ne h), List.takeWhile_cons_of_neg (by simp),
      List.append_nil]
  have hdrop : (s.toList.reverse ++ sep :: t.toList.reverse).dropWhile (· ≠ sep) = sep :: t.toList.reverse := by
    rw [List.dropWhile_append_of_pos (forall_mem_reverse_ne h), List.dropWhile_cons_of_neg (by simp)]
  simp only [splitLast, hreverse, htake, hdrop, List.reverse_reverse, String.ofList_toList]

end Text

theorem notMem_of_not_isIdentifierPart {name : String} (h : nameFault? name = none) {c : Char}
    (hc : isIdentifierPart c = false) : c ∉ name.toList := by
  intro hmem
  rw [isIdentifierPart_of_mem h hmem] at hc
  cases hc

theorem point_notMem_of_identifier {name : String} (h : nameFault? name = none) : '.' ∉ name.toList :=
  notMem_of_not_isIdentifierPart h (by decide +kernel)

end JavaSource
