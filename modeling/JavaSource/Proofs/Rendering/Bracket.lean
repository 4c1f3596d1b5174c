import Mathlib.Data.Nat.Digits.Lemmas
import JavaSource.Rendering.Line
import JavaSource.Rendering.SyntaxEvents

/-!
# Brackets in texts

The round, square and curly brackets that a token sets, and sequences of them that are properly nested. What
stands inside a quoted literal does not count.
-/

namespace JavaSource

inductive Bracket where
  | round
  | square
  | curly
  deriving DecidableEq

/-- A bracket that opens or closes. -/
inductive Mark where
  | opens (b : Bracket)
  | closes (b : Bracket)
  deriving DecidableEq

def Mark.ofChar? : Char → Option Mark
  | '(' => some (.opens .round)
  | ')' => some (.closes .round)
  | '[' => some (.opens .square)
  | ']' => some (.closes .square)
  | '\x7b' => some (.opens .curly)
  | '\x7d' => some (.closes .curly)
  | _ => none

/-- Brackets in pairs, each pair around brackets in pairs. -/
inductive Nested : List Mark → Prop
  | nil : Nested []
  | append {a b : List Mark} (ha : Nested a) (hb : Nested b) : Nested (a ++ b)
  | enclose (b : Bracket) {a : List Mark} (ha : Nested a) : Nested (.opens b :: a ++ [.closes b])

/-- The brackets of a text. -/
def marks (s : String) : List Mark := s.toList.filterMap Mark.ofChar?

/-- A text without brackets. -/
def Bare (s : String) : Prop := marks s = []

instance (s : String) : Decidable (Bare s) := inferInstanceAs (Decidable (_ = _))

@[simp] theorem marks_append (s t : String) : marks (s ++ t) = marks s ++ marks t := by
  simp [marks]

theorem bare_append {s t : String} : Bare (s ++ t) ↔ Bare s ∧ Bare t := by
  simp [Bare]

theorem bare_iff {s : String} : Bare s ↔ ∀ c ∈ s.toList, Mark.ofChar? c = none := by
  simp [Bare, marks, List.filterMap_eq_nil_iff]

/-- Whether a text is a string or character literal. -/
def isQuoted (s : String) : Bool := s.toList.head? = some '"' || s.toList.head? = some '\''

/-- The brackets that a token sets. -/
def Token.marks : Token → List Mark
  | .text s => if isQuoted s then [] else JavaSource.marks s
  | .newline | .indent | .outdent => []

theorem Token.marks_of_bare {s : String} (h : Bare s) : (Token.text s).marks = [] := by
  simp only [marks]
  split
  · rfl
  · exact h

theorem Token.marks_quoted (q : Char) (hq : q = '"' ∨ q = '\'') (s : String) :
    (Token.text (Text.quoted q s)).marks = [] := by
  have hquoted : isQuoted (Text.quoted q s) = true := by
    rcases hq with rfl | rfl <;> simp [isQuoted]
  simp [marks, hquoted]

/-! ## Numbers -/

/-- What numbers are written with. -/
def IsFigure (c : Char) : Prop := c.isDigit ∨ c ∈ ['-', '.', 'e']

theorem bare_of_figures {s : String} (h : ∀ c ∈ s.toList, IsFigure c) : Bare s := by
  refine bare_iff.mpr fun c hc ↦ ?_
  have hfigure := h c hc
  unfold Mark.ofChar?
  split <;> first | rfl | simp [IsFigure, Char.isDigit] at hfigure

theorem isFigure_toDigits (n : Nat) : ∀ c ∈ Nat.toDigits 10 n, IsFigure c := fun _ hc ↦
  Or.inl (Nat.isDigit_of_mem_toDigits (by decide) (by decide) hc)

theorem isFigure_int (n : Int) : ∀ c ∈ (toString n).toList, IsFigure c := by
  intro c hc
  cases n with
  | ofNat n =>
      have hn : (toString (Int.ofNat n)).toList = Nat.toDigits 10 n := String.toList_ofList
      exact isFigure_toDigits n c (hn ▸ hc)
  | negSucc n =>
      have hn : (toString (Int.negSucc n)).toList = '-' :: Nat.toDigits 10 (n + 1) := by
        change ("-" ++ String.ofList (Nat.toDigits 10 (n + 1))).toList = _
        simp
      rw [hn] at hc
      rcases List.mem_cons.mp hc with rfl | hc
      · exact Or.inr (by simp)
      · exact isFigure_toDigits _ c hc

theorem bare_intText (n : Int) : Bare (Expr.intText n) := bare_of_figures (isFigure_int n)

namespace Decimal

theorem isFigure_zeros (n : Nat) : ∀ c ∈ zeros n, IsFigure c := fun c hc ↦ by
  rw [(List.mem_replicate.mp hc).2]
  exact Or.inl rfl

theorem isFigure_positional {d : Digits} (hd : ∀ c ∈ d.digits, IsFigure c) :
    ∀ c ∈ positional d, IsFigure c := by
  have hpoint : IsFigure '.' := Or.inr (by simp)
  have hzero : IsFigure '0' := Or.inl rfl
  unfold positional
  split
  · simp only [List.forall_mem_append, List.forall_mem_cons]
    exact ⟨⟨⟨hzero, hpoint, List.forall_mem_nil _⟩, isFigure_zeros _⟩, hd⟩
  · simp only [List.forall_mem_append, List.forall_mem_cons]
    refine ⟨⟨fun c hc ↦ hd c (List.mem_of_mem_take hc), isFigure_zeros _⟩, hpoint, ?_⟩
    split
    · exact List.forall_mem_singleton.mpr hzero
    · exact fun c hc ↦ hd c (List.mem_of_mem_drop hc)

theorem isFigure_scientific {d : Digits} (hd : ∀ c ∈ d.digits, IsFigure c) :
    ∀ c ∈ scientific d, IsFigure c := by
  unfold scientific
  split
  · exact List.forall_mem_nil _
  · rename_i first rest hdigits
    rw [hdigits] at hd
    obtain ⟨hfirst, hrest⟩ := List.forall_mem_cons.mp hd
    have hpower : ∀ c ∈ 'e' :: (toString d.power).toList, IsFigure c :=
      List.forall_mem_cons.mpr ⟨Or.inr (by simp), isFigure_int _⟩
    refine List.forall_mem_append.mpr ⟨List.forall_mem_cons.mpr ⟨hfirst, ?_⟩, hpower⟩
    split
    · exact List.forall_mem_nil _
    · exact List.forall_mem_cons.mpr ⟨Or.inr (by simp), hrest⟩

theorem isFigure_shortest {f : Ieee.Format} (x : Ieee.Datum f) : ∀ c ∈ (shortest x).digits, IsFigure c := by
  intro c hc
  simp only [shortest, dropTrailingZeros, List.mem_reverse] at hc
  exact isFigure_toDigits _ c (List.mem_reverse.mp (List.dropWhile_subset _ hc))

theorem isFigure_floatText {f : Ieee.Format} (x : Ieee.Datum f) : ∀ c ∈ (floatText x).toList, IsFigure c := by
  simp only [floatText, String.toList_ofList]
  refine List.forall_mem_append.mpr ⟨?_, ?_⟩
  · split
    · exact List.forall_mem_singleton.mpr (Or.inr (by simp))
    · exact List.forall_mem_nil _
  · split
    · simp [IsFigure, Char.isDigit]
    · unfold Digits.text
      split
      · exact isFigure_positional (isFigure_shortest x)
      · exact isFigure_scientific (isFigure_shortest x)

theorem bare_floatText {f : Ieee.Format} (x : Ieee.Datum f) : Bare (floatText x) :=
  bare_of_figures (isFigure_floatText x)

end Decimal

end JavaSource
