import JavaSource.Proofs.Text.Literal

/-!
# Brackets around a text

A reader of code counts the round brackets that are open, but for those in literals. A text is enclosed when it opens
with a bracket and the one that closes this bracket is its last character. Texts that close all brackets that they
open are made of plain characters and literals, side by side and in brackets.
-/

namespace JavaSource.Text

/-! ## Reading -/

inductive Quote where
  | single
  | double
  deriving DecidableEq

namespace Quote

def char : Quote → Char
  | single => '\''
  | double => '"'

theorem char_cases (q : Quote) : q.char = '"' ∨ q.char = '\'' := by
  cases q
  · exact Or.inr rfl
  · exact Or.inl rfl

end Quote

/-- Where a reader is: in code, in a literal or behind a backslash in one. -/
inductive Reading where
  | code
  | literal (quote : Quote)
  | escape (quote : Quote)
  deriving DecidableEq

/-- Where a reader is behind a character. -/
def Reading.next : Reading → Char → Reading
  | code, c => if c = '"' then literal .double else if c = '\'' then literal .single else code
  | literal q, c => if c = '\\' then escape q else if c = q.char then code else literal q
  | escape q, _ => literal q

/-- What stands behind the bracket that closes the outermost one of so many open ones and one more. -/
def behindClose : Reading → Nat → List Char → Option (List Char)
  | _, _, [] => none
  | .code, n, c :: rest =>
    if c = '(' then behindClose .code (n + 1) rest
    else if c = ')' then
      match n with
      | 0 => some rest
      | n + 1 => behindClose .code n rest
    else behindClose (Reading.code.next c) n rest
  | reading, n, c :: rest => behindClose (reading.next c) n rest

/-- Whether a text opens with a bracket that is closed by the last character. -/
def isEnclosed : List Char → Bool
  | [] => false
  | c :: rest => c = '(' && behindClose .code 0 rest = some []

/-- The characters that a reader of code tells apart from others. -/
def codeMarks : List Char := ['(', ')', '"', '\'', '\\']

section Map

variable {f : Char → Char} (hf : ∀ mark ∈ codeMarks, ∀ c, f c = mark ↔ c = mark)
include hf

theorem Reading.next_map (reading : Reading) (c : Char) : reading.next (f c) = reading.next c := by
  have hquote : ∀ q : Quote, f c = q.char ↔ c = q.char := fun q ↦ hf _ (by cases q <;> decide) c
  cases reading with
  | code => simp only [next, hf '"' (by decide), hf '\'' (by decide)]
  | literal q => simp only [next, hf '\\' (by decide), hquote]
  | escape q => rfl

theorem behindClose_map (reading : Reading) (n : Nat) (text : List Char) :
    behindClose reading n (text.map f) = (behindClose reading n text).map (List.map f) := by
  induction text generalizing reading n with
  | nil => simp [behindClose]
  | cons c rest ih =>
      cases reading with
      | literal | escape => simp only [List.map_cons, behindClose, Reading.next_map hf, ih]
      | code =>
          simp only [List.map_cons, behindClose, hf '(' (by decide), hf ')' (by decide), Reading.next_map hf, ih]
          split
          · rfl
          · split
            · cases n <;> rfl
            · rfl

/-- Changes to other characters leave it at that. -/
theorem isEnclosed_map (text : List Char) : isEnclosed (text.map f) = isEnclosed text := by
  cases text with
  | nil => rfl
  | cons c rest =>
      simp only [List.map_cons, isEnclosed, hf '(' (by decide), behindClose_map hf, Option.map_eq_some_iff,
        List.map_eq_nil_iff, exists_eq_right]

end Map

theorem isEnclosed_of_head? {text : List Char} (h : text.head? ≠ some '(') : isEnclosed text = false := by
  cases text with
  | nil => rfl
  | cons c rest =>
      have hc : c ≠ '(' := fun hc ↦ h (congrArg some hc)
      simp only [isEnclosed, hc, decide_false, Bool.false_and]

/-! ## Texts with all brackets closed -/

/-- Texts that close all brackets that they open, and no others. -/
inductive Balanced : List Char → Prop
  | nil : Balanced []
  | char {c : Char} (hc : c ∉ ['(', ')', '"', '\'']) : Balanced [c]
  | literal (q : Quote) (s : String) : Balanced (quoted q.char s).toList
  | append {xs ys : List Char} (hx : Balanced xs) (hy : Balanced ys) : Balanced (xs ++ ys)
  | parens {xs : List Char} (hx : Balanced xs) : Balanced ('(' :: xs ++ [')'])

theorem next_code {c : Char} (hc : c ∉ ['(', ')', '"', '\'']) : Reading.code.next c = .code := by
  simp only [List.mem_cons, List.not_mem_nil, or_false, not_or] at hc
  simp only [Reading.next, hc.2.2.1, hc.2.2.2, if_false]

theorem behindClose_literal_of_notMem {q : Quote} {xs : List Char} (hx : ∀ c ∈ xs, c ∉ ['\\', q.char]) (n : Nat)
    (ys : List Char) : behindClose (.literal q) n (xs ++ ys) = behindClose (.literal q) n ys := by
  induction xs with
  | nil => rfl
  | cons c xs ih =>
      obtain ⟨hc, hxs⟩ := List.forall_mem_cons.mp hx
      simp only [List.mem_cons, List.not_mem_nil, or_false, not_or] at hc
      simp only [List.cons_append, behindClose, Reading.next, hc.1, hc.2, if_false, ih hxs]

theorem behindClose_escape (q : Quote) (n : Nat) (c : Char) (ys : List Char) :
    behindClose (.literal q) n ('\\' :: c :: ys) = behindClose (.literal q) n ys := by
  simp only [behindClose, Reading.next, if_true]

theorem behindClose_unicodeEscape (q : Quote) (n u : Nat) (ys : List Char) :
    behindClose (.literal q) n (unicodeEscape u ++ ys) = behindClose (.literal q) n ys := by
  have hdigit : ∀ k, hexDigit (k % 16) ∉ ['\\', q.char] := fun k hk ↦ by
    have hplain := (hexDigit_plain (Nat.mod_lt k (by decide))).2
    simp only [List.mem_cons, List.not_mem_nil, or_false, not_or] at hk hplain
    rcases hk with hk | hk
    · exact hplain.2.1 hk
    · cases q
      · exact hplain.2.2.2 hk
      · exact hplain.2.2.1 hk
  have hdigits : ∀ c ∈ [hexDigit (u / 0x1000 % 16), hexDigit (u / 0x100 % 16), hexDigit (u / 0x10 % 16),
      hexDigit (u % 16)], c ∉ ['\\', q.char] := by
    simp only [List.forall_mem_cons]
    exact ⟨hdigit _, hdigit _, hdigit _, hdigit _, List.forall_mem_nil _⟩
  exact (behindClose_escape q n 'u' _).trans (behindClose_literal_of_notMem hdigits n ys)

/-- A character between quotes, in whatever way it is written, does not end the literal. -/
theorem behindClose_quoteChar (q : Quote) (n : Nat) (c : Char) (ys : List Char) :
    behindClose (.literal q) n (quoteChar q.char c ++ ys) = behindClose (.literal q) n ys := by
  rcases quoteChar_cases q.char_cases c with ⟨e, -, h⟩ | ⟨-, hc, h⟩ | ⟨-, h⟩
  · rw [h]
    exact behindClose_escape q n e ys
  · rw [h]
    refine behindClose_literal_of_notMem (List.forall_mem_singleton.mpr fun hmem ↦ hc ?_) n ys
    simp only [List.mem_cons, List.not_mem_nil, or_false] at hmem ⊢
    exact hmem.imp_right Or.inl
  · rw [h]
    induction units16 c with
    | nil => rfl
    | cons u us ih => rw [List.flatMap_cons, List.append_assoc, behindClose_unicodeEscape, ih]

theorem behindClose_quoted (q : Quote) (s : String) (n : Nat) (ys : List Char) :
    behindClose .code n ((quoted q.char s).toList ++ ys) = behindClose .code n ys := by
  have hbody : ∀ cs : List Char, behindClose (.literal q) n (quoteChars q.char cs ++ q.char :: ys) =
      behindClose .code n ys := by
    intro cs
    induction cs with
    | nil =>
        have hquote : q.char ≠ '\\' := by cases q <;> decide
        simp only [quoteChars_nil, List.nil_append, behindClose, Reading.next, hquote, if_false, if_true]
    | cons c cs ih => rw [quoteChars_cons, List.append_assoc, behindClose_quoteChar, ih]
  have hopen : ∀ rest, behindClose .code n (q.char :: rest) = behindClose (.literal q) n rest := fun rest ↦ by
    cases q <;> rfl
  rw [toList_quoted, List.cons_append, List.cons_append, hopen, List.append_assoc]
  exact hbody s.toList

namespace Balanced

variable {xs ys : List Char}

theorem of_forall (hx : ∀ c ∈ xs, c ∉ ['(', ')', '"', '\'']) : Balanced xs := by
  induction xs with
  | nil => exact .nil
  | cons c xs ih =>
      obtain ⟨hc, hxs⟩ := List.forall_mem_cons.mp hx
      exact (char hc).append (ih hxs)

/-- A reader gets past the text as if it were not there. -/
theorem behindClose_append (hx : Balanced xs) (n : Nat) (ys : List Char) :
    behindClose .code n (xs ++ ys) = behindClose .code n ys := by
  induction hx generalizing n ys with
  | nil => rfl
  | @char c hc =>
      have hnext := next_code hc
      simp only [List.mem_cons, List.not_mem_nil, or_false, not_or] at hc
      simp only [List.singleton_append, behindClose, hc.1, hc.2.1, if_false, hnext]
  | literal q s => exact behindClose_quoted q s n ys
  | append _ _ ihx ihy => rw [List.append_assoc, ihx, ihy]
  | @parens xs _ ih =>
      calc behindClose .code n ('(' :: xs ++ [')'] ++ ys)
          = behindClose .code (n + 1) (xs ++ ')' :: ys) := by simp [behindClose]
        _ = behindClose .code (n + 1) (')' :: ys) := ih _ _
        _ = behindClose .code n ys := by simp [behindClose]

/-- The bracket that such a text opens with is closed in the text, whatever comes behind it. -/
theorem exists_behindClose (hx : Balanced xs) {tail : List Char} (h : xs = '(' :: tail) :
    ∃ rest, ∀ ys, behindClose .code 0 (tail ++ ys) = some (rest ++ ys) := by
  induction hx generalizing tail with
  | nil => cases h
  | char hc =>
      cases h
      exact absurd List.mem_cons_self hc
  | literal q s =>
      rw [toList_quoted] at h
      cases q <;> cases h
  | @append xs ys _ _ ihx ihy =>
      cases xs with
      | nil => exact ihy h
      | cons c xs =>
          obtain ⟨rfl, rfl⟩ := List.cons.inj (show c :: (xs ++ ys) = '(' :: tail from h)
          obtain ⟨rest, hrest⟩ := ihx rfl
          refine ⟨rest ++ ys, fun zs ↦ ?_⟩
          rw [List.append_assoc, hrest, List.append_assoc]
  | @parens xs hx _ =>
      obtain ⟨-, rfl⟩ := List.cons.inj (show '(' :: (xs ++ [')']) = '(' :: tail from h)
      refine ⟨[], fun ys ↦ ?_⟩
      rw [List.append_assoc, hx.behindClose_append]
      simp [behindClose]

theorem isEnclosed_parens (hx : Balanced xs) : isEnclosed ('(' :: xs ++ [')']) = true := by
  have hclose : behindClose .code 0 (xs ++ [')']) = some [] := by
    rw [hx.behindClose_append]
    rfl
  simp only [List.cons_append, isEnclosed, hclose, decide_true, Bool.and_self]

/-- With something behind it, such a text is not enclosed. -/
theorem isEnclosed_append (hx : Balanced xs) (hne : xs ≠ []) (hy : ys ≠ []) : isEnclosed (xs ++ ys) = false := by
  cases xs with
  | nil => exact absurd rfl hne
  | cons c tail =>
      by_cases hc : c = '('
      · obtain ⟨rest, hrest⟩ := hx.exists_behindClose (congrArg (· :: tail) hc)
        have hbehind : behindClose .code 0 (tail ++ ys) ≠ some [] := by
          rw [hrest]
          simpa using fun _ ↦ hy
        simp only [List.cons_append, isEnclosed, hbehind, decide_false, Bool.and_false]
      · exact isEnclosed_of_head? (by simpa using hc)

end Balanced

/-- Two brackets side by side, brackets in a literal, and brackets around all of it. -/
example : isEnclosed "(a) + (b)".toList = false ∧ isEnclosed "(')' + \"\\\")\")".toList = true := by decide

end JavaSource.Text
