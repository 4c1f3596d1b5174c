import JavaSource.Proofs.Rendering.OneLine
import JavaSource.Proofs.Text.Literal

/-!
# Plain expressions

Expressions of literals, names, operators, casts to primitive types, field accesses and calls. Each begins with a
part of a name, a sign, a quote or an opening bracket and ends with a part of a name, a quote or a closing bracket. So
it is known where spaces stand when its parts are put on a line.
-/

namespace JavaSource

open Event (commas)

namespace Expr

/-- Literals, names, operators that do not step, casts to primitive types, field accesses and calls without type
arguments. All names are valid. -/
inductive Plain : Expr → Prop
  | null : Plain .null
  | this : Plain .this
  | bool (b : Bool) : Plain (.bool b)
  | int (n : Int32) : Plain (.int n)
  | long (n : Int64) : Plain (.long n)
  | string (s : String) : Plain (.string s)
  | name {n : String} (hn : nameFault? n = none) : Plain (.name n)
  | unary {op : UnaryOp} {x : Expr} (hop : op.isStep = false) (hx : Plain x) : Plain (.unary op x)
  | binary (op : BinaryOp) {l r : Expr} (hl : Plain l) (hr : Plain r) : Plain (.binary op l r)
  | conditional {test yes no : Expr} (ht : Plain test) (hy : Plain yes) (hn : Plain no) :
    Plain (.conditional test yes no)
  | cast (p : Primitive) {x : Expr} (hx : Plain x) : Plain (.cast (.primitive p) x)
  | field {receiver : Expr} {n : String} (hr : Plain receiver) (hn : nameFault? n = none) : Plain (.field receiver n)
  | invoke {n : String} {args : List Expr} (hn : nameFault? n = none) (hargs : ∀ a ∈ args, Plain a) :
    Plain (.invoke n [] args)
  | call {receiver : Expr} {n : String} {args : List Expr} (hr : Plain receiver) (hn : nameFault? n = none)
    (hargs : ∀ a ∈ args, Plain a) : Plain (.call receiver n [] args)

/-- The text of an expression on one line. -/
def line (m : Model) (r : Resolution) (e : Expr) : List Char := Event.line m r (e.events m.walk)

/-- The text of expressions with commas between them. -/
def lines (m : Model) (r : Resolution) (es : List Expr) : List Char := Event.line m r (commas (eventsEach m.walk es))

end Expr

/-! ## Where spaces are set -/

/-- The characters that spacing tells apart from others. -/
def spacingChars : List Char :=
  ['-', '+', '=', '\x7b', '@', '"', '\'', '(', ')', ',', ';', '.', '[', ']', '\x7d', '?', Event.closeMark]

theorem ne_of_mem_spacingChars {c : Char} (hc : isIdentifierPart c = true) : ∀ d ∈ spacingChars, c ≠ d := by
  have hother : spacingChars.all (!isIdentifierPart ·) = true := by decide +kernel
  exact fun d hd ↦ ne_of_isIdentifierPart hc (by simpa only [Bool.not_eq_true'] using List.all_eq_true.mp hother d hd)

/-- To spacing, the parts of names are all alike. -/
theorem needsSpace_identifierPart {c : Char} (hc : isIdentifierPart c = true) :
    (∀ x, needsSpace x c = needsSpace x 'a') ∧ ∀ y, needsSpace c y = needsSpace 'a' y := by
  have hletter : isIdentifierPart 'a' = true := by decide
  have hblank := isBlank_of_isIdentifierPart hc
  have hblank' := isBlank_of_isIdentifierPart hletter
  have hne := ne_of_mem_spacingChars hc
  have hne' := ne_of_mem_spacingChars hletter
  simp only [spacingChars, List.forall_mem_cons, List.not_mem_nil, false_imp_iff, implies_true, and_true] at hne hne'
  simp only [needsSpace, hugsCloseMark, hblank, hblank', hc, hletter, hne, hne', List.mem_cons, List.not_mem_nil,
    or_false, implies_true, and_self]

/-- Whether a plain expression, or what stands in its brackets, may begin with the character. -/
def opensExpr (c : Char) : Bool := isIdentifierPart c || c ∈ ['-', '!', '~', '(', '"']

/-- Whether a plain expression may end with the character. -/
def closesExpr (c : Char) : Bool := isIdentifierPart c || c ∈ [')', '"']

theorem opensExpr_of_isIdentifierPart {c : Char} (hc : isIdentifierPart c = true) : opensExpr c = true := by
  rw [opensExpr, hc, Bool.true_or]

theorem closesExpr_of_isIdentifierPart {c : Char} (hc : isIdentifierPart c = true) : closesExpr c = true := by
  rw [closesExpr, hc, Bool.true_or]

/-- To spacing, the characters that a plain expression may begin with. -/
def openings : List Char := ['a', '-', '!', '~', '(', '"']

/-- To spacing, the characters that a plain expression may end with. -/
def closings : List Char := ['a', ')', '"']

theorem opensExpr_cases {c : Char} (hc : opensExpr c = true) :
    ∃ d ∈ openings, ∀ x, needsSpace x c = needsSpace x d := by
  rcases Bool.or_eq_true_iff.mp hc with hc | hc
  · exact ⟨'a', by decide, (needsSpace_identifierPart hc).1⟩
  · exact ⟨c, List.mem_cons_of_mem _ (by simpa using hc), fun _ ↦ rfl⟩

theorem closesExpr_cases {c : Char} (hc : closesExpr c = true) :
    ∃ d ∈ closings, ∀ y, needsSpace c y = needsSpace d y := by
  rcases Bool.or_eq_true_iff.mp hc with hc | hc
  · exact ⟨'a', by decide, (needsSpace_identifierPart hc).2⟩
  · exact ⟨c, List.mem_cons_of_mem _ (by simpa using hc), fun _ ↦ rfl⟩

/-- A text that begins as a plain expression does, or what stands in its brackets. -/
def Opens (xs : List Char) : Prop := ∃ c ∈ xs.head?, opensExpr c = true

/-- A text that ends as a plain expression does. -/
def Closes (xs : List Char) : Prop := ∃ c ∈ xs.getLast?, closesExpr c = true

namespace Opens

variable {xs ys : List Char}

theorem ne_nil (h : Opens xs) : xs ≠ [] := by
  rintro rfl
  obtain ⟨c, hc, -⟩ := h
  cases hc

theorem append (h : Opens xs) (ys : List Char) : Opens (xs ++ ys) := by
  rw [Opens, List.head?_append_of_ne_nil _ h.ne_nil]
  exact h

/-- What goes for a character and all openings goes for it and any text that opens. -/
theorem needsSpace_eq (h : Opens xs) {x : Char} {space : Bool} (hx : openings.all (needsSpace x · == space) = true) :
    ∀ c ∈ xs.head?, needsSpace x c = space := by
  intro c hc
  obtain ⟨c', hc', hopens⟩ := h
  obtain rfl := Option.mem_unique hc' hc
  obtain ⟨d, hd, hsame⟩ := opensExpr_cases hopens
  rw [hsame, eq_of_beq (List.all_eq_true.mp hx d hd)]

/-- No space is set behind an opening bracket, a point, a negation or a space. -/
theorem weld_right (h : Opens ys) {x : Char} (hx : x ∈ ['(', '[', '.', '!', '~', ' '])
    (hlast : xs.getLast? = some x) : weld xs ys = xs ++ ys := by
  have hall : ['(', '[', '.', '!', '~', ' '].all (fun x ↦ openings.all (needsSpace x · == false)) = true := by
    decide
  refine weld_eq_append fun y hy c hc ↦ ?_
  obtain rfl : x = y := Option.some.inj (hlast.symm.trans hy)
  exact h.needsSpace_eq (List.all_eq_true.mp hall x hx) c hc

theorem weld_comma (h : Opens ys) : weld [','] ys = ',' :: ' ' :: ys := by
  have hspace : ∀ c ∈ ys.head?, needsSpace ',' c = true := h.needsSpace_eq (by decide)
  obtain ⟨c, hc, -⟩ := h
  exact weld_eq_space ⟨',', rfl, c, hc, hspace c hc⟩

end Opens

namespace Closes

variable {xs ys : List Char}

theorem ne_nil (h : Closes xs) : xs ≠ [] := by
  rintro rfl
  obtain ⟨c, hc, -⟩ := h
  cases hc

theorem append (h : Closes ys) (xs : List Char) : Closes (xs ++ ys) := by
  rw [Closes, List.getLast?_append_of_ne_nil _ h.ne_nil]
  exact h

/-- No space is set in front of a closing bracket, a point, a comma or a space. -/
theorem weld_left (h : Closes xs) {y : Char} (hy : y ∈ [')', ']', '.', ',', ' ']) (hhead : ys.head? = some y) :
    weld xs ys = xs ++ ys := by
  have hall : [')', ']', '.', ',', ' '].all (fun y ↦ closings.all (needsSpace · y == false)) = true := by
    decide
  refine weld_eq_append fun c hc x hx ↦ ?_
  obtain rfl : y = x := Option.some.inj (hhead.symm.trans hx)
  obtain ⟨c', hc', hcloses⟩ := h
  obtain rfl := Option.mem_unique hc' hc
  obtain ⟨d, hd, hsame⟩ := closesExpr_cases hcloses
  rw [hsame, eq_of_beq (List.all_eq_true.mp (List.all_eq_true.mp hall y hy) d hd)]

end Closes

/-- A text that begins and ends as a plain expression does. -/
structure Framed (xs : List Char) : Prop where
  opens : Opens xs
  closes : Closes xs

namespace Framed

variable {xs ys : List Char}

theorem append (hx : Framed xs) (mid : List Char) (hy : Framed ys) : Framed (xs ++ mid ++ ys) where
  opens := (hx.opens.append mid).append ys
  closes := hy.closes.append (xs ++ mid)

theorem parens (xs : List Char) : Framed ('(' :: xs ++ [')']) where
  opens := ⟨'(', rfl, by decide⟩
  closes := Closes.append ⟨')', rfl, by decide⟩ ('(' :: xs)

theorem of_part {xs : List Char} (hne : xs ≠ []) (hxs : ∀ c ∈ xs, isIdentifierPart c = true) : Framed xs where
  opens := ⟨xs.head hne, List.head?_eq_some_head hne, opensExpr_of_isIdentifierPart (hxs _ (List.head_mem hne))⟩
  closes :=
    ⟨xs.getLast hne, List.getLast?_eq_some_getLast hne, closesExpr_of_isIdentifierPart (hxs _ (List.getLast_mem hne))⟩

theorem of_all {xs : List Char} (hne : xs ≠ []) (hxs : xs.all isIdentifierPart = true) : Framed xs :=
  of_part hne (List.all_eq_true.mp hxs)

theorem of_nameFault? {n : String} (hn : nameFault? n = none) : Framed n.toList := by
  refine of_part ?_ fun c ↦ isIdentifierPart_of_mem hn
  intro h
  rw [nameFault?, h] at hn
  cases hn

/-- Brackets around a text. -/
theorem weld_parens (hx : Framed xs) : weld ['('] (weld xs [')']) = '(' :: xs ++ [')'] := by
  rw [hx.closes.weld_left (by decide) rfl, (hx.opens.append _).weld_right (x := '(') (by decide) rfl]
  rfl

/-- Operands with an operator between them. -/
theorem weld_infix (hx : Framed xs) (symbol : List Char) (hy : Framed ys) :
    weld xs (weld (' ' :: symbol ++ [' ']) ys) = xs ++ (' ' :: symbol ++ [' ']) ++ ys := by
  have hlast : (' ' :: symbol ++ [' ']).getLast? = some ' ' := List.getLast?_concat
  rw [hy.opens.weld_right (by decide) hlast, hx.closes.weld_left (y := ' ') (by decide) rfl, List.append_assoc xs]

end Framed

theorem Primitive.isIdentifierPart_of_mem_keyword (p : Primitive) : ∀ c ∈ p.keyword.toList, isIdentifierPart c = true :=
  List.all_eq_true.mp (by cases p <;> decide)

@[simp] theorem Model.walk_type_primitive (m : Model) (p : Primitive) :
    m.walk.type (.primitive p) = [.text p.keyword] := by
  simp only [walk, typeEvents, JavaType.events]

namespace Expr

variable {m : Model} {r : Resolution}

@[simp] theorem line_null : line m r .null = "null".toList := Event.line_text _

@[simp] theorem line_this : line m r .this = "this".toList := Event.line_text _

@[simp] theorem line_bool (b : Bool) : line m r (.bool b) = (if b then "true" else "false").toList :=
  Event.line_text _

@[simp] theorem line_int (n : Int32) : line m r (.int n) = (intText n.toInt).toList := Event.line_text _

@[simp] theorem line_long (n : Int64) : line m r (.long n) = (intText n.toInt).toList ++ ['L'] := by
  rw [line, events, Event.line_text, String.toList_append]
  rfl

@[simp] theorem line_string (s : String) : line m r (.string s) = '"' :: Text.quoteChars '"' s.toList ++ ['"'] := by
  rw [line, events, Event.line_text, Text.toList_quoted]

@[simp] theorem line_name (n : String) : line m r (.name n) = n.toList := Event.line_identifier _

@[simp] theorem lines_nil : lines m r [] = [] := rfl

@[simp] theorem lines_singleton (x : Expr) : lines m r [x] = line m r x := rfl

theorem line_unary {op : UnaryOp} (hop : op.isStep = false) {x : Expr} (hx : Framed (line m r x)) :
    line m r (.unary op x) =
      '(' :: (op.symbol.toList ++ seam op.symbol.toList (line m r x) ++ line m r x) ++ [')'] := by
  have hopens : Opens op.symbol.toList := by
    cases op <;> first | exact ⟨_, rfl, by decide⟩ | cases hop
  have hinner : Framed (weld op.symbol.toList (line m r x)) := ⟨(hopens.append _).append _, hx.closes.append _⟩
  refine .trans ?_ hinner.weld_parens
  rw [line, events, hop, Bool.not_false, if_pos rfl, Event.line_parens, Event.line_text_cons]
  rfl

theorem line_binary (op : BinaryOp) {x y : Expr} (hx : Framed (line m r x)) (hy : Framed (line m r y)) :
    line m r (.binary op x y) =
      '(' :: (line m r x ++ (' ' :: op.symbol.toList ++ [' ']) ++ line m r y) ++ [')'] := by
  rw [← (hx.append _ hy).weld_parens, ← hx.weld_infix _ hy, line, events, Event.line_parens, Event.line_append,
    Event.line_text_cons, String.toList_append, String.toList_append]
  rfl

theorem line_conditional {x y z : Expr} (hx : Framed (line m r x)) (hy : Framed (line m r y))
    (hz : Framed (line m r z)) :
    line m r (.conditional x y z) =
      '(' :: (line m r x ++ (' ' :: ['?'] ++ [' ']) ++ (line m r y ++ (' ' :: [':'] ++ [' ']) ++ line m r z)) ++
        [')'] := by
  have hrest := hy.append (' ' :: [':'] ++ [' ']) hz
  rw [← (hx.append _ hrest).weld_parens, ← hx.weld_infix _ hrest, ← hy.weld_infix _ hz, line, events,
    Event.line_parens]
  simp only [Event.line_append, Event.line_text_cons, weld_assoc]
  rfl

theorem line_cast (p : Primitive) {x : Expr} (hx : Framed (line m r x)) :
    line m r (.cast (.primitive p) x) =
      '(' :: ('(' :: p.keyword.toList ++ ')' :: seam [')'] (line m r x) ++ line m r x) ++ [')'] := by
  have hkeyword : Framed p.keyword.toList := .of_part (by cases p <;> decide) p.isIdentifierPart_of_mem_keyword
  have hoperand : weld [')'] (weld (line m r x) [')']) = ')' :: seam [')'] (line m r x) ++ line m r x ++ [')'] := by
    rw [← weld_assoc]
    exact (hx.closes.append ([')'] ++ seam [')'] (line m r x))).weld_left (y := ')') (by decide) rfl
  have hbehind : weld p.keyword.toList (')' :: seam [')'] (line m r x) ++ line m r x ++ [')']) =
      p.keyword.toList ++ (')' :: seam [')'] (line m r x) ++ line m r x ++ [')']) :=
    hkeyword.closes.weld_left (y := ')') (by decide) rfl
  calc line m r (.cast (.primitive p) x)
      = weld ['(', '('] (weld p.keyword.toList (weld [')'] (weld (line m r x) [')']))) := by
        rw [line, events, Model.walk_type_primitive]
        simp only [Event.line_append, Event.line_text_cons, weld_assoc]
        rfl
    _ = ['(', '('] ++ (p.keyword.toList ++ (')' :: seam [')'] (line m r x) ++ line m r x ++ [')'])) := by
        rw [hoperand, hbehind, (hkeyword.opens.append _).weld_right (x := '(') (by decide) rfl]
    _ = _ := by simp

theorem line_field {x : Expr} (hx : Framed (line m r x)) {n : String} (hn : nameFault? n = none) :
    line m r (.field x n) = line m r x ++ '.' :: n.toList := by
  have hpoint : weld ['.'] n.toList = '.' :: n.toList := (Framed.of_nameFault? hn).opens.weld_right (by decide) rfl
  rw [← hx.closes.weld_left (y := '.') (by decide) rfl, ← hpoint, line, events, Event.line_append,
    Event.line_text_cons, Event.line_text]
  rfl

theorem line_invoke {n : String} (hn : nameFault? n = none) {args : List Expr}
    (hargs : args ≠ [] → Framed (lines m r args)) :
    line m r (.invoke n [] args) = n.toList ++ '(' :: lines m r args ++ [')'] := by
  have hinner : weld ['('] (weld (lines m r args) [')']) = '(' :: lines m r args ++ [')'] := by
    by_cases h : args = []
    · rw [h, lines_nil]
      decide
    · exact (hargs h).weld_parens
  have hbracket : weld n.toList ('(' :: lines m r args ++ [')']) = n.toList ++ ('(' :: lines m r args ++ [')']) := by
    refine weld_eq_append fun c hc y hy ↦ ?_
    obtain rfl : '(' = y := Option.some.inj hy
    rw [(needsSpace_identifierPart (isIdentifierPart_of_mem hn (List.mem_of_getLast? hc))).2]
    decide
  calc line m r (.invoke n [] args)
      = weld n.toList (weld ['('] (weld (lines m r args) [')'])) := by
        rw [line, events, Event.line_identifier_cons, Event.line_parens]
        rfl
    _ = n.toList ++ '(' :: lines m r args ++ [')'] := by rw [hinner, hbracket, ← List.append_assoc]

theorem framed_invoke {n : String} (hn : nameFault? n = none) {args : List Expr}
    (hargs : args ≠ [] → Framed (lines m r args)) : Framed (line m r (.invoke n [] args)) := by
  rw [line_invoke hn hargs]
  exact ⟨((Framed.of_nameFault? hn).opens.append _).append _, Closes.append ⟨')', rfl, by decide⟩ _⟩

theorem line_call {x : Expr} (hx : Framed (line m r x)) {n : String} (hn : nameFault? n = none) {args : List Expr}
    (hargs : args ≠ [] → Framed (lines m r args)) :
    line m r (.call x n [] args) = line m r x ++ '.' :: line m r (.invoke n [] args) := by
  have hpoint : weld ['.'] (line m r (.invoke n [] args)) = '.' :: line m r (.invoke n [] args) :=
    (framed_invoke hn hargs).opens.weld_right (by decide) rfl
  rw [← hx.closes.weld_left (y := '.') (by decide) rfl, ← hpoint]
  simp only [line, events, if_true, Event.line_append, Event.line_text_cons, Event.line_identifier_cons,
    Event.line_nil, weld_nil, weld_assoc]
  rfl

theorem lines_cons {x y : Expr} {ys : List Expr} (hx : Framed (line m r x)) (hys : Framed (lines m r (y :: ys))) :
    lines m r (x :: y :: ys) = line m r x ++ ',' :: ' ' :: lines m r (y :: ys) := by
  rw [← hx.closes.weld_left (y := ',') (by decide) rfl, ← hys.opens.weld_comma]
  simp only [line, lines, eventsEach, commas, Event.line_append, Event.line_text_cons]
  rfl

theorem framed_lines {xs : List Expr} (hne : xs ≠ []) (hxs : ∀ x ∈ xs, Framed (line m r x)) :
    Framed (lines m r xs) := by
  induction xs with
  | nil => exact absurd rfl hne
  | cons x xs ih =>
      obtain ⟨hx, hxs⟩ := List.forall_mem_cons.mp hxs
      cases xs with
      | nil => exact hx
      | cons y ys =>
          have hys := ih (List.cons_ne_nil y ys) hxs
          rw [lines_cons hx hys]
          exact ⟨hx.opens.append _, (hys.closes.append [',', ' ']).append _⟩

end Expr

/-! ## Numbers -/

theorem identifierPart_of_isDigit {c : Char} (h : c.isDigit = true) :
    isIdentifierPart c = true ∧ isIdentifierStart c = false := by
  have hall : ∀ k ∈ List.range' 48 10,
      isIdentifierPart (Char.ofNat k) = true ∧ isIdentifierStart (Char.ofNat k) = false := by
    decide
  rw [← Char.ofNat_toNat c]
  refine hall c.toNat ?_
  simp only [Char.isDigit, Bool.and_eq_true, decide_eq_true_eq] at h
  rw [List.mem_range'_1]
  exact ⟨h.1, Nat.lt_succ_of_le h.2⟩

theorem isDigit_of_mem_toDigits {k : Nat} {c : Char} (hc : c ∈ Nat.toDigits 10 k) : c.isDigit = true :=
  Nat.isDigit_of_mem_toDigits (by decide) (by decide) hc

theorem toList_intText_ofNat (k : Nat) : (Expr.intText (.ofNat k)).toList = Nat.toDigits 10 k := String.toList_ofList

theorem toList_intText_negSucc (k : Nat) : (Expr.intText (.negSucc k)).toList = '-' :: Nat.toDigits 10 (k + 1) := by
  change ("-" ++ String.ofList (Nat.toDigits 10 (k + 1))).toList = _
  simp

/-- A number is written in digits, behind a sign where it is negative. -/
theorem toList_intText (n : Int) :
    ∃ k, (Expr.intText n).toList = Nat.toDigits 10 k ∨ (Expr.intText n).toList = '-' :: Nat.toDigits 10 k := by
  cases n with
  | ofNat k => exact ⟨k, Or.inl (toList_intText_ofNat k)⟩
  | negSucc k => exact ⟨k + 1, Or.inr (toList_intText_negSucc k)⟩

theorem isDigit_of_mem_intText {n : Int} {c : Char} (hc : c ∈ (Expr.intText n).toList) :
    c.isDigit = true ∨ c = '-' := by
  obtain ⟨k, h | h⟩ := toList_intText n
  · exact Or.inl (isDigit_of_mem_toDigits (h ▸ hc))
  · rw [h, List.mem_cons] at hc
    exact hc.symm.imp_left isDigit_of_mem_toDigits

theorem framed_toDigits (k : Nat) : Framed (Nat.toDigits 10 k) :=
  .of_part Nat.toDigits_ne_nil fun _ hc ↦ (identifierPart_of_isDigit (isDigit_of_mem_toDigits hc)).1

theorem framed_intText (n : Int) : Framed (Expr.intText n).toList := by
  obtain ⟨k, h | h⟩ := toList_intText n
  · exact h ▸ framed_toDigits k
  · rw [h]
    exact ⟨⟨'-', rfl, by decide⟩, (framed_toDigits k).closes.append ['-']⟩

/-! ## The text of a plain expression -/

namespace Expr.Plain

variable {m : Model} {r : Resolution} {e : Expr}

theorem framed (h : e.Plain) : Framed (line m r e) := by
  induction h with
  | null =>
      rw [line_null]
      exact .of_all (by decide) (by decide)
  | this =>
      rw [line_this]
      exact .of_all (by decide) (by decide)
  | bool b =>
      rw [line_bool]
      cases b <;> exact .of_all (by decide) (by decide)
  | int n => exact line_int n ▸ framed_intText _
  | long n =>
      rw [line_long]
      exact ⟨(framed_intText _).opens.append _, Closes.append ⟨'L', rfl, by decide⟩ _⟩
  | string s =>
      rw [line_string]
      exact ⟨⟨'"', rfl, by decide⟩, Closes.append ⟨'"', rfl, by decide⟩ _⟩
  | name hn => exact line_name _ ▸ .of_nameFault? hn
  | unary hop _ hx => exact line_unary hop hx ▸ .parens _
  | binary op _ _ hl hr => exact line_binary op hl hr ▸ .parens _
  | conditional _ _ _ hx hy hz => exact line_conditional hx hy hz ▸ .parens _
  | cast p _ hx => exact line_cast p hx ▸ .parens _
  | field _ hn hr =>
      rw [line_field hr hn]
      exact ⟨hr.opens.append _, ((Framed.of_nameFault? hn).closes.append ['.']).append _⟩
  | invoke hn _ hargs => exact framed_invoke hn fun hne ↦ framed_lines hne hargs
  | call _ hn _ hr hargs =>
      have hinvoke := framed_invoke hn fun hne ↦ framed_lines hne hargs
      rw [line_call hr hn fun hne ↦ framed_lines hne hargs]
      exact ⟨hr.opens.append _, (hinvoke.closes.append ['.']).append _⟩

theorem framed_each {args : List Expr} (h : ∀ a ∈ args, a.Plain) (hne : args ≠ []) : Framed (lines m r args) :=
  framed_lines hne fun a ha ↦ (h a ha).framed

theorem unmarked_name {n : String} (hn : nameFault? n = none) : Event.Unmarked n := fun hmem ↦
  absurd (isIdentifierPart_of_mem hn hmem) (by decide)

theorem unmarked_intText (n : Int) : Event.Unmarked (intText n) := fun hmem ↦
  absurd (isDigit_of_mem_intText hmem) (by decide)

theorem unmarked_quoted (s : String) : Event.Unmarked (Text.quoted '"' s) := by
  rw [Event.Unmarked, Text.toList_quoted]
  simp only [Text.quoteChars, List.cons_append, List.mem_cons, List.mem_append, List.mem_flatMap, List.not_mem_nil,
    or_false, not_or]
  refine ⟨by decide, ?_, by decide⟩
  rintro ⟨c, -, hc⟩
  exact absurd (Text.isPrintableAscii_of_mem_quoteChar (Or.inl rfl) hc) (by decide)

theorem eventsEach_eq_map (w : Walk) (es : List Expr) : eventsEach w es = es.map (events w) := by
  induction es with
  | nil => rfl
  | cons e es ih => rw [eventsEach, ih, List.map_cons]

theorem allText_arguments {args : List Expr}
    (h : ∀ a ∈ args, Event.AllText Event.Unmarked m r (a.events m.walk)) :
    Event.AllText Event.Unmarked m r (Event.parens (commas (eventsEach m.walk args))) := by
  have hcommas : Event.AllText Event.Unmarked m r (commas (eventsEach m.walk args)) := by
    refine Event.allText_commas (by decide) fun part hpart ↦ ?_
    rw [eventsEach_eq_map, List.mem_map] at hpart
    obtain ⟨a, ha, rfl⟩ := hpart
    exact h a ha
  simp only [Event.parens, Event.allText_append, Event.allText_text_cons, Event.allText_nil, and_true]
  exact ⟨⟨by decide, hcommas⟩, by decide⟩

/-- A plain expression is all text, without marks. -/
theorem allText (h : e.Plain) : Event.AllText Event.Unmarked m r (e.events m.walk) := by
  induction h with
  | null | this => simp +decide [events]
  | bool b => cases b <;> simp +decide [events]
  | int n => simp [events, unmarked_intText]
  | long n => simp +decide [events, unmarked_intText]
  | string s => simp [events, unmarked_quoted]
  | name hn => simp [events, unmarked_name hn]
  | @unary op _ hop _ hx =>
      have hsymbol : Event.Unmarked op.symbol := by cases op <;> decide
      simp +decide [events, hop, Event.parens, hx, hsymbol]
  | binary op _ _ hl hr =>
      have hsymbol : Event.Unmarked op.symbol := by cases op <;> decide
      simp +decide [events, Event.parens, hl, hr, hsymbol]
  | conditional _ _ _ hx hy hz => simp +decide [events, Event.parens, hx, hy, hz]
  | cast p _ hx =>
      have hkeyword : Event.Unmarked p.keyword := by cases p <;> decide
      simp +decide [events, hx, hkeyword]
  | field _ hn hr => simp +decide [events, hr, unmarked_name hn]
  | invoke hn _ hargs => simp [events, unmarked_name hn, allText_arguments hargs]
  | call _ hn _ hr hargs => simp +decide [events, unmarked_name hn, hr, allText_arguments hargs]

theorem lines_eq {m m' : Model} {r r' : Resolution} {args : List Expr} (hargs : ∀ a ∈ args, a.Plain)
    (h : ∀ a ∈ args, line m r a = line m' r' a) : lines m r args = lines m' r' args := by
  induction args with
  | nil => rfl
  | cons a args ih =>
      obtain ⟨ha, hrest⟩ := List.forall_mem_cons.mp hargs
      obtain ⟨hline, h⟩ := List.forall_mem_cons.mp h
      cases args with
      | nil => exact hline
      | cons b args =>
          have hne := List.cons_ne_nil b args
          rw [lines_cons ha.framed (framed_each hrest hne), lines_cons ha.framed (framed_each hrest hne), hline,
            ih hrest h]

/-- The line of a plain expression depends on nothing else. -/
theorem line_eq (h : e.Plain) (m m' : Model) (r r' : Resolution) : line m r e = line m' r' e := by
  induction h with
  | null | this | bool | int | long | string | name => simp
  | unary hop hx ih => rw [line_unary hop hx.framed, line_unary hop hx.framed, ih]
  | binary op hx hy ihx ihy => rw [line_binary op hx.framed hy.framed, line_binary op hx.framed hy.framed, ihx, ihy]
  | conditional hx hy hz ihx ihy ihz =>
      rw [line_conditional hx.framed hy.framed hz.framed, line_conditional hx.framed hy.framed hz.framed, ihx, ihy,
        ihz]
  | cast p hx ih => rw [line_cast p hx.framed, line_cast p hx.framed, ih]
  | field hr hn ih => rw [line_field hr.framed hn, line_field hr.framed hn, ih]
  | invoke hn hargs ih =>
      rw [line_invoke hn (framed_each hargs), line_invoke hn (framed_each hargs), lines_eq hargs ih]
  | call hr hn hargs ihr ih =>
      rw [line_call hr.framed hn (framed_each hargs), line_call hr.framed hn (framed_each hargs), ihr,
        line_invoke hn (framed_each hargs), line_invoke hn (framed_each hargs), lines_eq hargs ih]

/-- A plain expression is printed on one line. -/
theorem toList_eventText (h : e.Plain) (layout : Layout) :
    (m.eventText layout r (e.events m.walk)).toList = line m r e :=
  Model.toList_eventText_of_unmarked h.allText layout

end Expr.Plain
end JavaSource
