import JavaSource.Proofs.Expression.ArrayCreation
import JavaSource.Proofs.Rendering.Spelling
import JavaSource.Proofs.Text.OuterBrackets

/-!
# Parentheses around expressions

With valid names in it, an expression is printed as a text that closes all brackets it opens, and its own parentheses,
where it has any, are the outermost ones. What is inside them is not in parentheses once more.
-/

namespace JavaSource

open Event (commas)
open Text (Balanced isEnclosed)

/-! ## Texts that stand in brackets -/

/-- Characters that make no bracket, no literal and no space beside a bracket. -/
def isQuiet (c : Char) : Bool := c ∉ ['(', ')', '"', '\'', ',', '=', ';']

theorem isQuiet_of_isIdentifierPart {c : Char} (hc : isIdentifierPart c = true) : isQuiet c = true := by
  have hne : ∀ d ∈ spacingChars, c ≠ d := ne_of_mem_spacingChars hc
  simp only [spacingChars, List.forall_mem_cons] at hne
  simp [isQuiet, hne]

theorem isQuiet_of_isNameChar {c : Char} (hc : isNameChar c = true) : isQuiet c = true := by
  rcases Bool.or_eq_true_iff.mp hc with hc | hc
  · exact isQuiet_of_isIdentifierPart hc
  · obtain rfl : c = '.' := of_decide_eq_true hc
    decide

theorem isQuiet_of_isFigure {c : Char} (hc : IsFigure c) : isQuiet c = true := by
  rcases hc with hc | hc
  · exact isQuiet_of_isIdentifierPart (identifierPart_of_isDigit hc).1
  · exact List.all_eq_true.mp (by decide : ['-', '.', 'e'].all isQuiet = true) c hc

theorem needsSpace_open {c : Char} (hc : c ≠ '=') : needsSpace '(' c = false := by
  unfold needsSpace
  split
  · rfl
  · simp +decide [hc]

theorem needsSpace_close {c : Char} (hc : c ∉ [',', '=', ';']) : needsSpace c ')' = false := by
  unfold needsSpace
  split
  · rfl
  · simp +decide [hc]

theorem balanced_seam (xs ys : List Char) : Balanced (seam xs ys) := by
  rcases seam_cases xs ys with h | h
  · exact h ▸ .nil
  · exact h ▸ .char (by decide)

theorem Text.Balanced.weld {xs ys : List Char} (hx : Balanced xs) (hy : Balanced ys) : Balanced (weld xs ys) :=
  (hx.append (balanced_seam xs ys)).append hy

namespace Event

/-- Texts on one line that close all brackets that they open. -/
structure Paired (m : Model) (r : Resolution) (es : List Event) : Prop where
  texts : AllText (fun _ ↦ True) m r es
  balanced : Balanced (line m r es)

/-- Brackets around the texts stand right beside them. -/
structure Neat (m : Model) (r : Resolution) (es : List Event) : Prop extends Paired m r es where
  opens : ∃ c ∈ (line m r es).head?, c ≠ '='
  closes : ∃ c ∈ (line m r es).getLast?, c ∉ [',', '=', ';']

/-- The texts are in brackets of their own, or they are not in brackets. In neither case are they in brackets once
more. -/
structure Outlined (own : Bool) (m : Model) (r : Resolution) (es : List Event) : Prop extends Neat m r es where
  outline : ∃ inner, Balanced inner ∧ isEnclosed inner = false ∧
    line m r es = if own then '(' :: inner ++ [')'] else inner

variable {m : Model} {r : Resolution} {a b es : List Event}

namespace Paired

theorem nil : Paired m r [] := ⟨allText_nil, .nil⟩

theorem append (ha : Paired m r a) (hb : Paired m r b) : Paired m r (a ++ b) where
  texts := allText_append.mpr ⟨ha.texts, hb.texts⟩
  balanced := line_append (m := m) (r := r) a b ▸ ha.balanced.weld hb.balanced

theorem text {s : String} (h : Balanced s.toList) : Paired m r [.text s] where
  texts := allText_text_cons.mpr ⟨trivial, allText_nil⟩
  balanced := (line_text s).symm ▸ h

theorem commas {parts : List (List Event)} (h : ∀ part ∈ parts, Paired m r part) : Paired m r (commas parts) := by
  induction parts with
  | nil => exact .nil
  | cons part parts ih =>
      obtain ⟨hpart, hparts⟩ := List.forall_mem_cons.mp h
      cases parts with
      | nil => exact hpart
      | cons next rest =>
          have hcomma : Paired m r [.text ","] := .text (.char (by decide))
          exact hpart.append (hcomma.append (ih hparts))

end Paired

namespace Neat

theorem line_ne_nil (h : Neat m r es) : line m r es ≠ [] := by
  intro hnil
  obtain ⟨c, hc, -⟩ := h.opens
  rw [hnil] at hc
  cases hc

theorem around (ha : Neat m r a) (hes : Paired m r es) (hb : Neat m r b) : Neat m r (a ++ (es ++ b)) where
  toPaired := ha.toPaired.append (hes.append hb.toPaired)
  opens := by
    rw [line_append, head?_weld ha.line_ne_nil]
    exact ha.opens
  closes := by
    rw [← List.append_assoc, line_append, getLast?_weld hb.line_ne_nil]
    exact hb.closes

theorem append (ha : Neat m r a) (hb : Neat m r b) : Neat m r (a ++ b) := ha.around .nil hb

/-- Texts in front of others are not enclosed with them. -/
theorem isEnclosed_append (ha : Neat m r a) (hb : line m r b ≠ []) : isEnclosed (line m r (a ++ b)) = false := by
  rw [line_append, weld, List.append_assoc]
  exact ha.balanced.isEnclosed_append ha.line_ne_nil (List.append_ne_nil_of_right_ne_nil _ hb)

theorem weld_close (h : Neat m r es) : weld (line m r es) [')'] = line m r es ++ [')'] := by
  refine weld_eq_append fun c hc y hy ↦ ?_
  obtain rfl : ')' = y := Option.some.inj hy
  obtain ⟨c', hc', hlast⟩ := h.closes
  exact Option.mem_unique hc' hc ▸ needsSpace_close hlast

theorem weld_open (h : Neat m r es) {xs : List Char} (hlast : xs.getLast? = some '(') (ys : List Char) :
    weld xs (line m r es ++ ys) = xs ++ (line m r es ++ ys) := by
  refine weld_eq_append fun x hx c hc ↦ ?_
  obtain rfl : '(' = x := Option.some.inj (hlast.symm.trans hx)
  rw [List.head?_append_of_ne_nil _ h.line_ne_nil] at hc
  obtain ⟨c', hc', hfirst⟩ := h.opens
  exact Option.mem_unique hc' hc ▸ needsSpace_open hfirst

theorem line_parens (h : Neat m r es) : line m r (parens es) = '(' :: line m r es ++ [')'] := by
  rw [Event.line_parens, h.weld_close, h.weld_open rfl]
  rfl

end Neat

theorem Paired.neat_parens (h : Paired m r es) : Neat m r (parens es) := by
  obtain ⟨inner, hinner, hline⟩ :
      ∃ inner, Balanced inner ∧ line m r (parens es) = '(' :: inner ++ [')'] := by
    refine ⟨_, ((balanced_seam ['('] (weld (line m r es) [')'])).append h.balanced).append
      (balanced_seam (line m r es) [')']), ?_⟩
    rw [Event.line_parens, weld.eq_def ['('], weld.eq_def (line m r es)]
    simp
  refine ⟨⟨?_, hline ▸ hinner.parens⟩, ⟨'(', by simp [hline], by decide⟩, ⟨')', ?_, by decide⟩⟩
  · simpa only [parens, List.cons_append, allText_text_cons, allText_append, allText_nil, and_true, true_and]
      using h.texts
  · rw [hline]
    exact List.getLast?_concat

theorem neat_text {s : String} (hbalanced : Balanced s.toList) (hopens : ∃ c ∈ s.toList.head?, c ≠ '=')
    (hcloses : ∃ c ∈ s.toList.getLast?, c ∉ [',', '=', ';']) : Neat m r [.text s] := by
  refine ⟨.text hbalanced, ?_, ?_⟩
  · rwa [line_text]
  · rwa [line_text]

/-- An operator with spaces around it. -/
theorem neat_operator {s : String} (hchars : s.toList.all (· ∉ ['(', ')', '"', '\'']) = true)
    (hhead : s.toList.head? = some ' ') (hlast : s.toList.getLast? = some ' ') : Neat m r [.text s] :=
  neat_text (.of_forall fun c hc ↦ of_decide_eq_true (List.all_eq_true.mp hchars c hc)) ⟨' ', hhead, by decide⟩
    ⟨' ', hlast, by decide⟩

theorem Neat.outlined (h : Neat m r es) (hopen : isEnclosed (line m r es) = false) : Outlined false m r es :=
  ⟨h, _, h.balanced, hopen, rfl⟩

theorem Neat.outlined_around (ha : Neat m r a) (hes : Paired m r es) (hb : Neat m r b) :
    Outlined false m r (a ++ (es ++ b)) := by
  refine (ha.around hes hb).outlined (ha.isEnclosed_append ?_)
  rw [line_append, weld]
  exact List.append_ne_nil_of_right_ne_nil _ hb.line_ne_nil

theorem Neat.outlined_append (ha : Neat m r a) (hb : Neat m r b) : Outlined false m r (a ++ b) :=
  ha.outlined_around .nil hb

/-- Brackets around texts of which the first does not open a bracket for all. -/
theorem Neat.outlined_parens (ha : Neat m r a) (hb : Neat m r b) : Outlined true m r (parens (a ++ b)) :=
  ⟨(ha.append hb).toPaired.neat_parens, _, (ha.append hb).balanced, ha.isEnclosed_append hb.line_ne_nil,
    (ha.append hb).line_parens⟩

theorem Outlined.of_line_eq {own : Bool} (ha : Outlined own m r a) (htexts : AllText (fun _ ↦ True) m r b)
    (h : line m r b = line m r a) : Outlined own m r b :=
  ⟨⟨⟨htexts, h ▸ ha.balanced⟩, h ▸ ha.opens, h ▸ ha.closes⟩, h ▸ ha.outline⟩

theorem outlined_text {s : String} (hne : s ≠ "") (hs : s.toList.all isQuiet = true) :
    Outlined false m r [.text s] := by
  have hnil : s.toList ≠ [] := fun h ↦ hne (String.toList_eq_nil_iff.mp h)
  have hquiet : ∀ c ∈ s.toList, c ∉ ['(', ')', '"', '\'', ',', '=', ';'] := fun c hc ↦ by
    simpa only [isQuiet, decide_eq_true_eq] using List.all_eq_true.mp hs c hc
  have hfirst := hquiet _ (List.head_mem hnil)
  have hlast := hquiet _ (List.getLast_mem hnil)
  have hneat : Neat m r [.text s] := by
    refine neat_text (.of_forall fun c hc hmem ↦ hquiet c hc ?_) ⟨_, List.head?_eq_some_head hnil, ?_⟩
      ⟨_, List.getLast?_eq_some_getLast hnil, ?_⟩
    · exact List.mem_append_left [',', '=', ';'] hmem
    · exact fun h ↦ hfirst (by simp [h])
    · exact fun hmem ↦ hlast (List.mem_append_right ['(', ')', '"', '\''] hmem)
  refine hneat.outlined (Text.isEnclosed_of_head? fun h ↦ hfirst ?_)
  rw [line_text, List.head?_eq_some_head hnil, Option.some.injEq] at h
  simp [h]

theorem neat_word {s : String} (hne : s ≠ "") (hs : s.toList.all isQuiet = true) : Neat m r [.text s] :=
  (outlined_text hne hs).toNeat

theorem outlined_figures {s : String} (hne : s ≠ "") (hs : ∀ c ∈ s.toList, IsFigure c) :
    Outlined false m r [.text s] :=
  outlined_text hne (List.all_eq_true.mpr fun c hc ↦ isQuiet_of_isFigure (hs c hc))

theorem outlined_number {s suffix : String} (hs : ∀ c ∈ s.toList, IsFigure c) (hne : suffix ≠ "")
    (hsuffix : suffix.toList.all isQuiet = true) : Outlined false m r [.text (s ++ suffix)] := by
  refine outlined_text (fun h ↦ hne (String.append_eq_empty_iff.mp h).2) ?_
  rw [String.toList_append, List.all_append, hsuffix, Bool.and_true]
  exact List.all_eq_true.mpr fun c hc ↦ isQuiet_of_isFigure (hs c hc)

theorem outlined_spelling {s : String} (hs : IsSpelling s) : Outlined false m r [.text s] :=
  outlined_text hs.ne_empty (List.all_eq_true.mpr fun c hc ↦ isQuiet_of_isNameChar (hs.chars c hc))

theorem neat_name {n : String} (hn : IsDottedName n) : Neat m r [.text n] :=
  (outlined_spelling (.of_isDottedName hn)).toNeat

theorem outlined_identifier {n : String} (hn : IsDottedName n) : Outlined false m r [.identifier n] :=
  (outlined_spelling (.of_isDottedName hn)).of_line_eq (by simp) (by simp)

theorem outlined_quoted (q : Text.Quote) (s : String) : Outlined false m r [.text (Text.quoted q.char s)] := by
  have hneat : Neat m r [.text (Text.quoted q.char s)] := by
    refine neat_text (.literal q s) ⟨q.char, by simp, by cases q <;> decide⟩
      ⟨q.char, ?_, by cases q <;> decide⟩
    rw [Text.toList_quoted]
    exact List.getLast?_concat
  refine hneat.outlined (Text.isEnclosed_of_head? ?_)
  rw [line_text, Text.toList_quoted]
  cases q <;> simp [Text.Quote.char]

theorem outlined_texts {texts : List String} (hne : texts ≠ []) (h : ∀ s ∈ texts, IsSpelling s) :
    Outlined false m r (texts.map .text) := by
  induction texts with
  | nil => exact absurd rfl hne
  | cons s texts ih =>
      obtain ⟨hs, htexts⟩ := List.forall_mem_cons.mp h
      cases texts with
      | nil => exact outlined_spelling hs
      | cons t texts => exact (outlined_spelling hs).toNeat.outlined_append (ih (List.cons_ne_nil t texts) htexts).toNeat

theorem outlined_reference {c : ClassId} (hc : m.WellNamed c) : Outlined false m r [.reference c] := by
  have hchain : ∀ d ∈ c :: m.outers c, m.WellNamed d :=
    List.forall_mem_cons.mpr ⟨hc, fun d hd ↦ hc.of_mem_outersWithin hd⟩
  have hspell := outlined_texts (m := m) (r := r) (Model.spellChain_ne_nil r m c (m.outers c))
    (Model.isSpelling_spellChain r hchain)
  refine hspell.of_line_eq (allText_reference c) ?_
  simp only [line, List.flatMap_singleton, List.flatMap_map, tokens]
  rw [← List.map_eq_flatMap]
  rfl

end Event

/-! ## Types -/

/-- A type without anonymous classes in it, with valid names. -/
inductive JavaType.Named (m : Model) : JavaType → Prop
  | primitive (p : Primitive) : Named m (.primitive p)
  | reference {c : ClassId} (hc : m.WellNamed c) : Named m (.reference c)
  | narrowed {c : ClassId} {args : List JavaType} (hc : m.WellNamed c) (hargs : ∀ t ∈ args, Named m t) :
    Named m (.narrowed c args)
  | array {t : JavaType} (ht : Named m t) : Named m (.array t)
  | var {n : String} (bound : Option JavaType) (hn : IsDottedName n) : Named m (.var n bound)
  | wildcard : Named m .wildcard
  | wildcardExtends {t : JavaType} (ht : Named m t) : Named m (.wildcardExtends t)
  | wildcardSuper {t : JavaType} (ht : Named m t) : Named m (.wildcardSuper t)

namespace Event

variable {m : Model} {r : Resolution}

theorem neat_typeArgs {parts : List (List Event)} (h : ∀ part ∈ parts, Paired m r part) : Neat m r (typeArgs parts) :=
  (neat_word (s := "<") (by decide) (by decide)).around (.commas h)
    (neat_word (s := String.singleton closeMark) (by decide) (by decide))

end Event

namespace JavaType

open Event

theorem eventsEach_eq_map (base : ClassId → List Event) (ts : List JavaType) :
    eventsEach base ts = ts.map (events base) := by
  induction ts with
  | nil => rfl
  | cons t ts ih => rw [eventsEach, ih, List.map_cons]

/-- A type is printed without brackets around it. -/
theorem Named.outlined {m : Model} {t : JavaType} (h : t.Named m) (r : Resolution)
    (base : ClassId → List Event) : Outlined false m r (t.events base) := by
  have hbrackets : Neat m r [.text "[]"] := neat_word (by decide) (by decide)
  have hextends : Neat m r [.text "? extends "] := neat_word (by decide) (by decide)
  have hsuper : Neat m r [.text "? super "] := neat_word (by decide) (by decide)
  induction h with
  | primitive p =>
      rw [events]
      exact outlined_text (by cases p <;> decide) (by cases p <;> decide)
  | reference hc =>
      rw [events]
      exact outlined_reference hc
  | narrowed hc _ ih =>
      rw [events, eventsEach_eq_map]
      exact (outlined_reference hc).toNeat.outlined_append
        (neat_typeArgs (List.forall_mem_map.mpr fun t ht ↦ (ih t ht).toPaired))
  | @array t ht ih =>
      cases ht with
      | narrowed hc _ =>
          rw [events]
          exact (outlined_reference hc).toNeat.outlined_append hbrackets
      | _ => exact ih.toNeat.outlined_append hbrackets
  | var bound hn =>
      rw [events]
      exact outlined_identifier hn
  | wildcard =>
      rw [events]
      exact outlined_text (by decide) (by decide)
  | wildcardExtends _ ih =>
      rw [events]
      exact hextends.outlined_append ih.toNeat
  | wildcardSuper _ ih =>
      rw [events]
      exact hsuper.outlined_append ih.toNeat

end JavaType

/-! ## Expressions -/

/-- An expression without source text as it stands and without anonymous classes, with valid names. -/
inductive Expr.Named (m : Model) : Expr → Prop
  | null : Named m .null
  | this : Named m .this
  | super : Named m .super
  | bool (b : Bool) : Named m (.bool b)
  | int (n : Int32) : Named m (.int n)
  | long (n : Int64) : Named m (.long n)
  | float (x : Ieee.Datum Ieee.single) : Named m (.float x)
  | double (x : Ieee.Datum Ieee.double) : Named m (.double x)
  | char (c : Char) : Named m (.char c)
  | string (s : String) : Named m (.string s)
  | name {n : String} (hn : IsDottedName n) : Named m (.name n)
  | type {t : JavaType} (ht : t.Named m) : Named m (.type t)
  | field {x : Expr} {n : String} (hx : Named m x) (hn : IsDottedName n) : Named m (.field x n)
  | invoke {n : String} (typeArgs : List JavaType) {args : List Expr} (hn : IsDottedName n)
    (hargs : ∀ a ∈ args, Named m a) : Named m (.invoke n typeArgs args)
  | call {x : Expr} {n : String} {typeArgs : List JavaType} {args : List Expr} (hx : Named m x)
    (hn : IsDottedName n) (htypes : ∀ t ∈ typeArgs, t.Named m) (hargs : ∀ a ∈ args, Named m a) :
    Named m (.call x n typeArgs args)
  | new {t : JavaType} {args : List Expr} (ht : t.Named m) (hargs : ∀ a ∈ args, Named m a) : Named m (.new t args)
  | newArray {t : JavaType} {dims : List Expr} (ht : t.Named m) (hdims : ∀ d ∈ dims, Named m d) :
    Named m (.newArray t dims)
  | arrayInit {t : JavaType} {dims items : List Expr} (ht : t.Named m) (hdims : ∀ d ∈ dims, Named m d)
    (hitems : ∀ x ∈ items, Named m x) : Named m (.arrayInit t dims items)
  | index {x i : Expr} (hx : Named m x) (hi : Named m i) : Named m (.index x i)
  | unary (op : UnaryOp) {x : Expr} (hx : Named m x) : Named m (.unary op x)
  | binary (op : BinaryOp) {x y : Expr} (hx : Named m x) (hy : Named m y) : Named m (.binary op x y)
  | assign (op : Option BinaryOp) {x y : Expr} (hx : Named m x) (hy : Named m y) : Named m (.assign op x y)
  | conditional {test yes no : Expr} (ht : Named m test) (hy : Named m yes) (hn : Named m no) :
    Named m (.conditional test yes no)
  | cast {t : JavaType} {x : Expr} (ht : t.Named m) (hx : Named m x) : Named m (.cast t x)
  | instanceOf {x : Expr} {t : JavaType} (hx : Named m x) (ht : t.Named m) : Named m (.instanceOf x t)
  | classLiteral {t : JavaType} (ht : t.Named m) : Named m (.classLiteral t)

namespace Expr

open Event

variable {m : Model} {r : Resolution} {w : Walk}

theorem neat_arguments {args : List Expr} (h : ∀ a ∈ args, Paired m r (a.events w)) :
    Neat m r (parens (commas (eventsEach w args))) := by
  rw [Plain.eventsEach_eq_map]
  exact (Paired.commas (List.forall_mem_map.mpr h)).neat_parens

theorem neat_squareBrackets {es : List Event} (hes : Neat m r es) : Neat m r (.text "[" :: es ++ [.text "]"]) :=
  ((neat_word (s := "[") (by decide) (by decide)).append hes).append (neat_word (s := "]") (by decide) (by decide))

theorem neat_eventsDims {es : List Event} (hes : Neat m r es) {dims : List Expr}
    (h : ∀ d ∈ dims, Neat m r (d.events w)) : Neat m r (es ++ eventsDims w dims) := by
  induction dims generalizing es with
  | nil => rwa [eventsDims, List.append_nil]
  | cons d dims ih =>
      obtain ⟨hd, hdims⟩ := List.forall_mem_cons.mp h
      have hsize := ih (hes.append (neat_squareBrackets hd)) hdims
      simpa only [eventsDims, List.append_assoc, List.cons_append, List.nil_append] using hsize

/-- An expression with valid names is printed in parentheses of its own exactly when it is classified so. -/
theorem Named.outlined {e : Expr} (h : e.Named m) (hw : w.type = m.typeEvents) :
    Outlined e.isParenthesized m r (e.events w) := by
  have htype : ∀ {t : JavaType}, t.Named m → Outlined false m r (w.type t) := fun ht ↦ hw ▸ ht.outlined r _
  have hpoint : Neat m r [.text "."] := neat_word (by decide) (by decide)
  have hnew : Neat m r [.text "new "] := neat_word (by decide) (by decide)
  have hquestion : Neat m r [.text " ? "] := neat_word (by decide) (by decide)
  have hcolon : Neat m r [.text " : "] := neat_word (by decide) (by decide)
  have hinstance : Neat m r [.text " instanceof "] := neat_word (by decide) (by decide)
  induction h with
  | null | this | super =>
      rw [events]
      exact outlined_text (by decide) (by decide)
  | bool b =>
      rw [events]
      exact outlined_text (by cases b <;> decide) (by cases b <;> decide)
  | int n =>
      rw [events]
      exact outlined_figures (fun h ↦ (framed_intText n.toInt).opens.ne_nil (String.toList_eq_nil_iff.mpr h))
        (isFigure_int n.toInt)
  | long n =>
      rw [events]
      exact outlined_number (isFigure_int n.toInt) (by decide) (by decide)
  | float x =>
      rw [events]
      exact outlined_number (Decimal.isFigure_floatText x) (by decide) (by decide)
  | double x =>
      rw [events]
      exact outlined_number (Decimal.isFigure_floatText x) (by decide) (by decide)
  | char c =>
      rw [events]
      exact outlined_quoted .single _
  | string s =>
      rw [events]
      exact outlined_quoted .double s
  | name hn =>
      rw [events]
      exact outlined_identifier hn
  | type ht =>
      rw [events]
      exact htype ht
  | field _ hn ih =>
      rw [events]
      exact ih.toNeat.outlined_append (hpoint.append (neat_name hn))
  | invoke _ hn _ ih =>
      rw [events]
      exact (outlined_identifier hn).toNeat.outlined_append (neat_arguments fun a ha ↦ (ih a ha).toPaired)
  | @call x n typeArgs args _ hn htypes _ ihx ih =>
      have htypeArgs : Paired m r (if typeArgs = [] then [] else Event.typeArgs (typeArgs.map w.type)) := by
        split
        · exact .nil
        · exact (neat_typeArgs (List.forall_mem_map.mpr fun t ht ↦ (htype (htypes t ht)).toPaired)).toPaired
      have hcall := (neat_name hn).append (neat_arguments fun a ha ↦ (ih a ha).toPaired)
      rw [events, List.append_assoc]
      exact ihx.toNeat.outlined_around (hpoint.toPaired.append htypeArgs) hcall
  | @new t args ht _ ih =>
      have hcreation := (htype ht).toNeat.append (neat_arguments fun a ha ↦ (ih a ha).toPaired)
      rw [events, List.append_nil]
      · exact hnew.outlined_append hcreation
      · rintro c rfl
        cases ht
  | newArray ht _ ih =>
      rw [events, List.cons_append]
      exact hnew.outlined_append (neat_eventsDims (htype ht).toNeat fun d hd ↦ (ih d hd).toNeat)
  | arrayInit ht _ _ ihd ih =>
      have hopen : Neat m r [.text "[]", .text "\x7b"] :=
        (neat_word (s := "[]") (by decide) (by decide)).append (neat_word (s := "\x7b") (by decide) (by decide))
      have hclose : Neat m r [.text "\x7d"] := neat_word (by decide) (by decide)
      have hsizes := neat_eventsDims (htype ht).toNeat fun d hd ↦ (ihd d hd).toNeat
      have hitems := Paired.commas (List.forall_mem_map.mpr fun a ha ↦ (ih a ha).toPaired)
      have hinit := hnew.outlined_append (hsizes.append (hopen.around hitems hclose))
      rw [events, Plain.eventsEach_eq_map]
      simpa only [isParenthesized, List.append_assoc, List.cons_append, List.nil_append] using hinit
  | index _ _ ihx ihi =>
      rw [events, List.append_assoc]
      exact ihx.toNeat.outlined_append (neat_squareBrackets ihi.toNeat)
  | unary op _ ih =>
      have hsymbol : Neat m r [.text op.symbol] := neat_word (by cases op <;> decide) (by cases op <;> decide)
      cases hstep : op.isStep with
      | false =>
          simp only [events, isParenthesized, hstep, Bool.not_false, if_true]
          exact hsymbol.outlined_parens ih.toNeat
      | true =>
          simp only [events, isParenthesized, hstep, Bool.not_true, Bool.false_eq_true, if_false]
          split
          · exact ih.toNeat.outlined_append hsymbol
          · exact hsymbol.outlined_append ih.toNeat
  | binary op _ _ ihx ihy =>
      have hsymbol : Neat m r [.text (" " ++ op.symbol ++ " ")] := by
        cases op <;> exact neat_operator (by decide) (by decide) (by decide)
      rw [events]
      exact ihx.toNeat.outlined_parens (hsymbol.append ihy.toNeat)
  | assign op _ _ ihx ihy =>
      cases op with
      | none =>
          have hsymbol : Neat m r [.text " = "] := neat_operator (by decide) (by decide) (by decide)
          exact ihx.toNeat.outlined_append (hsymbol.append ihy.toNeat)
      | some op =>
          have hsymbol : Neat m r [.text (" " ++ op.symbol ++ "= ")] := by
            cases op <;> exact neat_operator (by decide) (by decide) (by decide)
          exact ihx.toNeat.outlined_append (hsymbol.append ihy.toNeat)
  | conditional _ _ _ iht ihy ihn =>
      rw [events, List.append_assoc]
      exact iht.toNeat.outlined_parens ((hquestion.append ihy.toNeat).append (hcolon.append ihn.toNeat))
  | cast ht _ ih =>
      -- Two brackets are one text here, but they stand side by side as two texts would.
      have hparens := (htype ht).toPaired.neat_parens.outlined_parens ih.toNeat
      rw [events]
      refine hparens.of_line_eq ?_ ?_
      · simpa [parens] using hparens.texts
      · have hopen : weld ['('] ['('] = "((".toList := by decide
        simp only [parens, line_append, line_text_cons, weld_assoc, ← hopen]
        rfl
  | instanceOf _ ht ih =>
      rw [events]
      exact ih.toNeat.outlined_parens (hinstance.append (htype ht).toNeat)
  | classLiteral ht =>
      rw [events]
      exact (htype ht).toNeat.outlined_append (neat_word (by decide) (by decide))

end Expr

end JavaSource
