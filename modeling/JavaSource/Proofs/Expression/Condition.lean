import JavaSource.Proofs.Expression.OuterParentheses

/-!
# Conditions

A statement prints its condition in one pair of parentheses: those of the expression where it is printed in
parentheses of its own, and a pair around it where it is not. What stands in front of the statement and behind it
makes no difference.
-/

namespace JavaSource

open Event (closeMark)
open Text (Balanced isEnclosed)

/-! ## Texts behind others -/

/-- What is printed for a character. -/
def printed (c : Char) : Char := if c = closeMark then '>' else c

namespace Draft

variable {layout : Layout} {d : Draft} {before text : List Char}

/-- The draft has written a text on one line, behind other text and white space. -/
structure HasAdded (d : Draft) (before text : List Char) : Prop where
  text_eq : ∃ lead, (∀ c ∈ lead, c ∈ [' ', '\t', '\n', '\r']) ∧ d.text.toList = before ++ lead ++ text.map printed
  within : text ≠ [] → d.atLineStart = false ∧ d.last = text.getLast?

theorem hasAdded_self (d : Draft) : d.HasAdded d.text.toList [] :=
  ⟨⟨[], List.forall_mem_nil _, by simp⟩, fun h ↦ absurd rfl h⟩

theorem toList_lead_of_within (hstart : d.atLineStart = false) (hlast : d.last = text.getLast?) (first : Char)
    (rest : List Char) : (d.lead layout first).toList = seam text (first :: rest) := by
  simp only [lead, hstart, hlast, Bool.false_eq_true, if_false, seam, List.head?_cons]
  cases text.getLast? with
  | none => rfl
  | some prev => cases hspace : needsSpace prev first <;> simp [hspace]

theorem HasAdded.write (h : d.HasAdded before text) (s : String) :
    (d.write layout s).HasAdded before (weld text s.toList) := by
  cases hs : s.toList with
  | nil => simpa only [Draft.write, hs, weld_nil] using h
  | cons first rest =>
      obtain ⟨space, hspace, htext⟩ := h.text_eq
      have hwritten : (d.write layout s).text.toList =
          before ++ space ++ text.map printed ++ (d.lead layout first).toList ++ (first :: rest).map printed := by
        simp only [Draft.write, hs, String.toList_append, Page.toList_unmark, htext]
        rfl
      refine ⟨?_, fun _ ↦ ?_⟩
      · by_cases hnil : text = []
        · -- The first text of all brings the lead with it.
          refine ⟨space ++ (d.lead layout first).toList, List.forall_mem_append.mpr ⟨hspace, fun c hc ↦ ?_⟩, ?_⟩
          · exact (takesLead_leadOf layout d (.text s)).mem (by simpa only [leadOf, hs] using hc)
          · rw [hwritten, hnil, nil_weld]
            simp
        · obtain ⟨hstart, hlast⟩ := h.within hnil
          have hseam : (seam text (first :: rest)).map printed = seam text (first :: rest) := map_seam _ _
          refine ⟨space, hspace, ?_⟩
          rw [hwritten, toList_lead_of_within hstart hlast first rest, weld, List.map_append, List.map_append, hseam]
          simp only [List.append_assoc]
      · rw [getLast?_weld (List.cons_ne_nil first rest)]
        simp only [Draft.write, hs, and_self]

theorem HasAdded.foldl {P : String → Prop} (h : d.HasAdded before text) {tokens : List Token}
    (ht : ∀ t ∈ tokens, ∃ s, t = .text s ∧ P s) :
    (tokens.foldl (step layout) d).HasAdded before
      (tokens.foldl (fun text t ↦ weld text t.given.toList) text) := by
  induction tokens generalizing d text with
  | nil => exact h
  | cons t tokens ih =>
      obtain ⟨⟨s, rfl, -⟩, hrest⟩ := List.forall_mem_cons.mp ht
      exact ih (h.write s) hrest

end Draft

/-- Events on one line add the text of the line, behind white space, wherever they stand. -/
theorem Page.text_around {P : String → Prop} {m : Model} {r : Resolution} {es : List Event}
    (h : Event.AllText P m r es) (layout : Layout) (before after : List Token) :
    ∃ lead rest, (∀ c ∈ lead, c ∈ [' ', '\t', '\n', '\r']) ∧
      ((ofTokens (before ++ es.flatMap (·.tokens m r) ++ after)).text layout).toList =
        ((ofTokens before).text layout).toList ++ lead ++ (Event.line m r es).map printed ++ rest := by
  have hadded : ((es.flatMap (·.tokens m r)).foldl (Draft.step layout) (Draft.ofTokens layout before)).HasAdded
      (Draft.ofTokens layout before).text.toList (Event.line m r es) :=
    (Draft.ofTokens layout before).hasAdded_self.foldl h
  obtain ⟨lead, hlead, htext⟩ := hadded.text_eq
  rw [← Draft.text_ofTokens, ← Draft.text_ofTokens, Draft.ofTokens, List.foldl_append, List.foldl_append,
    Draft.text_foldl, String.toList_append]
  exact ⟨lead, _, hlead, congrArg (· ++ _) htext⟩

/-! ## Conditions in parentheses -/

theorem printed_eq_iff {mark c : Char} (hmark : mark ∈ Text.codeMarks) : printed c = mark ↔ c = mark := by
  have hother : Text.codeMarks.all (fun mark ↦ '>' ≠ mark ∧ closeMark ≠ mark) = true := by decide
  obtain ⟨hbracket, hclose⟩ := of_decide_eq_true (List.all_eq_true.mp hother mark hmark)
  unfold printed
  split
  · rename_i hc
    exact iff_of_false hbracket fun h ↦ hclose (hc.symm.trans h)
  · exact Iff.rfl

theorem isEnclosed_printed (text : List Char) : isEnclosed (text.map printed) = isEnclosed text :=
  Text.isEnclosed_map (fun _ hmark _ ↦ printed_eq_iff hmark) text

theorem weld_cons_space (xs ys : List Char) : weld xs (' ' :: ys) = xs ++ ' ' :: ys := by
  refine weld_eq_append fun x _ y hy ↦ ?_
  obtain rfl : ' ' = y := Option.some.inj hy
  have hblank : Text.isBlank ' ' = true := by decide
  simp only [needsSpace, hblank, Bool.or_true, if_true]

namespace Event

variable {m : Model} {r : Resolution} {w : Walk} {e : Expr}

theorem Outlined.isEnclosed_line {own : Bool} {es : List Event} (h : Outlined own m r es) :
    isEnclosed (line m r es) = own := by
  obtain ⟨inner, hinner, hopen, hline⟩ := h.outline
  rw [hline]
  cases own with
  | true => exact hinner.isEnclosed_parens
  | false => exact hopen

theorem Outlined.allText_condition (h : Outlined e.isParenthesized m r (e.events w)) (keyword : String) :
    AllText (fun _ ↦ True) m r (e.conditionEvents w keyword) := by
  unfold Expr.conditionEvents
  split <;> simpa using h.texts

/-- A condition is printed behind its keyword in one pair of brackets. -/
theorem Outlined.line_condition (h : Outlined e.isParenthesized m r (e.events w)) (keyword : String) :
    ∃ inner, Balanced inner ∧ isEnclosed inner = false ∧
      line m r (e.events w) = (if e.isParenthesized then '(' :: inner ++ [')'] else inner) ∧
      line m r (e.conditionEvents w keyword) = keyword.toList ++ ' ' :: '(' :: inner ++ [')'] := by
  obtain ⟨inner, hinner, hopen, hline⟩ := h.outline
  refine ⟨inner, hinner, hopen, hline, ?_⟩
  unfold Expr.conditionEvents
  cases hown : e.isParenthesized with
  | true =>
      have hspace : weld " ".toList ('(' :: inner ++ [')']) = ' ' :: '(' :: inner ++ [')'] :=
        weld_eq_append fun x hx y hy ↦ by
          obtain rfl : ' ' = x := Option.some.inj hx
          obtain rfl : '(' = y := Option.some.inj hy
          decide
      rw [if_pos hown] at hline
      rw [if_pos rfl, line_text_cons, line_text_cons, hline, hspace]
      exact (weld_cons_space _ _).trans (by simp)
  | false =>
      rw [hown, if_neg Bool.false_ne_true] at hline
      rw [if_neg Bool.false_ne_true, List.cons_append, List.cons_append, line_text_cons, line_text_cons, line_append,
        line_text, show ")".toList = [')'] from rfl, h.weld_close, show " (".toList = [' ', '('] from rfl,
        h.weld_open rfl, hline]
      exact (weld_cons_space _ _).trans (by simp)

end Event

/-! ## Statements -/

/-- The statement has the expression as its condition, behind the keyword. What it prints in front of it is given as
well. -/
inductive Stmt.Tests (w : Walk) : Stmt → List Event → String → Expr → Prop
  | ifThen (test : Expr) (body : List Stmt) : Tests w (.ifThen test body) [] "if" test
  | ifElse (test : Expr) (body otherwise : List Stmt) : Tests w (.ifElse test body otherwise) [] "if" test
  | whileLoop (test : Expr) (body : List Stmt) : Tests w (.whileLoop test body) [] "while" test
  | doWhile (body : List Stmt) (test : Expr) :
    Tests w (.doWhile body test) (.text "do" :: eventsBlock w body ++ [.text " "]) "while" test
  | switch (selector : Expr) (cases : List SwitchCase) : Tests w (.switch selector cases) [] "switch" selector
  | synchronized (lock : Expr) (body : List Stmt) : Tests w (.synchronized lock body) [] "synchronized" lock

theorem Stmt.Tests.exists_events_eq {w : Walk} {s : Stmt} {front : List Event} {keyword : String} {e : Expr}
    (h : s.Tests w front keyword e) : ∃ rest, s.events w = front ++ e.conditionEvents w keyword ++ rest := by
  cases h with
  | ifThen | whileLoop | synchronized =>
      rw [events, List.append_assoc]
      exact ⟨_, rfl⟩
  | ifElse =>
      rw [events.eq_def]
      exact ⟨_, List.append_assoc _ _ _⟩
  | switch =>
      rw [events]
      exact ⟨_, by simp only [List.nil_append, List.append_assoc]; rfl⟩
  | doWhile body =>
      rw [events]
      exact ⟨[.text ";", .newline], by simp⟩

/-- Behind its beginning and white space, the text goes on with the keyword and with what is inside one pair of
brackets. There are no further brackets around it. -/
structure ConditionBehind (text beginning keyword inner : List Char) : Prop where
  text_eq : ∃ space rest, (∀ c ∈ space, c ∈ [' ', '\t', '\n', '\r']) ∧
    text = beginning ++ space ++ keyword ++ ' ' :: '(' :: inner ++ ')' :: rest
  isEnclosed_around : isEnclosed ('(' :: inner ++ [')']) = true
  isEnclosed_inside : isEnclosed inner = false

/-- The classification of expressions agrees with how they are printed. With valid names in it, an expression is
classified as parenthesized exactly when its text opens with a bracket that is closed by its last character. A
statement over it, wherever it stands, prints it behind its keyword in one pair of brackets. All walks over a model
write types in the same way, whatever bodies they write. -/
theorem Expr.conditions_enclosed {m : Model} {e : Expr} (h : e.Named m) {w : Walk} (hw : w.type = m.typeEvents)
    (layout : Layout) (r : Resolution) :
    isEnclosed (m.eventText layout r (e.events w)).toList = e.isParenthesized ∧
    ∀ (s : Stmt) (front : List Event) (keyword : String), s.Tests w front keyword e →
      ∀ before after : List Token, ∃ inner,
        (m.eventText layout r (e.events w)).toList = (if e.isParenthesized then '(' :: inner ++ [')'] else inner) ∧
        ConditionBehind
          ((Page.ofTokens (before ++ (s.events w).flatMap (·.tokens m r) ++ after)).text layout).toList
          ((Page.ofTokens (before ++ front.flatMap (·.tokens m r))).text layout).toList keyword.toList inner := by
  have houtlined : Event.Outlined e.isParenthesized m r (e.events w) := h.outlined hw
  have htext : (m.eventText layout r (e.events w)).toList = (Event.line m r (e.events w)).map printed :=
    Model.toList_eventText houtlined.texts layout
  refine ⟨?_, fun s front keyword hs before after ↦ ?_⟩
  · rw [htext, isEnclosed_printed, houtlined.isEnclosed_line]
  · obtain ⟨inner, hinner, hopen, hline, hcondition⟩ := houtlined.line_condition keyword
    obtain ⟨behind, hevents⟩ := hs.exists_events_eq
    obtain ⟨space, rest, hspace, haround⟩ := Page.text_around (houtlined.allText_condition keyword) layout
      (before ++ front.flatMap (·.tokens m r)) (behind.flatMap (·.tokens m r) ++ after)
    have hkeyword : keyword.toList.map printed = keyword.toList := by
      cases hs <;> decide
    have hbrackets : ('(' :: inner ++ [')']).map printed = '(' :: inner.map printed ++ [')'] := by
      rw [List.map_append]
      rfl
    refine ⟨inner.map printed, ?_, ⟨space, rest, hspace, ?_⟩, ?_, ?_⟩
    · rw [htext, hline, apply_ite (List.map printed), hbrackets]
    · have htokens : before ++ (s.events w).flatMap (·.tokens m r) ++ after =
          before ++ front.flatMap (·.tokens m r) ++ (e.conditionEvents w keyword).flatMap (·.tokens m r) ++
            (behind.flatMap (·.tokens m r) ++ after) := by
        simp only [hevents, List.flatMap_append, List.append_assoc]
      have hprinted : (keyword.toList ++ ' ' :: '(' :: inner ++ [')']).map printed =
          keyword.toList ++ ' ' :: ('(' :: inner.map printed ++ [')']) := by
        rw [List.append_assoc, List.map_append, hkeyword, ← hbrackets]
        rfl
      rw [htokens, haround, hcondition, hprinted]
      simp
    · rw [← hbrackets, isEnclosed_printed, hinner.isEnclosed_parens]
    · rw [isEnclosed_printed, hopen]

/-- A call on an expression in parentheses, with a literal that holds a bracket. -/
def callOnCast : Expr :=
  .call (.cast (.reference Model.object) (.name "x")) "equals" [] [.string ")"]

theorem Expr.conditions_enclosed_callOnCast :
    callOnCast.Named Model.initial ∧
      isEnclosed (Model.initial.eventText ⟨.tab, .lf⟩ ⟨Model.object, [], []⟩
        (callOnCast.events Model.initial.walk)).toList = callOnCast.isParenthesized ∧
      ∃ inner, ConditionBehind
        ((Page.ofTokens (((Stmt.whileLoop callOnCast []).events Model.initial.walk).flatMap
          (·.tokens Model.initial ⟨Model.object, [], []⟩))).text ⟨.tab, .lf⟩).toList
        [] "while".toList inner := by
  have hobject : Model.initial.WellNamed Model.object := .of_outer_eq_none rfl (by decide) (by decide) (by decide)
  have hnamed : callOnCast.Named Model.initial :=
    .call (.cast (.reference hobject) (.name (by decide))) (by decide) (List.forall_mem_nil _)
      (List.forall_mem_singleton.mpr (.string ")"))
  obtain ⟨hclass, hstatements⟩ :=
    conditions_enclosed (w := Model.initial.walk) hnamed rfl ⟨.tab, .lf⟩ ⟨Model.object, [], []⟩
  obtain ⟨inner, -, hcondition⟩ := hstatements _ _ _ (.whileLoop callOnCast []) [] []
  rw [List.nil_append, List.append_nil] at hcondition
  exact ⟨hnamed, hclass, inner, hcondition⟩

/-- The condition gets a pair of brackets around it, which the cast alone would not. -/
example :
    Model.initial.eventText ⟨.tab, .lf⟩ ⟨Model.object, [], []⟩
        ((Stmt.doWhile [] callOnCast).events Model.initial.walk) =
      "do \x7b\n\x7d while (((java.lang.Object) x).equals(\")\"));\n" := by
  decide +kernel

end JavaSource
