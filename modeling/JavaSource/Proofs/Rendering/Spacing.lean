import JavaSource.Proofs.Rendering.Lines
import JavaSource.Proofs.Text.Runs

/-!
# What is put between texts

A writer puts a lead in front of each text, a space or the indentation of a line, and a separator at each line end,
and nothing else. The leads keep the texts apart: names, plus signs and minus signs of two texts are never joined,
and those of one text are never parted.
-/

namespace JavaSource

namespace Text

/-- The code points of white space. -/
def blankCodes : List Nat :=
  [9, 10, 11, 12, 13, 32, 0x85, 0xa0, 0x1680, 0x2000, 0x2001, 0x2002, 0x2003, 0x2004, 0x2005, 0x2006, 0x2007, 0x2008,
    0x2009, 0x200a, 0x2028, 0x2029, 0x202f, 0x205f, 0x3000]

theorem mem_blankCodes {c : Char} (h : isBlank c = true) : c.toNat ∈ blankCodes := by
  simp only [isBlank, Bool.or_eq_true, Bool.and_eq_true, decide_eq_true_eq] at h
  simp only [blankCodes, List.mem_cons, List.not_mem_nil, or_false]
  omega

/-- White space is no part of a name. -/
theorem isIdentifierPart_of_isBlank {c : Char} (h : isBlank c = true) : isIdentifierPart c = false := by
  have hall : ∀ n ∈ blankCodes, isIdentifierPart (Char.ofNat n) = false := by decide +kernel
  rw [← Char.ofNat_toNat c]
  exact hall c.toNat (mem_blankCodes h)

end Text

open Event (closeMark)
open Text (runs)

/-! ## Characters that are kept apart -/

theorem isBlank_of_isIdentifierPart {c : Char} (h : isIdentifierPart c = true) : Text.isBlank c = false := by
  by_contra hblank
  rw [Text.isIdentifierPart_of_isBlank (by simpa using hblank)] at h
  cases h

theorem ne_of_isIdentifierPart {c d : Char} (h : isIdentifierPart c = true) (hd : isIdentifierPart d = false) :
    c ≠ d := by
  rintro rfl
  rw [h] at hd
  cases hd

/-- A class of characters that spacing keeps apart. What a layout inserts and what a mark is replaced by are
outside it. -/
structure KeptApart (p : Char → Bool) : Prop where
  spaced : ∀ x y, p x = true → p y = true → needsSpace x y = true
  allOutside : [' ', '\t', '\n', '\r', '>', closeMark].all (!p ·) = true

theorem KeptApart.outside {p : Char → Bool} (hp : KeptApart p) {c : Char}
    (hc : c ∈ [' ', '\t', '\n', '\r', '>', closeMark]) : p c = false := by
  simpa only [Bool.not_eq_true'] using List.all_eq_true.mp hp.allOutside c hc

theorem keptApart_isIdentifierPart : KeptApart isIdentifierPart where
  spaced x y hx hy := by
    have hx' := ne_of_isIdentifierPart hx (d := closeMark) (by decide)
    have hy' := ne_of_isIdentifierPart hy (d := closeMark) (by decide)
    simp [needsSpace, isBlank_of_isIdentifierPart, hx, hy, hx', hy']
  allOutside := by decide

theorem keptApart_sign {s : Char} (hs : s = '+' ∨ s = '-') : KeptApart (· = s) where
  spaced x y hx hy := by
    obtain rfl : x = s := by simpa using hx
    obtain rfl : y = x := by simpa using hy
    rcases hs with rfl | rfl <;> decide
  allOutside := by rcases hs with rfl | rfl <;> decide

@[simp] theorem Page.unmark_empty : Page.unmark "" = "" := Page.unmark_eq_empty_iff.mpr rfl

namespace KeptApart

variable {p : Char → Bool} (hp : KeptApart p)
include hp

theorem unmarkChar (c : Char) : p (if c = closeMark then '>' else c) = p c := by
  split
  · rename_i h
    rw [h, hp.outside (by decide), hp.outside (by decide)]
  · rfl

theorem runs_unmark (s : String) : runs p (Page.unmark s).toList = runs p s.toList := by
  rw [Page.unmark, String.toList_map]
  refine Text.runs_map hp.unmarkChar (fun c hc ↦ ?_) s.toList
  rw [if_neg]
  rintro rfl
  rw [hp.outside (by decide)] at hc
  cases hc

end KeptApart

/-! ## Leads -/

/-- What a token brings to the text itself. -/
def Token.given : Token → String
  | .text s => s
  | .newline | .indent | .outdent => ""

/-- What may be put in front of what a token brings. -/
inductive Token.TakesLead (layout : Layout) : Token → String → Prop
  | nothing (s : String) : TakesLead layout (.text s) ""
  | space (s : String) : TakesLead layout (.text s) " "
  | indentation (s : String) (depth : Nat) :
    TakesLead layout (.text s) (String.join (List.replicate depth layout.indent.unit))
  | lineEnd : TakesLead layout .newline layout.separator.text
  | indent : TakesLead layout .indent ""
  | outdent : TakesLead layout .outdent ""

/-- A layout puts in white space only. -/
theorem Token.TakesLead.mem {layout : Layout} {t : Token} {lead : String} (h : t.TakesLead layout lead) {c : Char}
    (hc : c ∈ lead.toList) : c ∈ [' ', '\t', '\n', '\r'] := by
  cases h with
  | nothing | indent | outdent => simp at hc
  | space => simp_all
  | lineEnd =>
      have hall : layout.separator.text.toList.all (· ∈ [' ', '\t', '\n', '\r']) = true := by
        cases layout.separator <;> decide
      exact of_decide_eq_true (List.all_eq_true.mp hall c hc)
  | indentation s depth =>
      rw [String.toList_join, List.mem_flatMap] at hc
      obtain ⟨unit, hunit, hc⟩ := hc
      rw [(List.mem_replicate.mp hunit).2] at hc
      cases hindent : layout.indent with
      | tab =>
          have hall : Indent.tab.unit.toList.all (· ∈ [' ', '\t', '\n', '\r']) = true := by decide
          exact of_decide_eq_true (List.all_eq_true.mp hall c (hindent ▸ hc))
      | spaces width =>
          simp only [hindent, Indent.unit, String.toList_ofList, List.mem_replicate] at hc
          simp [hc.2]

namespace Draft

variable {layout : Layout} {d : Draft} {p : Char → Bool}

/-- What is put in front of what a token brings. -/
def leadOf (layout : Layout) (d : Draft) : Token → String
  | .text s =>
    match s.toList with
    | [] => ""
    | first :: _ => d.lead layout first
  | .newline => layout.separator.text
  | .indent | .outdent => ""

/-- The leads of a sequence of tokens. -/
def leads (layout : Layout) : Draft → List Token → List String
  | _, [] => []
  | d, t :: ts => d.leadOf layout t :: leads layout (d.step layout t) ts

theorem lead_cases (layout : Layout) (d : Draft) (first : Char) :
    d.lead layout first = "" ∨ d.lead layout first = " " ∨
      ∃ depth, d.lead layout first = String.join (List.replicate depth layout.indent.unit) := by
  unfold lead
  split
  · exact Or.inr (Or.inr ⟨_, rfl⟩)
  · split
    · exact Or.inl rfl
    · split
      · exact Or.inr (Or.inl rfl)
      · exact Or.inl rfl

theorem takesLead_leadOf (layout : Layout) (d : Draft) (t : Token) : t.TakesLead layout (d.leadOf layout t) := by
  cases t with
  | newline => exact .lineEnd
  | indent => exact .indent
  | outdent => exact .outdent
  | text s =>
      simp only [leadOf]
      split
      · exact .nothing s
      · rename_i first _ _
        rcases lead_cases layout d first with h | h | ⟨depth, h⟩
        · exact h ▸ .nothing s
        · exact h ▸ .space s
        · exact h ▸ .indentation s depth

theorem forall₂_leads (layout : Layout) (d : Draft) (ts : List Token) :
    List.Forall₂ (Token.TakesLead layout) ts (d.leads layout ts) := by
  induction ts generalizing d with
  | nil => exact .nil
  | cons t ts ih => exact .cons (takesLead_leadOf layout d t) (ih _)

/-- A step writes a lead and what the token brings. -/
theorem text_step (layout : Layout) (d : Draft) (t : Token) :
    (d.step layout t).text = d.text ++ (d.leadOf layout t ++ Page.unmark t.given) := by
  cases t with
  | newline => simp [step, leadOf, Token.given]
  | indent | outdent => simp [step, leadOf, Token.given]
  | text s =>
      cases hs : s.toList with
      | nil => simp [step, write, leadOf, Token.given, hs, (Page.unmark_eq_empty_iff).mpr hs]
      | cons first rest => simp [step, write, leadOf, Token.given, hs, String.append_assoc]

theorem text_foldl (layout : Layout) (d : Draft) (ts : List Token) :
    (ts.foldl (step layout) d).text =
      d.text ++ String.join (List.zipWith (fun lead t ↦ lead ++ Page.unmark t.given) (d.leads layout ts) ts) := by
  induction ts generalizing d with
  | nil => simp
  | cons t ts ih => simp [leads, ih, text_step, String.append_assoc]

/-! ## Seams -/

/-- Where the text stands at the start of a line, it does not end in the class; within a line it ends in the class
where the last text does. -/
structure Seamed (p : Char → Bool) (d : Draft) : Prop where
  start : d.atLineStart = true → ∀ c ∈ d.text.toList.getLast?, p c = false
  inside : d.atLineStart = false → ∃ x, d.last = some x ∧ ∀ c ∈ d.text.toList.getLast?, p c = p x

theorem seamed_new (p : Char → Bool) : Seamed p {} where
  start _ := by simp
  inside h := by cases h

/-- A lead keeps the class of the text so far apart from that of the next text. -/
theorem Seamed.apart (hp : KeptApart p) (hd : d.Seamed p) {s : String} {first : Char} {rest : List Char}
    (hs : s.toList = first :: rest) :
    ∀ x ∈ (d.text ++ d.lead layout first).toList.getLast?, ¬ (p x = true ∧ p first = true) := by
  rintro x hx ⟨hpx, hpfirst⟩
  rw [String.toList_append, List.getLast?_append] at hx
  cases hlead : (d.lead layout first).toList.getLast? with
  | some c =>
      obtain rfl : c = x := by simpa [hlead] using hx
      have hc := (takesLead_leadOf layout d (.text s)).mem (c := c) (by
        simpa [leadOf, hs] using List.mem_of_getLast? hlead)
      have hout := hp.outside (List.mem_append_left ['>', closeMark] hc)
      rw [hpx] at hout
      cases hout
  | none =>
      have hx : x ∈ d.text.toList.getLast? := by simpa [hlead] using hx
      cases hstart : d.atLineStart with
      | true =>
          have hout := hd.start hstart x hx
          rw [hpx] at hout
          cases hout
      | false =>
          obtain ⟨y, hlast, hy⟩ := hd.inside hstart
          have hspace := hp.spaced y first (hy x hx ▸ hpx) hpfirst
          simp [lead, hstart, hlast, hspace] at hlead

theorem Seamed.step (hp : KeptApart p) (hd : d.Seamed p) (t : Token) : (d.step layout t).Seamed p := by
  cases t with
  | indent | outdent => exact ⟨hd.start, hd.inside⟩
  | newline =>
      refine ⟨fun _ c hc ↦ ?_, fun h ↦ by cases h⟩
      have hend : ∃ c, layout.separator.text.toList.getLast? = some c ∧ p c = false := by
        cases layout.separator with
        | lf => exact ⟨'\n', by decide, hp.outside (by decide)⟩
        | crlf => exact ⟨'\n', by decide, hp.outside (by decide)⟩
      obtain ⟨e, he, hout⟩ := hend
      obtain rfl : e = c := by simpa [Draft.step, List.getLast?_append, he] using hc
      exact hout
  | text s =>
      cases hs : s.toList with
      | nil => simpa only [Draft.step, write, hs] using hd
      | cons first rest =>
          obtain ⟨x, hx⟩ : ∃ x, (first :: rest).getLast? = some x := ⟨_, List.getLast?_eq_some_getLast (by simp)⟩
          have hlast : (d.step layout (.text s)).last = some x := by simpa [Draft.step, write, hs] using hx
          refine ⟨fun h ↦ by simp [Draft.step, write, hs] at h, fun _ ↦ ⟨x, hlast, ?_⟩⟩
          intro c hc
          simp only [Draft.step, write, hs, String.toList_append, List.getLast?_append, Page.unmark, String.toList_map,
            List.getLast?_map, hx, Option.map_some, Option.some_or, Option.mem_def, Option.some.injEq] at hc
          rw [← hc, hp.unmarkChar]

/-- The runs of the text after a step are those before it and those of what the token brings. -/
theorem Seamed.runs_step (hp : KeptApart p) (hd : d.Seamed p) (t : Token) :
    runs p (d.step layout t).text.toList = runs p d.text.toList ++ runs p t.given.toList := by
  have hwhite : ∀ c ∈ (d.leadOf layout t).toList, p c = false := fun c hc ↦
    hp.outside (List.mem_append_left ['>', closeMark] ((takesLead_leadOf layout d t).mem hc))
  have hlead : runs p (d.text ++ d.leadOf layout t).toList = runs p d.text.toList := by
    rw [String.toList_append, Text.runs_append, Text.runs_eq_nil hwhite, List.append_nil]
    rintro x _ y hy ⟨_, hpy⟩
    rw [hwhite y (List.mem_of_head? hy)] at hpy
    cases hpy
  rw [text_step, ← String.append_assoc, String.toList_append, Text.runs_append, hlead, hp.runs_unmark]
  intro x hx y hy
  cases t with
  | newline | indent | outdent => simp [Token.given] at hy
  | text s =>
      cases hs : s.toList with
      | nil => simp [Token.given, Page.unmark, hs] at hy
      | cons first rest =>
          simp only [Token.given, Page.unmark, String.toList_map, hs, List.map_cons, List.head?_cons, Option.mem_def,
            Option.some.injEq] at hy
          rw [← hy, hp.unmarkChar]
          exact hd.apart hp hs x (by simpa [leadOf, hs] using hx)

theorem Seamed.runs_foldl (hp : KeptApart p) (hd : d.Seamed p) (ts : List Token) :
    runs p (ts.foldl (Draft.step layout) d).text.toList =
      runs p d.text.toList ++ ts.flatMap fun t ↦ runs p t.given.toList := by
  induction ts generalizing d with
  | nil => simp
  | cons t ts ih => rw [List.foldl_cons, ih (hd.step hp t), hd.runs_step hp, List.flatMap_cons, List.append_assoc]

end Draft

theorem Page.closeMark_notMem_unmark (s : String) : closeMark ∉ (unmark s).toList := by
  rw [unmark, String.toList_map]
  intro h
  obtain ⟨c, -, hc⟩ := List.mem_map.mp h
  split at hc
  · cases hc
  · contradiction

theorem Page.unmark_join (ss : List String) : unmark (String.join ss) = String.join (ss.map unmark) := by
  rw [← String.toList_inj, unmark, String.toList_map, String.toList_join, String.toList_join, List.map_flatMap,
    List.flatMap_map]
  simp only [unmark, String.toList_map]

theorem Draft.closeMark_notMem_foldl {layout : Layout} {d : Draft} (hd : closeMark ∉ d.text.toList) (ts : List Token) :
    closeMark ∉ (ts.foldl (step layout) d).text.toList := by
  induction ts generalizing d with
  | nil => exact hd
  | cons t ts ih =>
      refine ih fun h ↦ ?_
      rw [text_step, String.toList_append, String.toList_append, List.mem_append, List.mem_append] at h
      rcases h with h | h | h
      · exact hd h
      · exact absurd ((takesLead_leadOf layout d t).mem h) (by decide)
      · exact Page.closeMark_notMem_unmark _ h

/-- Texts are printed in order, each as it is but for the mark that closes type arguments. What is put between them
is white space of the layout: single spaces, the indentation of lines and line ends. Names, plus signs and minus
signs come out as they went in, none joined and none parted. -/
theorem Page.texts_kept (layout : Layout) (tokens : List Token) :
    (∃ leads, List.Forall₂ (Token.TakesLead layout) tokens leads ∧
      (ofTokens tokens).text layout = String.join (List.zipWith (· ++ ·) leads (tokens.map fun t ↦ unmark t.given))) ∧
    String.join (tokens.map fun t ↦ unmark t.given) = unmark (String.join (tokens.map Token.given)) ∧
    closeMark ∉ ((ofTokens tokens).text layout).toList ∧
    ∀ p ∈ [isIdentifierPart, (· = '+'), (· = '-')],
      runs p ((ofTokens tokens).text layout).toList = tokens.flatMap fun t ↦ runs p t.given.toList := by
  rw [← Draft.text_ofTokens, Draft.ofTokens]
  refine ⟨⟨Draft.leads layout {} tokens, Draft.forall₂_leads layout {} tokens, ?_⟩, ?_, ?_, fun p hp ↦ ?_⟩
  · rw [Draft.text_foldl, List.zipWith_map_right]
    exact String.empty_append
  · rw [unmark_join, List.map_map]
    rfl
  · exact Draft.closeMark_notMem_foldl (by simp) tokens
  · have hapart : KeptApart p := by
      simp only [List.mem_cons, List.not_mem_nil, or_false] at hp
      rcases hp with rfl | rfl | rfl
      · exact keptApart_isIdentifierPart
      · exact keptApart_sign (Or.inl rfl)
      · exact keptApart_sign (Or.inr rfl)
    rw [(Draft.seamed_new p).runs_foldl hapart tokens]
    simp

/-- A minus sign in front of a negative number, a name behind type arguments and a line that starts with a sign. -/
example :
    (Page.ofTokens [.indent, .text "-", .text "-1", .text "<", .text "\uffff", .text "x", .newline, .text "-"]).text
      ⟨.tab, .crlf⟩ = "\t- -1<> x\r\n\t-" := by
  decide +kernel

end JavaSource
