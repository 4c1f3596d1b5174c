import JavaSource.Proofs.Model.Tables
import JavaSource.Rendering.Source

/-!
# Lines and layout

A text can be written straight through: a writer puts the unit of indentation in front of what starts a line and
a separator at its end, and looks at the last character only to see whether a space is needed. Lines that are
set first and laid out afterwards give the same text, so the layout has no say in what a line holds.
-/

namespace JavaSource

/-- A text in the making, written straight through. -/
structure Draft where
  text : String := ""
  atLineStart : Bool := true
  last : Option Char := none
  depth : Int := 0

namespace Draft

/-- What stands between the text so far and a text with this first character. -/
def lead (layout : Layout) (d : Draft) (first : Char) : String :=
  if d.atLineStart then String.join (List.replicate d.depth.toNat layout.indent.unit)
  else
    match d.last with
    | none => ""
    | some prev => if needsSpace prev first then " " else ""

def write (layout : Layout) (d : Draft) (s : String) : Draft :=
  match s.toList with
  | [] => d
  | first :: rest =>
    { d with
      text := d.text ++ d.lead layout first ++ Page.unmark s, atLineStart := false,
      last := (first :: rest).getLast? }

def step (layout : Layout) (d : Draft) : Token → Draft
  | .text s => d.write layout s
  | .newline => { d with text := d.text ++ layout.separator.text, atLineStart := true, last := none }
  | .indent => { d with depth := d.depth + 1 }
  | .outdent => { d with depth := d.depth - 1 }

def ofTokens (layout : Layout) (tokens : List Token) : Draft := tokens.foldl (step layout) {}

end Draft

namespace Page

theorem unmark_eq_empty_iff {s : String} : unmark s = "" ↔ s.toList = [] := by
  rw [unmark, ← String.toList_inj, String.toList_map]
  simp

/-- The line in the making is empty as long as no character has been written to it. -/
def Settled (p : Page) : Prop := p.current.body = "" ↔ p.last = none

theorem settled_new : Settled {} := iff_of_true rfl rfl

theorem Settled.step {p : Page} (hp : p.Settled) (t : Token) : (p.step t).Settled := by
  cases t with
  | newline => exact iff_of_true rfl rfl
  | indent | outdent => exact hp
  | text s =>
      cases hs : s.toList with
      | nil => simpa only [Page.step, write, hs] using hp
      | cons first rest =>
          have hne : unmark s ≠ "" := by simp [unmark_eq_empty_iff, hs]
          cases hlast : p.last with
          | none => simp [Settled, Page.step, write, hs, hlast, hne]
          | some prev => simp [Settled, Page.step, write, hs, hlast, hne]

theorem text_newline (layout : Layout) (p : Page) :
    (p.step .newline).text layout = p.text layout ++ layout.separator.text := by
  simp [text, step, Line.text, String.append_assoc]

end Page

/-- The draft and the page have come to the same place. -/
structure Draft.Follows (layout : Layout) (d : Draft) (p : Page) : Prop where
  text : d.text = p.text layout
  atLineStart : d.atLineStart = p.last.isNone
  last : d.last = p.last
  depth : d.depth = p.depth

namespace Draft.Follows

variable {layout : Layout} {d : Draft} {p : Page}

theorem start : Follows layout {} {} := ⟨by simp [Page.text, Line.text], rfl, rfl, rfl⟩

theorem write (h : Follows layout d p) (hp : p.Settled) (s : String) :
    Follows layout (d.write layout s) (p.write s) := by
  cases hs : s.toList with
  | nil => simpa only [Draft.write, Page.write, hs] using h
  | cons first rest =>
      have hne : Page.unmark s ≠ "" := by simp [Page.unmark_eq_empty_iff, hs]
      simp only [Draft.write, Page.write, hs]
      cases hlast : p.last with
      | none =>
          have hstart : d.atLineStart = true := by rw [h.atLineStart, hlast, Option.isNone_none]
          have hempty := hp.mpr hlast
          refine ⟨?_, by simp, rfl, h.depth⟩
          simp [h.text, lead, hstart, h.depth, Page.text, Line.text, hempty, hne, String.append_assoc]
      | some prev =>
          have hstart : d.atLineStart = false := by rw [h.atLineStart, hlast, Option.isNone_some]
          have hbody : p.current.body ≠ "" := fun h ↦ by simp [hp.mp h] at hlast
          refine ⟨?_, by simp, rfl, h.depth⟩
          simp [h.text, lead, hstart, h.last, hlast, Page.text, Line.text, hbody, String.append_assoc]

theorem step (h : Follows layout d p) (hp : p.Settled) (t : Token) :
    Follows layout (d.step layout t) (p.step t) := by
  cases t with
  | text s => exact h.write hp s
  | newline => exact ⟨by rw [Page.text_newline, ← h.text]; rfl, rfl, rfl, h.depth⟩
  | indent => exact ⟨h.text, h.atLineStart, h.last, congrArg (· + 1) h.depth⟩
  | outdent => exact ⟨h.text, h.atLineStart, h.last, congrArg (· - 1) h.depth⟩

/-- A whole sequence of tokens takes both from one place to one place. -/
theorem foldl (h : Follows layout d p) (hp : p.Settled) (tokens : List Token) :
    Follows layout (tokens.foldl (Draft.step layout) d) (tokens.foldl Page.step p) := by
  induction tokens generalizing d p with
  | nil => exact h
  | cons t tokens ih => exact ih (h.step hp t) (hp.step t)

end Draft.Follows

theorem Draft.text_ofTokens (layout : Layout) (tokens : List Token) :
    (Draft.ofTokens layout tokens).text = (Page.ofTokens tokens).text layout :=
  (Draft.Follows.start.foldl Page.settled_new tokens).text

namespace Model

/-- The tokens of a unit. -/
def unitTokens (m : Model) (c : ClassId) : List Token :=
  m.preamble (m.resolve c) ++ (m.declarationEvents c).flatMap (·.tokens m (m.resolve c))

theorem unitPage_eq_ofTokens (m : Model) (c : ClassId) : m.unitPage c = Page.ofTokens (m.unitTokens c) := rfl

/-- A unit ends at the end of a line. -/
theorem current_unitPage (m : Model) (c : ClassId) : (m.unitPage c).current = {} := by
  have htokens : m.unitTokens c = (m.preamble (m.resolve c) ++ ((m.entry c).headerEvents ⟨m.typeEvents, m.bodyEvents⟩ ++
      m.bodyEvents c).flatMap (·.tokens m (m.resolve c))) ++ [.newline] := by
    rw [unitTokens, declarationEvents, declarationWith, List.flatMap_append, ← List.append_assoc]
    rfl
  rw [unitPage_eq_ofTokens, htokens, Page.ofTokens, List.foldl_append]
  rfl

/-- The text of a unit is what a writer makes that goes straight through its tokens, and it is one list of lines
laid out: the layout decides on nothing but the indentation of lines that are not empty and on line ends. -/
theorem render_lines {m : Model} {c : ClassId} (hc : m.unitFault? c = none) :
    ∃ lines : List Line, ∀ layout,
      m.render layout c = .ok (Draft.ofTokens layout (m.unitTokens c)).text ∧
        m.render layout c = .ok (String.join (lines.map fun l ↦ l.text layout ++ layout.separator.text)) := by
  refine ⟨(m.unitPage c).lines.toList, fun layout ↦ ?_⟩
  have hrender : m.render layout c = .ok ((m.unitPage c).text layout) := by rw [render, hc]
  refine ⟨?_, ?_⟩
  · rw [hrender, unitPage_eq_ofTokens, Draft.text_ofTokens]
  · rw [hrender, Page.text, current_unitPage]
    simp [Line.text]

theorem render_lines_nestedEverywhere :
    (initial.run nestedEverywhere).unitFault? ⟨1⟩ = none ∧
      ∃ lines : List Line, ∀ layout,
        (initial.run nestedEverywhere).render layout ⟨1⟩ =
            .ok (Draft.ofTokens layout ((initial.run nestedEverywhere).unitTokens ⟨1⟩)).text ∧
          (initial.run nestedEverywhere).render layout ⟨1⟩ =
            .ok (String.join (lines.map fun l ↦ l.text layout ++ layout.separator.text)) := by
  have hunit : (initial.run nestedEverywhere).unitFault? ⟨1⟩ = none := by decide +kernel
  exact ⟨hunit, render_lines hunit⟩

example :
    ((initial.run nestedEverywhere).render ⟨.tab, .crlf⟩ ⟨1⟩).toOption =
      some "package p;\r\n\r\nclass T \x7b\r\n\tenum U \x7b\r\n\t\x7d\r\n\x7d\r\n" := by
  decide +kernel

end Model
end JavaSource
