import JavaSource.Proofs.Rendering.Spacing

/-!
# Texts on one line

Texts without a line end between them are welded together, with a space at a seam that needs one. To weld is
associative, so the text of events on one line is welded from the texts of its parts, whatever the parts are.
-/

namespace JavaSource

open Event (closeMark)

/-- What stands between two texts on a line. -/
def seam (xs ys : List Char) : List Char :=
  match xs.getLast?, ys.head? with
  | some x, some y => if needsSpace x y then [' '] else []
  | _, _ => []

theorem seam_cases (xs ys : List Char) : seam xs ys = [] ∨ seam xs ys = [' '] := by
  unfold seam
  split
  · split
    · exact Or.inr rfl
    · exact Or.inl rfl
  · exact Or.inl rfl

/-- Two texts on a line, one behind the other. -/
def weld (xs ys : List Char) : List Char := xs ++ seam xs ys ++ ys

@[simp] theorem weld_nil (xs : List Char) : weld xs [] = xs := by simp [weld, seam]

@[simp] theorem nil_weld (ys : List Char) : weld [] ys = ys := by simp [weld, seam]

theorem weld_eq_append {xs ys : List Char} (h : ∀ x ∈ xs.getLast?, ∀ y ∈ ys.head?, needsSpace x y = false) :
    weld xs ys = xs ++ ys := by
  unfold weld seam
  split
  · rename_i x y hx hy
    simp [h x hx y hy]
  · simp

theorem weld_eq_space {xs ys : List Char} (h : ∃ x ∈ xs.getLast?, ∃ y ∈ ys.head?, needsSpace x y = true) :
    weld xs ys = xs ++ ' ' :: ys := by
  obtain ⟨x, hx, y, hy, hspace⟩ := h
  simp [weld, seam, Option.mem_def.mp hx, Option.mem_def.mp hy, hspace]

theorem head?_weld {xs : List Char} (h : xs ≠ []) (ys : List Char) : (weld xs ys).head? = xs.head? := by
  obtain ⟨x, xs, rfl⟩ := List.exists_cons_of_ne_nil h
  simp [weld]

theorem getLast?_weld {ys : List Char} (h : ys ≠ []) (xs : List Char) : (weld xs ys).getLast? = ys.getLast? := by
  rw [weld, List.getLast?_append_of_ne_nil _ h]

theorem weld_assoc (xs ys zs : List Char) : weld (weld xs ys) zs = weld xs (weld ys zs) := by
  by_cases hys : ys = []
  · simp [hys]
  · have hleft : seam (weld xs ys) zs = seam ys zs := by simp only [seam, getLast?_weld hys]
    have hright : seam xs (weld ys zs) = seam xs ys := by simp only [seam, head?_weld hys]
    rw [weld, hleft, weld.eq_def xs (weld ys zs), hright]
    simp only [weld, List.append_assoc]

theorem mem_weld {xs ys : List Char} {c : Char} (h : c ∈ weld xs ys) : c ∈ xs ∨ c = ' ' ∨ c ∈ ys := by
  rw [weld, List.mem_append, List.mem_append] at h
  rcases h with (h | h) | h
  · exact Or.inl h
  · rcases seam_cases xs ys with hseam | hseam
    · rw [hseam] at h
      cases h
    · exact Or.inr (Or.inl (List.mem_singleton.mp (hseam ▸ h)))
  · exact Or.inr (Or.inr h)

namespace Event

variable {m : Model} {r : Resolution}

/-- The text of events that have no line end among them, before marks are replaced. -/
def line (m : Model) (r : Resolution) (events : List Event) : List Char :=
  (events.flatMap (·.tokens m r)).foldl (fun text t ↦ weld text t.given.toList) []

/-- Nothing but texts of a kind comes of the events. -/
def AllText (P : String → Prop) (m : Model) (r : Resolution) (events : List Event) : Prop :=
  ∀ t ∈ events.flatMap (·.tokens m r), ∃ s, t = .text s ∧ P s

end Event

theorem foldl_weld (text : List Char) (tokens : List Token) :
    tokens.foldl (fun text t ↦ weld text t.given.toList) text =
      weld text (tokens.foldl (fun text t ↦ weld text t.given.toList) []) := by
  induction tokens generalizing text with
  | nil => simp
  | cons t tokens ih => rw [List.foldl_cons, List.foldl_cons, ih, ih (weld [] _), nil_weld, weld_assoc]

namespace Event

variable {m : Model} {r : Resolution}

@[simp] theorem line_nil : line m r [] = [] := rfl

@[simp] theorem line_append (xs ys : List Event) : line m r (xs ++ ys) = weld (line m r xs) (line m r ys) := by
  rw [line, List.flatMap_append, List.foldl_append, foldl_weld]
  rfl

theorem line_cons (e : Event) (es : List Event) : line m r (e :: es) = weld (line m r [e]) (line m r es) :=
  line_append [e] es

@[simp] theorem line_text (s : String) : line m r [.text s] = s.toList := nil_weld _

@[simp] theorem line_identifier (s : String) : line m r [.identifier s] = s.toList := nil_weld _

@[simp] theorem line_text_cons (s : String) (es : List Event) :
    line m r (.text s :: es) = weld s.toList (line m r es) := by
  rw [line_cons, line_text]

@[simp] theorem line_identifier_cons (s : String) (es : List Event) :
    line m r (.identifier s :: es) = weld s.toList (line m r es) := by
  rw [line_cons, line_identifier]

theorem line_parens (es : List Event) : line m r (parens es) = weld ['('] (weld (line m r es) [')']) := by
  rw [parens, line_append, line_text_cons, line_text, weld_assoc]
  rfl

end Event

/-! ## The line as it is set -/

theorem Page.toList_unmark (s : String) :
    (Page.unmark s).toList = s.toList.map fun c ↦ if c = closeMark then '>' else c := by
  rw [Page.unmark, String.toList_map]

namespace Draft

variable {layout : Layout} {d : Draft} {text : List Char}

/-- The draft has written a text on its first line. -/
structure HasWritten (d : Draft) (text : List Char) : Prop where
  text_eq : d.text.toList = text.map fun c ↦ if c = closeMark then '>' else c
  atLineStart : d.atLineStart = text.isEmpty
  last : d.last = text.getLast?
  depth : d.depth = 0

theorem hasWritten_new : HasWritten {} [] := ⟨rfl, rfl, rfl, rfl⟩

theorem HasWritten.toList_lead (h : d.HasWritten text) (first : Char) (rest : List Char) :
    (d.lead layout first).toList = seam text (first :: rest) := by
  cases hlast : text.getLast? with
  | none =>
      obtain rfl : text = [] := List.getLast?_eq_none_iff.mp hlast
      simp [lead, seam, h.atLineStart, h.depth]
  | some prev =>
      have hne : text ≠ [] := by
        rintro rfl
        cases hlast
      have hstart : d.atLineStart = false := by
        rw [h.atLineStart]
        simpa using hne
      cases hspace : needsSpace prev first <;>
        simp [lead, seam, hstart, h.last, hlast, hspace]

theorem map_seam (xs ys : List Char) :
    (seam xs ys).map (fun c ↦ if c = closeMark then '>' else c) = seam xs ys := by
  rcases seam_cases xs ys with h | h <;> rw [h] <;> decide

theorem HasWritten.write (h : d.HasWritten text) (s : String) :
    (d.write layout s).HasWritten (weld text s.toList) := by
  cases hs : s.toList with
  | nil => simpa only [Draft.write, hs, weld_nil] using h
  | cons first rest =>
      have hne : weld text (first :: rest) ≠ [] := by simp [weld]
      simp only [Draft.write, hs]
      refine ⟨?_, ?_, ?_, h.depth⟩
      · simp only [String.toList_append, h.text_eq, h.toList_lead first rest, Page.toList_unmark, hs, weld,
          List.map_append, map_seam]
      · simpa using hne
      · rw [getLast?_weld (by simp)]

theorem HasWritten.foldl {P : String → Prop} (h : d.HasWritten text) {tokens : List Token}
    (ht : ∀ t ∈ tokens, ∃ s, t = .text s ∧ P s) :
    (tokens.foldl (step layout) d).HasWritten (tokens.foldl (fun text t ↦ weld text t.given.toList) text) := by
  induction tokens generalizing d text with
  | nil => exact h
  | cons t tokens ih =>
      obtain ⟨⟨s, rfl, -⟩, hrest⟩ := List.forall_mem_cons.mp ht
      exact ih (h.write s) hrest

end Draft

/-- Events that are all text are set on one line. -/
theorem Model.toList_eventText {P : String → Prop} {m : Model} {r : Resolution} {events : List Event}
    (h : Event.AllText P m r events) (layout : Layout) :
    (m.eventText layout r events).toList = (Event.line m r events).map fun c ↦ if c = closeMark then '>' else c := by
  rw [eventText, ← Draft.text_ofTokens]
  exact (Draft.hasWritten_new.foldl h).text_eq

namespace Event

variable {P : String → Prop} {m : Model} {r : Resolution}

theorem AllText.mono {Q : String → Prop} {events : List Event} (h : AllText P m r events) (hPQ : ∀ s, P s → Q s) :
    AllText Q m r events := fun t ht ↦ by
  obtain ⟨s, rfl, hs⟩ := h t ht
  exact ⟨s, rfl, hPQ s hs⟩

@[simp] theorem allText_nil : AllText P m r [] := fun _ ht ↦ by cases ht

@[simp] theorem allText_append {xs ys : List Event} :
    AllText P m r (xs ++ ys) ↔ AllText P m r xs ∧ AllText P m r ys := by
  simp only [AllText, List.flatMap_append, List.mem_append, or_imp, forall_and]

@[simp] theorem allText_text_cons {s : String} {es : List Event} :
    AllText P m r (.text s :: es) ↔ P s ∧ AllText P m r es := by
  rw [← List.singleton_append, allText_append]
  simp [AllText, tokens]

@[simp] theorem allText_identifier_cons {s : String} {es : List Event} :
    AllText P m r (.identifier s :: es) ↔ P s ∧ AllText P m r es := by
  rw [← List.singleton_append, allText_append]
  simp [AllText, tokens]

theorem allText_commas (hcomma : P ",") {parts : List (List Event)} (h : ∀ part ∈ parts, AllText P m r part) :
    AllText P m r (commas parts) := by
  induction parts with
  | nil => exact allText_nil
  | cons part parts ih =>
      obtain ⟨hpart, hparts⟩ := List.forall_mem_cons.mp h
      cases parts with
      | nil => exact hpart
      | cons next rest =>
          simp only [commas, allText_append, allText_text_cons]
          exact ⟨hpart, hcomma, ih hparts⟩

/-- A text without the mark that stands for a bracket. -/
def Unmarked (s : String) : Prop := closeMark ∉ s.toList

instance (s : String) : Decidable (Unmarked s) := inferInstanceAs (Decidable (_ ∉ _))

@[simp] theorem unmarked_append {s t : String} : Unmarked (s ++ t) ↔ Unmarked s ∧ Unmarked t := by
  simp [Unmarked]

theorem closeMark_notMem_line {events : List Event} (h : AllText Unmarked m r events) :
    closeMark ∉ line m r events := by
  have hfold : ∀ (tokens : List Token) (text : List Char), (∀ t ∈ tokens, ∃ s, t = .text s ∧ Unmarked s) →
      closeMark ∉ text → closeMark ∉ tokens.foldl (fun text t ↦ weld text t.given.toList) text := by
    intro tokens
    induction tokens with
    | nil => exact fun _ _ htext ↦ htext
    | cons t tokens ih =>
        intro text ht htext
        obtain ⟨⟨s, rfl, hs⟩, hrest⟩ := List.forall_mem_cons.mp ht
        refine ih _ hrest fun hmem ↦ ?_
        rcases mem_weld hmem with hmem | hmem | hmem
        · exact htext hmem
        · exact absurd hmem (by decide)
        · exact hs hmem
  exact hfold _ _ h List.not_mem_nil

end Event

/-- Without marks the line is the text. -/
theorem Model.toList_eventText_of_unmarked {m : Model} {r : Resolution} {events : List Event}
    (h : Event.AllText Event.Unmarked m r events) (layout : Layout) :
    (m.eventText layout r events).toList = Event.line m r events := by
  have hline : ∀ c ∈ Event.line m r events, (if c = closeMark then '>' else c) = c := fun c hc ↦
    if_neg (ne_of_mem_of_not_mem hc (Event.closeMark_notMem_line h))
  rw [toList_eventText h, List.map_congr_left hline, List.map_id']

end JavaSource
