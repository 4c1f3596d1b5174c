import JavaSource.Proofs.Expression.Plain
import JavaSource.Proofs.Rendering.Returning

/-!
# Array creations

The text of an array creation is that of its element type, with an empty pair of brackets for each dimension, and the
sizes in brackets behind it. An index access puts one more pair of brackets behind the text it is for.
-/

namespace JavaSource

open Event (closeMark)

/-! ## Types are on one line -/

namespace Event

variable {m : Model} {r : Resolution}

theorem allText_reference (c : ClassId) : AllText (fun _ ↦ True) m r [.reference c] := by
  intro t ht
  simp only [List.flatMap_singleton, tokens, List.mem_map] at ht
  obtain ⟨s, -, rfl⟩ := ht
  exact ⟨s, rfl, trivial⟩

end Event

namespace JavaType

variable {m : Model} {r : Resolution} {base : ClassId → List Event}

mutual

theorem allText_events (hbase : ∀ c, Event.AllText (fun _ ↦ True) m r (base c)) :
    ∀ t : JavaType, Event.AllText (fun _ ↦ True) m r (t.events base)
  | .primitive p => by simp [events]
  | .reference c => Event.allText_reference c
  | .narrowed c args => by
    have hargs := Event.allText_commas trivial (allText_eventsEach hbase args)
    rw [events, ← List.singleton_append, Event.allText_append]
    exact ⟨Event.allText_reference c, by simpa [Event.typeArgs, Event.closeTypeArgs] using hargs⟩
  | .array t => by
    have ih := allText_events hbase t
    cases t
    case narrowed c args =>
      rw [events, ← List.singleton_append, Event.allText_append]
      exact ⟨Event.allText_reference c, by simp⟩
    all_goals
      rw [events, Event.allText_append]
      · exact ⟨ih, by simp⟩
      · simp
  | .var name _ => by simp [events]
  | .wildcard => by simp [events]
  | .wildcardExtends t => by simp [events, allText_events hbase t]
  | .wildcardSuper t => by simp [events, allText_events hbase t]
  | .anonymous c => hbase c

theorem allText_eventsEach (hbase : ∀ c, Event.AllText (fun _ ↦ True) m r (base c)) :
    ∀ ts : List JavaType, ∀ part ∈ eventsEach base ts, Event.AllText (fun _ ↦ True) m r part
  | [] => by simp [eventsEach]
  | t :: ts => by
    rw [eventsEach, List.forall_mem_cons]
    exact ⟨allText_events hbase t, allText_eventsEach hbase ts⟩

end

end JavaType

/-- A type is printed on one line. -/
theorem Model.allText_type (m : Model) (r : Resolution) (t : JavaType) :
    Event.AllText (fun _ ↦ True) m r (m.walk.type t) := by
  refine JavaType.allText_events ?_ t
  refine descend_of (P := fun _ l ↦ Event.AllText (fun _ ↦ True) m r l) (fun _ ↦ Event.allText_nil)
    (fun base c hbase ↦ ?_) _ _
  unfold baseStep
  split
  · exact Event.allText_reference object
  · exact JavaType.allText_events hbase _

/-! ## Dimensions -/

/-- The type below all array dimensions, without type arguments where there are dimensions. -/
def JavaType.printedBase (t : JavaType) : JavaType := if t.innermost.2 = 0 then t else t.innermost.1.raw

namespace Model

/-- An array type is printed as its base with a pair of brackets for each dimension. -/
theorem walk_type_eq (m : Model) : ∀ t : JavaType,
    m.walk.type t = m.walk.type t.printedBase ++ List.replicate t.innermost.2 (.text "[]")
  | .array t => by
    cases t with
    | array t =>
        have ih := walk_type_eq m (.array t)
        simp only [JavaType.printedBase, JavaType.innermost, Nat.succ_ne_zero, if_false] at ih ⊢
        rw [List.replicate_succ', ← List.append_assoc, ← ih]
        simp only [walk, typeEvents, JavaType.events]
    | _ => simp [JavaType.printedBase, JavaType.innermost, JavaType.raw, walk, typeEvents, JavaType.events]
  | .primitive _ | .reference _ | .narrowed _ _ | .var _ _ | .wildcard | .wildcardExtends _ | .wildcardSuper _
  | .anonymous _ => by simp [JavaType.printedBase, JavaType.innermost]

end Model

namespace Expr

variable {m : Model} {r : Resolution}

theorem eventsDims_append (w : Walk) (xs ys : List Expr) :
    eventsDims w (xs ++ ys) = eventsDims w xs ++ eventsDims w ys := by
  induction xs with
  | nil => rfl
  | cons x xs ih => simp [eventsDims, ih]

/-- Index accesses of a creation are printed as further sizes of it. -/
theorem events_foldl_index (w : Walk) (t : JavaType) (dims indexes : List Expr) :
    (indexes.foldl Expr.index (.newArray t dims)).events w = (Expr.newArray t (dims ++ indexes)).events w := by
  induction indexes using List.reverseRecOn with
  | nil => simp
  | append_singleton indexes i ih =>
      rw [List.foldl_append, List.foldl_cons, List.foldl_nil]
      simp [events, ih, eventsDims_append, eventsDims]

/-! ## Brackets -/

/-- Sizes in brackets. -/
def sizes (m : Model) (r : Resolution) (dims : List Expr) : List Char :=
  dims.flatMap fun e ↦ '[' :: line m r e ++ [']']

/-- Pairs of brackets with nothing in them. -/
def emptyPairs (k : Nat) : List Char := (List.replicate k ['[', ']']).flatten

theorem weld_brackets {xs ys : List Char} (hx : ∀ c ∈ xs.getLast?, c = ']') (hy : ∀ c ∈ ys.head?, c = '[') :
    weld xs ys = xs ++ ys := by
  refine weld_eq_append fun x hlast y hhead ↦ ?_
  rw [hx x hlast, hy y hhead]
  decide

theorem head?_emptyPairs (k : Nat) : ∀ c ∈ (emptyPairs k).head?, c = '[' := by
  cases k <;> simp [emptyPairs, List.replicate_succ]

theorem head?_sizes (dims : List Expr) : ∀ c ∈ (sizes m r dims).head?, c = '[' := by
  cases dims <;> simp [sizes]

theorem line_emptyPairs_append (k : Nat) {events : List Event}
    (hhead : ∀ c ∈ (Event.line m r events).head?, c = '[') :
    Event.line m r (List.replicate k (.text "[]") ++ events) = emptyPairs k ++ Event.line m r events := by
  induction k with
  | zero => rfl
  | succ k ih =>
      have hrest : ∀ c ∈ (emptyPairs k ++ Event.line m r events).head?, c = '[' := by
        rw [List.head?_append]
        cases hk : (emptyPairs k).head? with
        | none => exact hhead
        | some d => exact fun c hc ↦ Option.some.inj hc ▸ head?_emptyPairs k d hk
      rw [List.replicate_succ, List.cons_append, Event.line_text_cons, ih, weld_brackets (by simp) hrest]
      rfl

theorem line_eventsDims {dims : List Expr} (hdims : ∀ e ∈ dims, e.Plain) :
    Event.line m r (eventsDims m.walk dims) = sizes m r dims := by
  induction dims with
  | nil => rfl
  | cons e dims ih =>
      obtain ⟨he, hdims⟩ := List.forall_mem_cons.mp hdims
      have hopen : weld ['['] (line m r e) = '[' :: line m r e := he.framed.opens.weld_right (by decide) rfl
      calc Event.line m r (eventsDims m.walk (e :: dims))
          = weld (weld ['['] (line m r e)) (weld [']'] (sizes m r dims)) := by
            rw [eventsDims, Event.line_append, Event.line_text_cons, Event.line_text_cons, ih hdims]
            rfl
        _ = '[' :: line m r e ++ ']' :: sizes m r dims := by
            rw [hopen, weld_brackets (by simp) (head?_sizes dims)]
            exact (he.framed.closes.append ['[']).weld_left (y := ']') (by decide) rfl
        _ = sizes m r (e :: dims) := by simp [sizes]

/-! ## Creations -/

/-- The text of a creation over a base, with such brackets. -/
def creation (m : Model) (r : Resolution) (base : JavaType) (brackets : List Char) : String :=
  Page.unmark (String.ofList ("new ".toList ++ weld (Event.line m r (m.walk.type base)) brackets))

theorem toList_creation (base : JavaType) (brackets : List Char) : (creation m r base brackets).toList =
    ("new ".toList ++ weld (Event.line m r (m.walk.type base)) brackets).map fun c ↦
      if c = closeMark then '>' else c := by
  rw [creation, Page.toList_unmark]
  exact congrArg (List.map _) String.toList_ofList

theorem allText_eventsDims {dims : List Expr} (hdims : ∀ e ∈ dims, e.Plain) :
    Event.AllText (fun _ ↦ True) m r (eventsDims m.walk dims) := by
  induction dims with
  | nil => exact Event.allText_nil
  | cons e dims ih =>
      obtain ⟨he, hdims⟩ := List.forall_mem_cons.mp hdims
      simp only [eventsDims, Event.allText_append, Event.allText_text_cons, true_and]
      exact ⟨he.allText.mono fun _ _ ↦ trivial, ih hdims⟩

theorem eventText_newArray (layout : Layout) (t : JavaType) {dims : List Expr} (hdims : ∀ e ∈ dims, e.Plain) :
    m.eventText layout r ((newArray t dims).events m.walk) =
      creation m r t.printedBase (emptyPairs t.innermost.2 ++ sizes m r dims) := by
  have htext : Event.AllText (fun _ ↦ True) m r ((newArray t dims).events m.walk) := by
    simp only [events, Event.allText_append, Event.allText_text_cons, true_and]
    exact ⟨m.allText_type r t, allText_eventsDims hdims⟩
  have hevents : (newArray t dims).events m.walk = .text "new " :: (m.walk.type t.printedBase ++
      (List.replicate t.innermost.2 (.text "[]") ++ eventsDims m.walk dims)) := by
    rw [events, m.walk_type_eq t]
    simp
  have hbrackets : Event.line m r (List.replicate t.innermost.2 (.text "[]") ++ eventsDims m.walk dims) =
      emptyPairs t.innermost.2 ++ sizes m r dims := by
    rw [line_emptyPairs_append _ (line_eventsDims hdims ▸ head?_sizes dims), line_eventsDims hdims]
  have hline : Event.line m r ((newArray t dims).events m.walk) = "new ".toList ++
      weld (Event.line m r (m.walk.type t.printedBase)) (emptyPairs t.innermost.2 ++ sizes m r dims) := by
    rw [hevents, Event.line_text_cons, Event.line_append, hbrackets]
    refine weld_eq_append fun x hx y _ ↦ ?_
    obtain rfl : ' ' = x := Option.some.inj hx
    rfl
  rw [← String.toList_inj, Model.toList_eventText htext, hline, toList_creation]

/-- The order of empty pairs and sizes shows in the text. -/
theorem creation_order_iff (base : JavaType) (k : Nat) {dims : List Expr} (hne : dims ≠ [])
    (hdims : ∀ e ∈ dims, e.Plain) :
    creation m r base (emptyPairs k ++ sizes m r dims) = creation m r base (sizes m r dims ++ emptyPairs k) ↔
      k = 0 := by
  refine ⟨fun h ↦ ?_, by rintro rfl; simp [emptyPairs]⟩
  cases k with
  | zero => rfl
  | succ k =>
      obtain ⟨e, dims, rfl⟩ := List.exists_cons_of_ne_nil hne
      obtain ⟨c, hc, hopens⟩ := (hdims e List.mem_cons_self).framed (m := m) (r := r) |>.opens
      obtain ⟨cs, hcs⟩ := List.head?_eq_some_iff.mp hc
      -- Up to the first bracket the two texts are one; behind it stands a bracket or a size.
      have hweld (u : List Char) : weld (Event.line m r (m.walk.type base)) ('[' :: u) =
          weld (Event.line m r (m.walk.type base)) ['['] ++ u := by
        simp [weld, seam]
      have hempty : emptyPairs (k + 1) ++ sizes m r (e :: dims) =
          '[' :: ']' :: (emptyPairs k ++ sizes m r (e :: dims)) := by simp [emptyPairs, List.replicate_succ]
      have hsize : sizes m r (e :: dims) ++ emptyPairs (k + 1) =
          '[' :: c :: (cs ++ ']' :: (sizes m r dims ++ emptyPairs (k + 1))) := by simp [sizes, hcs]
      rw [← String.toList_inj, toList_creation, toList_creation, hempty, hsize, hweld (']' :: _), hweld (c :: _)] at h
      simp only [List.map_append, List.append_cancel_left_eq, List.map_cons, List.cons.injEq] at h
      obtain ⟨hfirst, -⟩ := h
      split at hfirst
      · contradiction
      · split at hfirst
        · contradiction
        · exact absurd (hfirst ▸ hopens) (by decide)

/-- Array creations print the brackets of all dimensions of the element type in front of the sizes, so sizes come
first, as Java wants them, only for an element type that is no array. An index access of a creation is printed as one
more size. -/
theorem newArray_brackets (layout : Layout) (t : JavaType) {dims : List Expr} (hne : dims ≠ [])
    (hdims : ∀ e ∈ dims, e.Plain) (indexes : List Expr) :
    (m.eventText layout r ((newArray t dims).events m.walk) =
        creation m r t.printedBase (emptyPairs t.innermost.2 ++ sizes m r dims)) ∧
      (m.eventText layout r ((newArray t dims).events m.walk) =
        creation m r t.printedBase (sizes m r dims ++ emptyPairs t.innermost.2) ↔ t.innermost.2 = 0) ∧
      m.eventText layout r ((indexes.foldl Expr.index (newArray t dims)).events m.walk) =
        m.eventText layout r ((newArray t (dims ++ indexes)).events m.walk) := by
  refine ⟨eventText_newArray layout t hdims, ?_, ?_⟩
  · rw [eventText_newArray layout t hdims, creation_order_iff t.printedBase t.innermost.2 hne hdims]
  · rw [events_foldl_index]

/-- An array of arrays of numbers with two sizes, and an index access of it. -/
theorem newArray_brackets_twoSizes :
    [Expr.name "n", .int 5] ≠ [] ∧ (∀ e ∈ [Expr.name "n", .int 5], e.Plain) ∧
      Model.initial.eventText ⟨.tab, .lf⟩ ⟨⟨0⟩, [], []⟩
          (([Expr.int 0].foldl Expr.index (newArray (.array (.primitive .int)) [.name "n", .int 5])).events
            Model.initial.walk) = "new int[][n][5][0]" := by
  have hdims : ∀ e ∈ [Expr.name "n", .int 5], e.Plain := by
    simp only [List.forall_mem_cons, List.not_mem_nil, false_imp_iff, implies_true, and_true]
    exact ⟨.name (by decide), .int 5⟩
  refine ⟨by simp, hdims, ?_⟩
  rw [(newArray_brackets ⟨.tab, .lf⟩ (.array (.primitive .int)) (by simp) hdims [Expr.int 0]).2.2]
  decide +kernel

end Expr

end JavaSource
