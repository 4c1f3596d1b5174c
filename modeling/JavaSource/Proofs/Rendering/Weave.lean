import Mathlib.Data.List.Forall2
import JavaSource.Proofs.Rendering.Bracket
import JavaSource.Proofs.Rendering.GivenText

/-!
# Two walks through one declaration

A declaration adds texts, line ends and identifiers of its own to what a walk writes at its mentions. So a
relation between lists of events that this keeps, and that holds at all mentions, holds for what two walks make
of the whole declaration. What there is to keep is little: brackets come in pairs, lines are indented and brought
back, and all other texts of a declaration are without brackets or given by a caller.
-/

namespace JavaSource

open Event

/-- Whether the event names no class. -/
def Event.IsPlain (e : Event) : Prop := ∀ c, e ≠ .reference c ∧ e ≠ .declared c

@[simp] theorem Event.isPlain_text (s : String) : IsPlain (.text s) := fun _ ↦ ⟨nofun, nofun⟩

@[simp] theorem Event.isPlain_newline : IsPlain .newline := fun _ ↦ ⟨nofun, nofun⟩

@[simp] theorem Event.isPlain_indent : IsPlain .indent := fun _ ↦ ⟨nofun, nofun⟩

@[simp] theorem Event.isPlain_outdent : IsPlain .outdent := fun _ ↦ ⟨nofun, nofun⟩

@[simp] theorem Event.isPlain_identifier (name : String) : IsPlain (.identifier name) := fun _ ↦
  ⟨nofun, nofun⟩

/-- Whether the event is a line end or a text without brackets. -/
def Event.IsBare : Event → Prop
  | .text s => Bare s
  | .newline => True
  | .indent | .outdent | .identifier _ | .reference _ | .declared _ => False

instance : DecidablePred Event.IsBare
  | .text s => inferInstanceAs (Decidable (Bare s))
  | .newline => .isTrue trivial
  | .indent | .outdent | .identifier _ | .reference _ | .declared _ => .isFalse id

/-- The first text opens a bracket and the second closes it. -/
def Encloses (b : Bracket) (l r : String) : Prop :=
  (Token.text l).marks = [.opens b] ∧ (Token.text r).marks = [.closes b]

instance (b : Bracket) (l r : String) : Decidable (Encloses b l r) := inferInstanceAs (Decidable (_ ∧ _))

/-- A relation that appending keeps, and plain events. -/
structure Weave (R : List Event → List Event → Prop) : Prop where
  plain : ∀ l, (∀ e ∈ l, e.IsPlain) → R l l
  append : ∀ {a a' b b'}, R a a' → R b b' → R (a ++ b) (a' ++ b')

/-- A relation that is kept by what expressions, types and annotations are put together with, when the given
texts are as wanted. -/
structure Composes (ok : String → Prop) (R : List Event → List Event → Prop) : Prop where
  bare : ∀ s, Bare s → ok s
  line : ∀ s, ok s → ok (" * " ++ s)
  nil : R [] []
  append : ∀ {a a' b b'}, R a a' → R b b' → R (a ++ b) (a' ++ b')
  newline : R [.newline] [.newline]
  text : ∀ s, ok s → R [.text s] [.text s]
  identifier : ∀ s, ok s → R [.identifier s] [.identifier s]
  quoted : ∀ q, q = '"' ∨ q = '\'' → ∀ s, R [.text (Text.quoted q s)] [.text (Text.quoted q s)]
  brackets : R [.text "[]"] [.text "[]"]
  enclose : ∀ b {l r a a'}, Encloses b l r → R a a' → R (.text l :: a ++ [.text r]) (.text l :: a' ++ [.text r])
  cast : ∀ {a a' b b'}, R a a' → R b b' →
    R (.text "((" :: a ++ .text ")" :: b ++ [.text ")"]) (.text "((" :: a' ++ .text ")" :: b' ++ [.text ")"])

/-- A relation that indenting lines keeps as well. -/
structure ComposesLines (ok : String → Prop) (R : List Event → List Event → Prop) : Prop
    extends Composes ok R where
  indented : ∀ {a a'}, R a a' → R (.indent :: a ++ [.outdent]) (.indent :: a' ++ [.outdent])

/-- The relation holds for what two walks write at each of the mentions. -/
def Related (R : List Event → List Event → Prop) (w w' : Walk) (xs : List Mention) : Prop :=
  ∀ x ∈ xs, R (x.events w) (x.events w')

section

variable {ok : String → Prop} {R : List Event → List Event → Prop} {w w' : Walk}

@[simp] theorem related_append {xs ys : List Mention} :
    Related R w w' (xs ++ ys) ↔ Related R w w' xs ∧ Related R w w' ys :=
  List.forall_mem_append

@[simp] theorem related_cons {x : Mention} {xs : List Mention} :
    Related R w w' (x :: xs) ↔ R (x.events w) (x.events w') ∧ Related R w w' xs :=
  List.forall_mem_cons

theorem Related.of_mem {α : Type} {f : α → List Mention} {l : List α} (h : Related R w w' (l.flatMap f))
    {a : α} (ha : a ∈ l) : Related R w w' (f a) := fun x hx ↦
  h x (List.mem_flatMap.mpr ⟨a, ha, hx⟩)

theorem Related.types {ts : List JavaType} (h : Related R w w' (ts.map .type)) :
    ∀ t ∈ ts, R (w.type t) (w'.type t) := fun t ht ↦
  h (.type t) (List.mem_map_of_mem ht)

theorem ok_of_mem {α : Type} {f : α → List String} {l : List α} (h : ∀ s ∈ l.flatMap f, ok s) {a : α}
    (ha : a ∈ l) : ∀ s ∈ f a, ok s := fun s hs ↦
  h s (List.mem_flatMap.mpr ⟨a, ha, hs⟩)

/-- What appending keeps, and events that name no class and move no lines, is kept whatever the texts are like. -/
theorem Composes.of_append (hnil : R [] []) (happend : ∀ {a a' b b'}, R a a' → R b b' → R (a ++ b) (a' ++ b'))
    (hsingle : ∀ e : Event, e.IsPlain → e ≠ .indent → e ≠ .outdent → R [e] [e]) :
    Composes (fun _ ↦ True) R := by
  have htext : ∀ s, R [.text s] [.text s] := fun s ↦ hsingle _ (by simp) nofun nofun
  have hcons : ∀ {s a a'}, R a a' → R (.text s :: a) (.text s :: a') := fun h ↦ happend (htext _) h
  exact {
    bare := fun _ _ ↦ trivial
    line := fun _ _ ↦ trivial
    nil := hnil
    append := happend
    newline := hsingle _ (by simp) nofun nofun
    text := fun s _ ↦ htext s
    identifier := fun _ _ ↦ hsingle _ (by simp) nofun nofun
    quoted := fun _ _ _ ↦ htext _
    brackets := htext _
    enclose := fun _ _ _ _ _ _ h ↦ happend (hcons h) (htext _)
    cast := fun ha hb ↦ happend (happend (hcons ha) (hcons hb)) (htext _) }

theorem Weave.cons (hR : Weave R) {e : Event} {a a' : List Event} (he : e.IsPlain) (h : R a a') :
    R (e :: a) (e :: a') :=
  hR.append (hR.plain [e] (by simpa using he)) h

theorem Weave.composes (hR : Weave R) : ComposesLines (fun _ ↦ True) R where
  toComposes := .of_append (hR.plain [] (by simp)) hR.append fun e he _ _ ↦ hR.plain [e] (by simpa using he)
  indented h := hR.append (hR.cons (by simp) h) (hR.plain _ (by simp))

namespace Composes

theorem forall₂_map {α : Type} {f g : α → List Event} {l : List α} (h : ∀ a ∈ l, R (f a) (g a)) :
    List.Forall₂ R (l.map f) (l.map g) :=
  List.forall₂_map_left_iff.mpr (List.forall₂_map_right_iff.mpr (List.forall₂_same.mpr h))

variable (hR : Composes ok R)

include hR

theorem cons {e : Event} {a a' : List Event} (he : e.IsBare) (h : R a a') : R (e :: a) (e :: a') := by
  refine (hR.append ?_ h : R ([e] ++ a) ([e] ++ a'))
  cases e with
  | text s => exact hR.text s (hR.bare s he)
  | newline => exact hR.newline
  | _ => exact he.elim

theorem word {s : String} (hs : Bare s) : R [.text s] [.text s] := hR.text s (hR.bare s hs)

/-- Texts and line ends of a declaration's own. -/
theorem own {l : List Event} (h : ∀ e ∈ l, e.IsBare) : R l l := by
  induction l with
  | nil => exact hR.nil
  | cons e l ih =>
      obtain ⟨he, hl⟩ := List.forall_mem_cons.mp h
      exact hR.cons he (ih hl)

theorem named {s : String} {a a' : List Event} (hs : ok s) (h : R a a') :
    R (.identifier s :: a) (.identifier s :: a') :=
  hR.append (hR.identifier s hs) h

theorem given {s : String} {a a' : List Event} (hs : ok s) (h : R a a') : R (.text s :: a) (.text s :: a') :=
  hR.append (hR.text s hs) h

theorem enclose_append (k : Bracket) {l r : String} {a a' b b' : List Event} (hlr : Encloses k l r)
    (ha : R a a') (hb : R b b') : R (.text l :: a ++ .text r :: b) (.text l :: a' ++ .text r :: b') := by
  simpa using hR.append (hR.enclose k hlr ha) hb

theorem parens {a a' : List Event} (h : R a a') : R (parens a) (parens a') :=
  hR.enclose .round (by decide +kernel) h

theorem commas {as bs : List (List Event)} (h : List.Forall₂ R as bs) : R (commas as) (commas bs) := by
  induction h with
  | nil => exact hR.nil
  | cons hab hrest ih =>
      cases hrest with
      | nil => exact hab
      | cons => exact hR.append hab (hR.cons (by decide +kernel) ih)

theorem blankLines {as bs : List (List Event)} (h : List.Forall₂ R as bs) :
    R (blankLines as) (blankLines bs) := by
  induction h with
  | nil => exact hR.nil
  | cons hab hrest ih =>
      cases hrest with
      | nil => exact hab
      | cons => exact hR.append hab (hR.cons trivial ih)

theorem typeArgs {as bs : List (List Event)} (h : List.Forall₂ R as bs) :
    R (typeArgs as) (typeArgs bs) :=
  hR.cons (by decide +kernel) (hR.append (hR.commas h) (hR.own (by decide +kernel)))

theorem flatMap {α : Type} {f g : α → List Event} {l : List α} (h : ∀ a ∈ l, R (f a) (g a)) :
    R (l.flatMap f) (l.flatMap g) := by
  induction l with
  | nil => exact hR.nil
  | cons a l ih =>
      exact hR.append (h a (List.mem_cons_self ..)) (ih fun b hb ↦ h b (List.mem_cons_of_mem a hb))

theorem ofModifiers (mods : Modifiers) : R (ofModifiers mods) (ofModifiers mods) := by
  refine hR.own fun e he ↦ ?_
  obtain ⟨m, -, rfl⟩ := List.mem_map.mp he
  cases m <;> decide +kernel

theorem ofJavadoc {lines : List String} (h : ∀ s ∈ lines, ok s) : R (ofJavadoc lines) (ofJavadoc lines) := by
  unfold Event.ofJavadoc
  split
  · exact hR.nil
  · refine hR.append (hR.append (hR.own (by decide +kernel)) (hR.flatMap fun s hs ↦ ?_))
      (hR.own (by decide +kernel))
    refine hR.given ?_ hR.newline
    split
    · exact hR.bare _ (by decide +kernel)
    · exact hR.line s (h s hs)

end Composes

namespace ComposesLines

variable (hR : ComposesLines ok R)

include hR

/-- Indented lines between two texts that enclose them. -/
theorem lines (k : Bracket) {l r : String} {a a' b b' : List Event} (hlr : Encloses k l r) (ha : R a a')
    (hb : R b b') : R ([.text l, .newline, .indent] ++ a ++ .outdent :: .text r :: b)
      ([.text l, .newline, .indent] ++ a' ++ .outdent :: .text r :: b') := by
  have hlines := hR.cons (e := .newline) trivial (hR.indented ha)
  simpa using hR.enclose_append k hlr hlines hb

theorem braces {a a' : List Event} (h : R a a') : R (braces a) (braces a') :=
  hR.lines .curly (by decide +kernel) h hR.nil

end ComposesLines

/-! ## Types -/

theorem bare_keyword (p : Primitive) : Bare p.keyword := by
  cases p <;> decide +kernel

namespace Composes

mutual

theorem typeEvents (hR : Composes ok R) {base base' : ClassId → List Event} : ∀ t : JavaType,
    (∀ c ∈ t.classes, R [.reference c] [.reference c]) → (∀ c ∈ t.bases, R (base c) (base' c)) →
      (∀ s ∈ t.texts, ok s) → R (t.events base) (t.events base')
  | .primitive p, _, _, _ => hR.word (bare_keyword p)
  | .wildcard, _, _, _ => hR.word (by decide +kernel)
  | .var name _, _, _, hs => hR.identifier name (hs name (List.mem_singleton_self name))
  | .reference c, hc, _, _ => hc c (List.mem_singleton_self c)
  | .narrowed c args, hc, hb, hs => by
      have hargs := typeEventsEach hR args (fun d hd ↦ hc d (List.mem_cons_of_mem c hd)) hb hs
      exact hR.append (hc c (List.mem_cons_self ..)) (hR.typeArgs hargs)
  | .array t, hc, hb, hs => by
      have ih := @typeEvents hR base base' t hc
      cases t
      case narrowed c args => exact hR.append (hc c (List.mem_cons_self ..)) hR.brackets
      all_goals exact hR.append (ih hb hs) hR.brackets
  | .wildcardExtends t, hc, hb, hs => hR.cons (by decide +kernel) (typeEvents hR t hc hb hs)
  | .wildcardSuper t, hc, hb, hs => hR.cons (by decide +kernel) (typeEvents hR t hc hb hs)
  | .anonymous c, _, hb, _ => hb c (List.mem_singleton_self c)

theorem typeEventsEach (hR : Composes ok R) {base base' : ClassId → List Event} : ∀ ts : List JavaType,
    (∀ c ∈ JavaType.classesEach ts, R [.reference c] [.reference c]) →
      (∀ c ∈ JavaType.basesEach ts, R (base c) (base' c)) → (∀ s ∈ JavaType.textsEach ts, ok s) →
        List.Forall₂ R (JavaType.eventsEach base ts) (JavaType.eventsEach base' ts)
  | [], _, _, _ => .nil
  | t :: ts, hc, hb, hs =>
      .cons
        (typeEvents hR t (fun c hc' ↦ hc c (List.mem_append_left _ hc'))
          (fun c hc' ↦ hb c (List.mem_append_left _ hc')) fun s hs' ↦ hs s (List.mem_append_left _ hs'))
        (typeEventsEach hR ts (fun c hc' ↦ hc c (List.mem_append_right _ hc'))
          (fun c hc' ↦ hb c (List.mem_append_right _ hc')) fun s hs' ↦ hs s (List.mem_append_right _ hs'))

end

/-! ## Expressions and statements -/

end Composes

theorem UnaryOp.bare_symbol (op : UnaryOp) : Bare op.symbol := by
  cases op <;> decide +kernel

theorem BinaryOp.bare_symbol (op : BinaryOp) : Bare op.symbol := by
  cases op <;> decide +kernel

namespace Composes

mutual

theorem exprEvents (hR : Composes ok R) : ∀ e : Expr, Related R w w' e.mentions → (∀ s ∈ e.texts, ok s) →
    R (e.events w) (e.events w')
  | .null, _, _ => hR.word (by decide +kernel)
  | .this, _, _ => hR.word (by decide +kernel)
  | .super, _, _ => hR.word (by decide +kernel)
  | .bool b, _, _ => hR.word (by cases b <;> decide +kernel)
  | .int n, _, _ => hR.word (bare_intText n.toInt)
  | .long n, _, _ => hR.word (bare_append.mpr ⟨bare_intText n.toInt, by decide +kernel⟩)
  | .float x, _, _ => hR.word (bare_append.mpr ⟨Decimal.bare_floatText x, by decide +kernel⟩)
  | .double x, _, _ => hR.word (bare_append.mpr ⟨Decimal.bare_floatText x, by decide +kernel⟩)
  | .char _, _, _ => hR.quoted _ (Or.inr rfl) _
  | .string _, _, _ => hR.quoted _ (Or.inl rfl) _
  | .atom source, _, hs => hR.text source (hs source (List.mem_singleton_self source))
  | .direct source, _, hs => hR.parens (hR.text source (hs source (List.mem_singleton_self source)))
  | .name n, _, hs => hR.identifier n (hs n (List.mem_singleton_self n))
  | .type t, h, _ => h (.type t) (List.mem_singleton_self _)
  | .classLiteral t, h, _ => hR.append (h (.type t) (List.mem_singleton_self _)) (hR.own (by decide +kernel))
  | .field receiver n, h, hs => by
      obtain ⟨hreceiver, hn⟩ := List.forall_mem_append.mp hs
      have hname := hR.text n (hn n (List.mem_singleton_self n))
      exact hR.append (exprEvents hR receiver h hreceiver) (hR.cons (by decide +kernel) hname)
  | .invoke n _ args, h, hs => by
      obtain ⟨hn, hargs⟩ := List.forall_mem_cons.mp hs
      exact hR.named hn (hR.parens (hR.commas (exprEventsEach hR args h hargs)))
  | .call receiver n typeArgs args, h, hs => by
      simp only [Expr.mentions, related_append] at h
      obtain ⟨⟨hreceiver, htypes⟩, hargs⟩ := h
      simp only [Expr.texts, List.forall_mem_append, List.forall_mem_cons] at hs
      obtain ⟨hsreceiver, hn, hsargs⟩ := hs
      have hparens := hR.parens (hR.commas (exprEventsEach hR args hargs hsargs))
      refine hR.append (hR.append (exprEvents hR receiver hreceiver hsreceiver)
        (hR.cons (by decide +kernel) ?_)) (hR.given hn hparens)
      split
      · exact hR.nil
      · exact hR.typeArgs (forall₂_map htypes.types)
  | .new t args, h, hs => by
      simp only [Expr.mentions, List.cons_append, related_cons, related_append] at h
      obtain ⟨htype, hargs, hbody⟩ := h
      have hparens := hR.parens (hR.commas (exprEventsEach hR args hargs hs))
      refine hR.append (hR.append (hR.cons (by decide +kernel) htype) hparens) ?_
      cases t
      case anonymous c => exact (related_cons.mp hbody).1
      all_goals exact hR.nil
  | .newArray t dims, h, hs => by
      obtain ⟨htype, hdims⟩ := related_cons.mp h
      exact hR.append (hR.cons (by decide +kernel) htype) (exprEventsDims hR dims hdims hs)
  | .arrayInit t dims items, h, hs => by
      simp only [Expr.mentions, List.cons_append, related_cons, related_append] at h
      obtain ⟨htype, hdims, hitems⟩ := h
      obtain ⟨hsdims, hsitems⟩ := List.forall_mem_append.mp hs
      have hhead := hR.append (hR.cons (e := .text "new ") (by decide +kernel) htype)
        (exprEventsDims hR dims hdims hsdims)
      have hcurly := hR.enclose .curly (l := "\x7b") (r := "\x7d") (by decide +kernel)
        (hR.commas (exprEventsEach hR items hitems hsitems))
      simpa [Expr.events, Mention.events] using hR.append hhead (hR.append hR.brackets hcurly)
  | .index array position, h, hs => by
      obtain ⟨harray, hposition⟩ := related_append.mp h
      obtain ⟨hsarray, hsposition⟩ := List.forall_mem_append.mp hs
      have hsquare := hR.enclose .square (l := "[") (r := "]") (by decide +kernel)
        (exprEvents hR position hposition hsposition)
      simpa [Expr.events] using hR.append (exprEvents hR array harray hsarray) hsquare
  | .unary op operand, h, hs => by
      have hoperand := exprEvents hR operand h hs
      have hsymbol := hR.bare _ op.bare_symbol
      simp only [Expr.events]
      split
      · exact hR.parens (hR.given hsymbol hoperand)
      · split
        · exact hR.append hoperand (hR.text _ hsymbol)
        · exact hR.given hsymbol hoperand
  | .binary op left right, h, hs => by
      obtain ⟨hleft, hright⟩ := related_append.mp h
      obtain ⟨hsleft, hsright⟩ := List.forall_mem_append.mp hs
      refine hR.parens (hR.append (exprEvents hR left hleft hsleft)
        (hR.cons ?_ (exprEvents hR right hright hsright)))
      cases op <;> decide +kernel
  | .assign op target value, h, hs => by
      obtain ⟨htarget, hvalue⟩ := related_append.mp h
      obtain ⟨hstarget, hsvalue⟩ := List.forall_mem_append.mp hs
      refine hR.append (exprEvents hR target htarget hstarget) (hR.cons ?_ (exprEvents hR value hvalue hsvalue))
      cases op with
      | none => decide +kernel
      | some op => cases op <;> decide +kernel
  | .conditional test yes no, h, hs => by
      simp only [Expr.mentions, related_append] at h
      obtain ⟨⟨htest, hyes⟩, hno⟩ := h
      simp only [Expr.texts, List.forall_mem_append] at hs
      obtain ⟨⟨hstest, hsyes⟩, hsno⟩ := hs
      refine hR.parens (hR.append ?_ (hR.cons (by decide +kernel) (exprEvents hR no hno hsno)))
      exact hR.append (exprEvents hR test htest hstest)
        (hR.cons (by decide +kernel) (exprEvents hR yes hyes hsyes))
  | .cast t operand, h, hs => by
      obtain ⟨htype, hoperand⟩ := related_cons.mp h
      exact hR.cast htype (exprEvents hR operand hoperand hs)
  | .instanceOf operand t, h, hs => by
      obtain ⟨hoperand, htype⟩ := related_append.mp h
      exact hR.parens (hR.append (exprEvents hR operand hoperand hs)
        (hR.cons (by decide +kernel) (related_cons.mp htype).1))

theorem exprEventsEach (hR : Composes ok R) : ∀ es : List Expr, Related R w w' (Expr.mentionsEach es) →
    (∀ s ∈ Expr.textsEach es, ok s) → List.Forall₂ R (Expr.eventsEach w es) (Expr.eventsEach w' es)
  | [], _, _ => .nil
  | e :: es, h, hs => by
      obtain ⟨he, hes⟩ := related_append.mp h
      obtain ⟨hse, hses⟩ := List.forall_mem_append.mp hs
      exact .cons (exprEvents hR e he hse) (exprEventsEach hR es hes hses)

theorem exprEventsDims (hR : Composes ok R) : ∀ es : List Expr, Related R w w' (Expr.mentionsEach es) →
    (∀ s ∈ Expr.textsEach es, ok s) → R (Expr.eventsDims w es) (Expr.eventsDims w' es)
  | [], _, _ => hR.nil
  | e :: es, h, hs => by
      obtain ⟨he, hes⟩ := related_append.mp h
      obtain ⟨hse, hses⟩ := List.forall_mem_append.mp hs
      exact hR.enclose_append .square (by decide +kernel) (exprEvents hR e he hse)
        (exprEventsDims hR es hes hses)

end

theorem conditionEvents (hR : Composes ok R) {keyword : String} (hkeyword : Bare keyword) {test : Expr}
    (h : Related R w w' test.mentions) (hs : ∀ s ∈ test.texts, ok s) :
    R (test.conditionEvents w keyword) (test.conditionEvents w' keyword) := by
  have htest := exprEvents hR test h hs
  unfold Expr.conditionEvents
  split
  · exact hR.cons hkeyword (hR.cons (by decide +kernel) htest)
  · exact hR.cons hkeyword (hR.enclose .round (by decide +kernel) htest)

theorem varEvents (hR : Composes ok R) {v : LocalVar} (h : Related R w w' v.mentions)
    (hs : ∀ s ∈ v.texts, ok s) : R (v.events w) (v.events w') := by
  obtain ⟨htype, hinit⟩ := related_cons.mp h
  obtain ⟨hname, hsinit⟩ := List.forall_mem_cons.mp hs
  refine hR.append (hR.append (hR.ofModifiers v.mods) htype) (hR.named hname ?_)
  cases hv : v.init with
  | none => exact hR.nil
  | some e =>
      have he := exprEvents hR e (hinit.of_mem (by simp [hv])) (ok_of_mem hsinit (by simp [hv]))
      exact hR.cons (by decide +kernel) he

theorem resourceEvents (hR : Composes ok R) {vs : List LocalVar}
    (h : Related R w w' (vs.flatMap LocalVar.mentions)) (hs : ∀ s ∈ vs.flatMap LocalVar.texts, ok s) :
    R (LocalVar.resourceEvents w vs) (LocalVar.resourceEvents w' vs) := by
  induction vs with
  | nil => exact hR.nil
  | cons v vs ih =>
      obtain ⟨hv, hvs⟩ := related_append.mp h
      obtain ⟨hsv, hsvs⟩ := List.forall_mem_append.mp hs
      cases vs with
      | nil => exact varEvents hR hv hsv
      | cons v' vs => exact hR.append (varEvents hR hv hsv) (hR.cons (by decide +kernel) (ih hvs hsvs))

theorem resourcesEvents (hR : Composes ok R) {vs : List LocalVar}
    (h : Related R w w' (vs.flatMap LocalVar.mentions)) (hs : ∀ s ∈ vs.flatMap LocalVar.texts, ok s) :
    R (if vs.isEmpty then [] else .text " (" :: LocalVar.resourceEvents w vs ++ [.text ")"])
      (if vs.isEmpty then [] else .text " (" :: LocalVar.resourceEvents w' vs ++ [.text ")"]) := by
  split
  · exact hR.nil
  · exact hR.enclose .round (by decide +kernel) (resourceEvents hR h hs)

theorem alternatives (hR : Composes ok R) {ts : List JavaType} (h : ∀ t ∈ ts, R (w.type t) (w'.type t)) :
    R (w.alternatives ts) (w'.alternatives ts) := by
  induction ts with
  | nil => exact hR.nil
  | cons t ts ih =>
      obtain ⟨ht, hts⟩ := List.forall_mem_cons.mp h
      cases ts with
      | nil => exact ht
      | cons t' ts => exact hR.append ht (hR.cons (by decide +kernel) (ih hts))

end Composes

namespace ComposesLines

mutual

theorem stmtEvents (hR : ComposesLines ok R) : ∀ s : Stmt, Related R w w' s.mentions →
    (∀ x ∈ s.texts, ok x) → R (s.events w) (s.events w')
  | .expression e, h, hs => hR.append (hR.exprEvents e h hs) (hR.own (by decide +kernel))
  | .localVar v, h, hs => hR.append (hR.varEvents h hs) (hR.own (by decide +kernel))
  | .ret none, _, _ => hR.cons (by decide +kernel) hR.newline
  | .ret (some e), h, hs => by
      have he := hR.exprEvents e h (ok_of_mem hs (by simp))
      exact hR.append (hR.cons (by decide +kernel) he) (hR.own (by decide +kernel))
  | .throws e, h, hs =>
      hR.append (hR.cons (by decide +kernel) (hR.exprEvents e h hs)) (hR.own (by decide +kernel))
  | .breaks target, _, hs => by
      refine hR.append (hR.cons (by decide +kernel) ?_) (hR.own (by decide +kernel))
      cases target with
      | none => exact hR.nil
      | some label => exact hR.text label (hs label (List.mem_singleton_self label))
  | .continues target, _, hs => by
      refine hR.append (hR.cons (by decide +kernel) ?_) (hR.own (by decide +kernel))
      cases target with
      | none => exact hR.nil
      | some label => exact hR.text label (hs label (List.mem_singleton_self label))
  | .label name, _, hs => hR.given (hs name (List.mem_singleton_self name)) (hR.own (by decide +kernel))
  | .direct source, _, hs => hR.given (hs source (List.mem_singleton_self source)) hR.newline
  | .ifThen test body, h, hs => by
      obtain ⟨htest, hbody⟩ := related_append.mp h
      obtain ⟨hstest, hsbody⟩ := List.forall_mem_append.mp hs
      exact hR.append (hR.append (hR.conditionEvents (by decide +kernel) htest hstest)
        (blockEvents hR body hbody hsbody)) hR.newline
  | .whileLoop test body, h, hs => by
      obtain ⟨htest, hbody⟩ := related_append.mp h
      obtain ⟨hstest, hsbody⟩ := List.forall_mem_append.mp hs
      exact hR.append (hR.append (hR.conditionEvents (by decide +kernel) htest hstest)
        (blockEvents hR body hbody hsbody)) hR.newline
  | .synchronized lock body, h, hs => by
      obtain ⟨hlock, hbody⟩ := related_append.mp h
      obtain ⟨hslock, hsbody⟩ := List.forall_mem_append.mp hs
      exact hR.append (hR.append (hR.conditionEvents (by decide +kernel) hlock hslock)
        (blockEvents hR body hbody hsbody)) hR.newline
  | .ifElse test body otherwise, h, hs => by
      simp only [Stmt.mentions, related_append] at h
      obtain ⟨⟨htest, hbody⟩, hotherwise⟩ := h
      simp only [Stmt.texts, List.forall_mem_append] at hs
      obtain ⟨⟨hstest, hsbody⟩, hsotherwise⟩ := hs
      have hhead := hR.append (hR.conditionEvents (show Bare "if" by decide +kernel) htest hstest)
        (blockEvents hR body hbody hsbody)
      have heach := stmtEventsEach hR otherwise hotherwise hsotherwise
      have hblock := hR.append (hR.cons (e := .text " else") (by decide +kernel)
        (blockEvents hR otherwise hotherwise hsotherwise)) hR.newline
      -- An `if` alone in the other branch is written without braces.
      rcases otherwise with _ | ⟨s, _ | ⟨s', rest⟩⟩
      · exact hR.append hhead hblock
      · simp only [Stmt.eventsEach, List.append_nil] at heach
        cases s
        case ifThen => exact hR.append hhead (hR.cons (by decide +kernel) heach)
        case ifElse => exact hR.append hhead (hR.cons (by decide +kernel) heach)
        all_goals exact hR.append hhead hblock
      · cases s <;> exact hR.append hhead hblock
  | .doWhile body test, h, hs => by
      obtain ⟨hbody, htest⟩ := related_append.mp h
      obtain ⟨hstest, hsbody⟩ := List.forall_mem_append.mp hs
      refine hR.append (hR.append (hR.cons (by decide +kernel) (blockEvents hR body hbody hsbody)) ?_)
        (hR.own (by decide +kernel))
      exact hR.cons (by decide +kernel) (hR.conditionEvents (by decide +kernel) htest hstest)
  | .forLoop init test update body, h, hs => by
      simp only [Stmt.mentions, related_append] at h
      obtain ⟨⟨⟨hinit, htest⟩, hupdate⟩, hbody⟩ := h
      simp only [Stmt.texts, List.forall_mem_append] at hs
      obtain ⟨⟨⟨hsinit, hstest⟩, hsupdate⟩, hsbody⟩ := hs
      have hparts := hR.commas (hR.exprEventsEach update hupdate hsupdate)
      refine hR.append (hR.enclose_append .round (by decide +kernel)
        (hR.append (hR.append ?_ (hR.cons (by decide +kernel) ?_)) (hR.cons (by decide +kernel) hparts))
        (blockEvents hR body hbody hsbody)) hR.newline
      · cases init with
        | none => exact hR.nil
        | some v => exact hR.varEvents (hinit.of_mem (by simp)) (ok_of_mem hsinit (by simp))
      · cases test with
        | none => exact hR.nil
        | some e => exact hR.exprEvents e (htest.of_mem (by simp)) (ok_of_mem hstest (by simp))
  | .forEach v iterable body, h, hs => by
      simp only [Stmt.mentions, List.cons_append, related_cons, related_append] at h
      obtain ⟨htype, hiterable, hbody⟩ := h
      simp only [Stmt.texts, List.cons_append, List.forall_mem_append, List.forall_mem_cons] at hs
      obtain ⟨hname, hsiterable, hsbody⟩ := hs
      have hhead := hR.append (hR.append (hR.ofModifiers v.mods) htype)
        (hR.named hname (hR.cons (e := .text " : ") (by decide +kernel)
          (hR.exprEvents iterable hiterable hsiterable)))
      exact hR.append (hR.enclose_append .round (by decide +kernel) hhead
        (blockEvents hR body hbody hsbody)) hR.newline
  | .switch selector cases, h, hs => by
      obtain ⟨hselector, hcases⟩ := related_append.mp h
      obtain ⟨hsselector, hscases⟩ := List.forall_mem_append.mp hs
      have hlines := hR.lines .curly (l := " \x7b") (r := "\x7d") (by decide +kernel)
        (casesEvents hR cases hcases hscases) hR.newline
      simpa [Stmt.events] using
        hR.append (hR.conditionEvents (by decide +kernel) hselector hsselector) hlines
  | .tryCatch resources body catches none, h, hs => by
      simp only [Stmt.mentions, related_append] at h
      obtain ⟨⟨⟨hresources, hbody⟩, hcatches⟩, -⟩ := h
      simp only [Stmt.texts, List.forall_mem_append] at hs
      obtain ⟨⟨⟨hsresources, hsbody⟩, hscatches⟩, -⟩ := hs
      have hopening := hR.cons (e := .text "try") (by decide +kernel)
        (hR.resourcesEvents hresources hsresources)
      exact hR.append (hR.append (hR.append (hR.append hopening (blockEvents hR body hbody hsbody))
        (catchesEvents hR catches hcatches hscatches)) hR.nil) hR.newline
  | .tryCatch resources body catches (some final), h, hs => by
      simp only [Stmt.mentions, related_append] at h
      obtain ⟨⟨⟨hresources, hbody⟩, hcatches⟩, hfinal⟩ := h
      simp only [Stmt.texts, List.forall_mem_append] at hs
      obtain ⟨⟨⟨hsresources, hsbody⟩, hscatches⟩, hsfinal⟩ := hs
      have hopening := hR.cons (e := .text "try") (by decide +kernel)
        (hR.resourcesEvents hresources hsresources)
      refine hR.append (hR.append (hR.append (hR.append hopening (blockEvents hR body hbody hsbody))
        (catchesEvents hR catches hcatches hscatches)) ?_) hR.newline
      exact hR.cons (by decide +kernel) (blockEvents hR final hfinal hsfinal)
  | .block body, h, hs => hR.append (blockEvents hR body h hs) hR.newline

theorem stmtEventsEach (hR : ComposesLines ok R) : ∀ ss : List Stmt, Related R w w' (Stmt.mentionsEach ss) →
    (∀ x ∈ Stmt.textsEach ss, ok x) → R (Stmt.eventsEach w ss) (Stmt.eventsEach w' ss)
  | [], _, _ => hR.nil
  | s :: ss, h, hs => by
      obtain ⟨hs₁, hss⟩ := related_append.mp h
      obtain ⟨hx, hxs⟩ := List.forall_mem_append.mp hs
      exact hR.append (stmtEvents hR s hs₁ hx) (stmtEventsEach hR ss hss hxs)

theorem blockEvents (hR : ComposesLines ok R) : ∀ ss : List Stmt, Related R w w' (Stmt.mentionsEach ss) →
    (∀ x ∈ Stmt.textsEach ss, ok x) → R (Stmt.eventsBlock w ss) (Stmt.eventsBlock w' ss)
  | [], _, _ => hR.braces hR.nil
  | s :: ss, h, hs => by
      obtain ⟨hs₁, hss⟩ := related_append.mp h
      obtain ⟨hx, hxs⟩ := List.forall_mem_append.mp hs
      exact hR.braces (hR.append (stmtEvents hR s hs₁ hx) (stmtEventsEach hR ss hss hxs))

theorem caseEvents (hR : ComposesLines ok R) : ∀ c : SwitchCase, Related R w w' (Stmt.mentionsCase c) →
    (∀ x ∈ Stmt.textsCase c, ok x) → R (Stmt.eventsCase w c) (Stmt.eventsCase w' c)
  | .mk value body, h, hs => by
      obtain ⟨hvalue, hbody⟩ := related_append.mp h
      obtain ⟨hsvalue, hsbody⟩ := List.forall_mem_append.mp hs
      have hlines := hR.cons (e := .newline) trivial (hR.indented (stmtEventsEach hR body hbody hsbody))
      cases value with
      | none => simpa [Stmt.eventsCase] using hR.cons (e := .text "default:") (by decide +kernel) hlines
      | some e =>
          have he := hR.exprEvents e (hvalue.of_mem (by simp)) (ok_of_mem hsvalue (by simp))
          have hlabel := hR.append (hR.cons (e := .text "case ") (by decide +kernel) he)
            (hR.cons (e := .text ":") (by decide +kernel) hlines)
          simpa [Stmt.eventsCase] using hlabel

theorem casesEvents (hR : ComposesLines ok R) : ∀ cs : List SwitchCase,
    Related R w w' (Stmt.mentionsCases cs) → (∀ x ∈ Stmt.textsCases cs, ok x) →
      R (Stmt.eventsCases w cs) (Stmt.eventsCases w' cs)
  | [], _, _ => hR.nil
  | c :: cs, h, hs => by
      obtain ⟨hc, hcs⟩ := related_append.mp h
      obtain ⟨hx, hxs⟩ := List.forall_mem_append.mp hs
      exact hR.append (caseEvents hR c hc hx) (casesEvents hR cs hcs hxs)

theorem catchEvents (hR : ComposesLines ok R) : ∀ c : CatchClause, Related R w w' (Stmt.mentionsCatch c) →
    (∀ x ∈ Stmt.textsCatch c, ok x) → R (Stmt.eventsCatch w c) (Stmt.eventsCatch w' c)
  | .mk types name body, h, hs => by
      obtain ⟨htypes, hbody⟩ := related_append.mp h
      obtain ⟨hname, hsbody⟩ := List.forall_mem_cons.mp hs
      have hhead := hR.append (hR.alternatives htypes.types) (hR.identifier name hname)
      simpa [Stmt.eventsCatch] using hR.enclose_append .round (l := " catch (") (r := ")")
        (by decide +kernel) hhead (blockEvents hR body hbody hsbody)

theorem catchesEvents (hR : ComposesLines ok R) : ∀ cs : List CatchClause,
    Related R w w' (Stmt.mentionsCatches cs) → (∀ x ∈ Stmt.textsCatches cs, ok x) →
      R (Stmt.eventsCatches w cs) (Stmt.eventsCatches w' cs)
  | [], _, _ => hR.nil
  | c :: cs, h, hs => by
      obtain ⟨hc, hcs⟩ := related_append.mp h
      obtain ⟨hx, hxs⟩ := List.forall_mem_append.mp hs
      exact hR.append (catchEvents hR c hc hx) (catchesEvents hR cs hcs hxs)

end

end ComposesLines

end

end JavaSource
