import JavaSource.Proofs.Rendering.Imports
import JavaSource.Proofs.Rendering.Lines
import JavaSource.Proofs.Rendering.Returning

/-!
# Units are well nested

A unit closes every bracket that it opens, in order, as long as what callers have given for its text is without
brackets. The depth of its lines never falls below zero, whatever the texts are, and each statement, block, member
and class leaves it where it was.
-/

namespace JavaSource

/-- The brackets of a sequence of tokens. -/
def marksOf (tokens : List Token) : List Mark := tokens.flatMap Token.marks

@[simp] theorem marksOf_append (a b : List Token) : marksOf (a ++ b) = marksOf a ++ marksOf b :=
  List.flatMap_append

@[simp] theorem marksOf_nil : marksOf [] = [] := rfl

@[simp] theorem marksOf_cons (t : Token) (l : List Token) : marksOf (t :: l) = t.marks ++ marksOf l :=
  List.flatMap_cons

theorem marksOf_texts_of_bare {texts : List String} (h : ∀ s ∈ texts, Bare s) :
    marksOf (texts.map .text) = [] := by
  induction texts with
  | nil => rfl
  | cons s texts ih =>
      obtain ⟨hs, hrest⟩ := List.forall_mem_cons.mp h
      rw [List.map_cons, marksOf_cons, Token.marks_of_bare hs, ih hrest, List.append_nil]

namespace Page

@[simp] theorem depth_write (p : Page) (s : String) : (p.write s).depth = p.depth := by
  unfold write
  split
  · rfl
  · split <;> rfl

theorem leveled : Leveled step depth (· ≤ ·) .indent .outdent where
  refl := Int.le_refl
  trans := Int.le_trans
  rises p := by
    simp only [step]
    omega
  undone p q h := by
    simp only [step] at h ⊢
    omega

end Page

namespace Model

/-- The name of a class is made of the text. -/
inductive NamedBy (m : Model) : ClassId → String → Prop
  | own (c : ClassId) : m.NamedBy c (m.entry c).name
  | package (c : ClassId) : m.NamedBy c (m.packageEntry (m.entry c).package).name
  | outer {c o : ClassId} {s : String} (ho : (m.entry c).outer = some o) (hs : m.NamedBy o s) : m.NamedBy c s
  | base {c : ClassId} {b : ClassType} {s : String} (hc : (m.entry c).origin = .anonymous)
    (hb : (m.entry c).superclass = some b) (hs : m.NamedBy b.basis s) : m.NamedBy c s

/-- A caller has given the text for something that the unit of the class writes. -/
def Given (m : Model) (t : ClassId) (s : String) : Prop :=
  (∃ p, m.Writes t p ∧ s ∈ m.partTexts p) ∨
    ∃ c, (.reference c ∈ m.declarationEvents t ∨ .declared c ∈ m.declarationEvents t) ∧ m.NamedBy c s

/-- All that a class is named by is without brackets. -/
def BareName (m : Model) (c : ClassId) : Prop := ∀ s, m.NamedBy c s → Bare s

variable {m : Model} {t : ClassId}

/-! ## Names -/

theorem BareName.outer {c o : ClassId} (hc : m.BareName c) (ho : (m.entry c).outer = some o) :
    m.BareName o := fun s hs ↦
  hc s (.outer ho hs)

theorem BareName.of_mem_outers (hm : m.OutersBelow) {c o : ClassId} (hc : m.BareName c)
    (ho : o ∈ m.outers c) : m.BareName o := by
  induction c using outer_induction hm with
  | top c hnone => simp [outers_of_outer_eq_none hnone] at ho
  | inner c d hd ih =>
      rw [outers_of_outer_eq_some hm hd] at ho
      rcases List.mem_cons.mp ho with rfl | ho
      · exact hc.outer hd
      · exact ih (hc.outer hd) ho

theorem bare_fullName {c : ClassId} (hc : m.BareName c) : Bare (m.fullName c) := by
  refine descend_of (P := fun c name ↦ m.BareName c → Bare name) (fun c hc ↦ hc _ (.own c))
    (fun name c ih hc ↦ ?_) _ _ c hc
  have hname : Bare (m.entry c).name := hc _ (.own c)
  unfold nameStep
  simp only
  split
  · exact hname
  · rename_i base horigin hbase
    exact ih _ fun s hs ↦ hc s (.base horigin hbase hs)
  · rename_i o ho _ _
    exact bare_append.mpr ⟨bare_append.mpr ⟨ih o (hc.outer ho), by decide +kernel⟩, hname⟩
  · unfold packaged
    simp only
    split
    · exact hname
    · exact bare_append.mpr ⟨bare_append.mpr ⟨hc _ (.package c), by decide +kernel⟩, hname⟩

theorem bare_spellChain (r : Resolution) {chain : List ClassId} (h : ∀ c ∈ chain, m.BareName c) :
    ∀ s ∈ r.spellChain m chain, Bare s := by
  induction chain with
  | nil => exact List.forall_mem_nil _
  | cons c rest ih =>
      obtain ⟨hc, hrest⟩ := List.forall_mem_cons.mp h
      have hname : Bare (m.entry c).name := hc _ (.own c)
      unfold Resolution.spellChain
      simp only
      split
      · exact List.forall_mem_singleton.mpr hname
      · split
        · exact List.forall_mem_singleton.mpr (bare_fullName hc)
        · refine List.forall_mem_append.mpr ⟨ih hrest, ?_⟩
          exact List.forall_mem_cons.mpr ⟨by decide +kernel, List.forall_mem_singleton.mpr hname⟩

theorem bare_spell (hm : m.OutersBelow) (r : Resolution) {c : ClassId} (hc : m.BareName c) :
    ∀ s ∈ r.spell m c, Bare s :=
  bare_spellChain r (List.forall_mem_cons.mpr ⟨hc, fun _ ho ↦ hc.of_mem_outers hm ho⟩)

/-! ## Brackets -/

/-- The event names no class or one that is named without brackets. -/
def NamesBare (m : Model) (e : Event) : Prop := ∀ c, e = .reference c ∨ e = .declared c → m.BareName c

/-- The brackets of the events are nested, if the names in them are without brackets. -/
def IsNested (m : Model) (r : Resolution) (l : List Event) : Prop :=
  (∀ e ∈ l, m.NamesBare e) → Nested (marksOf (l.flatMap (·.tokens m r)))

theorem nested_of_bare {l : List Token} (h : marksOf l = []) : Nested (marksOf l) := by
  rw [h]
  exact .nil

theorem composes_nested (m : Model) (r : Resolution) : ComposesLines Bare fun l _ ↦ m.IsNested r l where
  bare _ h := h
  line _ h := bare_append.mpr ⟨by decide +kernel, h⟩
  nil _ := .nil
  append ha hb h := by
    obtain ⟨hl, hr⟩ := List.forall_mem_append.mp h
    rw [List.flatMap_append, marksOf_append]
    exact (ha hl).append (hb hr)
  newline _ := .nil
  text s hs _ := nested_of_bare (by simp [Event.tokens, Token.marks_of_bare hs])
  identifier s hs _ := nested_of_bare (by simp [Event.tokens, Token.marks_of_bare hs])
  quoted q hq s _ := nested_of_bare (by simp [Event.tokens, Token.marks_quoted q hq s])
  brackets _ := Nested.enclose .square .nil
  enclose b l r a a' hlr ha h := by
    obtain ⟨hl, hr⟩ := hlr
    have ha := ha fun e he ↦ h e (List.mem_append_left _ (List.mem_cons_of_mem _ he))
    simpa [Event.tokens, hl, hr] using Nested.enclose b ha
  cast {a a' b b'} ha hb h := by
    have ha := ha fun e he ↦ h e (by simp [he])
    have hb := hb fun e he ↦ h e (by simp [he])
    have hopen : (Token.text "((").marks = [.opens .round, .opens .round] := by decide +kernel
    have hclose : (Token.text ")").marks = [.closes .round] := by decide +kernel
    simpa [Event.tokens, hopen, hclose] using Nested.enclose .round ((Nested.enclose .round ha).append hb)
  indented {a a'} ha h := by
    have ha := ha fun e he ↦ h e (by simp [he])
    simpa [Event.tokens, Token.marks] using ha

theorem bareName_of_given (hgiven : ∀ s, m.Given t s → Bare s) {c : ClassId}
    (hc : .reference c ∈ m.declarationEvents t ∨ .declared c ∈ m.declarationEvents t) : m.BareName c :=
  fun s hs ↦ hgiven s (Or.inr ⟨c, hc, hs⟩)

theorem isNested_declarationEvents (hm : m.WellFormed) (ht : m.Knows t)
    (hgiven : ∀ s, m.Given t s → Bare s) (r : Resolution) : m.IsNested r (m.declarationEvents t) := by
  refine declarationEvents_rel (composes_nested m r) hm ht (fun p hp s hs ↦ hgiven s (Or.inl ⟨p, hp, hs⟩))
    (fun c _ h ↦ ?_) (fun c _ h ↦ ?_) (fun p _ ↦ m.samePart_self p) (Nat.le_refl _)
  · have hc := h _ (List.mem_singleton_self _) c (Or.inl rfl)
    rw [List.flatMap_singleton]
    exact nested_of_bare (marksOf_texts_of_bare (bare_spell hm.outer_below r hc))
  · have hc := h _ (List.mem_singleton_self _) c (Or.inr rfl)
    exact nested_of_bare (by simp [Event.tokens, Token.marks_of_bare (hc _ (.own c))])

/-- In front of a declaration there are lines with the name of the package and the imports. -/
theorem of_mem_preamble {r : Resolution} {x : Token} (hx : x ∈ m.preamble r) :
    x = .newline ∨ ∃ s ∈ ["package ", "import ", ";", (m.packageEntry (m.entry r.target).package).name] ++
      r.imports, x = .text s := by
  simp only [preamble, List.mem_append, List.mem_flatMap] at hx
  rcases hx with (hx | ⟨name, hname, hx⟩) | hx
  · split at hx
    · cases hx
    · simp only [List.mem_cons, List.not_mem_nil, or_false] at hx
      rcases hx with rfl | rfl | rfl | rfl | rfl <;> simp
  · simp only [List.mem_cons, List.not_mem_nil, or_false] at hx
    rcases hx with rfl | rfl | rfl | rfl <;> simp [hname]
  · split at hx
    · cases hx
    · exact Or.inl (List.mem_singleton.mp hx)

theorem marksOf_preamble (hm : m.WellFormed) (ht : m.IsUnit t) (hgiven : ∀ s, m.Given t s → Bare s) :
    marksOf (m.preamble (m.resolve t)) = [] := by
  have hs := coherent_scene hm ht
  have hpackage : Bare (m.packageEntry (m.entry t).package).name := bareName_of_given hgiven
    (Or.inr (declared_mem_declarationEvents hm ht.knows (Or.inl rfl))) _ (.package t)
  have himport : ∀ name ∈ (m.resolve t).imports, Bare name := fun name hname ↦ by
    obtain ⟨c, hc, hexempt, rfl⟩ := (mem_imports hm ht).mp hname
    rw [visible_resolve] at hc
    obtain ⟨x, hx, hhead⟩ := Scene.exists_head_of_mem_visible hs hc fun h ↦ hexempt (Or.inl h)
    have hx := bareName_of_given hgiven (recorded_iff.mp hx)
    rcases (mem_visible_of_head? hhead).2 with rfl | hc
    · exact bare_fullName hx
    · exact bare_fullName (hx.of_mem_outers hm.outer_below hc)
  have htexts : ∀ s ∈ ["package ", "import ", ";", (m.packageEntry (m.entry t).package).name] ++
      (m.resolve t).imports, Bare s := by
    refine List.forall_mem_append.mpr ⟨?_, himport⟩
    simp only [List.forall_mem_cons]
    exact ⟨by decide +kernel, by decide +kernel, by decide +kernel, hpackage, List.forall_mem_nil _⟩
  refine List.flatMap_eq_nil_iff.mpr fun x hx ↦ ?_
  rcases of_mem_preamble hx with rfl | ⟨s, hs, rfl⟩
  · rfl
  · exact Token.marks_of_bare (htexts s hs)

/-! ## Depth -/

/-- Everything that a walk writes for a part of a declaration leaves the depth of lines where it was, and no line
in it is above the one in front of it. -/
theorem returns_construct (r : Resolution) {n : Nat} {path : List ClassId} {l : List Event}
    (hl : m.Construct (m.walkAt n path) l) :
    Returns Page.step Page.depth (· ≤ ·) (l.flatMap (·.tokens m r)) := by
  have hstill : ∀ texts : List String, ∀ x ∈ texts.map Token.text, ∀ p, (Page.step p x).depth = p.depth := by
    intro texts x hx p
    obtain ⟨s, -, rfl⟩ := List.mem_map.mp hx
    exact p.depth_write s
  refine hl.returns Page.leveled rfl rfl fun e hin hout x hx p ↦ ?_
  cases e with
  | indent => exact absurd rfl hin
  | outdent => exact absurd rfl hout
  | newline => exact List.mem_singleton.mp hx ▸ rfl
  | text s | identifier s => exact hstill [s] x hx p
  | declared c => exact hstill [(m.entry c).name] x hx p
  | reference c => exact hstill (r.spell m c) x hx p

/-- Units are well nested. Where what callers have given for a unit is without brackets, its tokens set brackets
in pairs, and lines are indented and brought back in pairs as well: the depth never falls below zero, and a
statement, block, member or class leaves it as it was. -/
theorem unit_wellNested (hm : m.Reachable) (ht : m.unitFault? t = none) (hgiven : ∀ s, m.Given t s → Bare s) :
    Nested (marksOf (m.unitTokens t)) ∧
      (∀ pre, pre <+: m.unitTokens t → 0 ≤ (Page.ofTokens pre).depth) ∧
      (Page.ofTokens (m.unitTokens t)).depth = 0 ∧
      ∀ n path l, m.Construct (m.walkAt n path) l →
        Returns Page.step Page.depth (· ≤ ·) (l.flatMap (·.tokens m (m.resolve t))) := by
  have hunit := unitFault?_eq_none_iff.mp ht
  have hpreamble : Returns Page.step Page.depth (· ≤ ·) (m.preamble (m.resolve t)) := by
    refine Page.leveled.still fun x hx p ↦ ?_
    rcases of_mem_preamble hx with rfl | ⟨s, -, rfl⟩
    · rfl
    · exact p.depth_write s
  have hdeclaration := returns_construct (m.resolve t)
    (Construct.declaration (m := m) (w := m.walkAt m.classes.length []) t)
  have htokens := Leveled.append hpreamble hdeclaration
  refine ⟨?_, fun pre hpre ↦ htokens.above {} pre hpre, htokens.back {}, fun n path l hl ↦
    returns_construct _ hl⟩
  rw [unitTokens, marksOf_append, marksOf_preamble hm.wellFormed hunit hgiven]
  refine isNested_declarationEvents hm.wellFormed hunit.knows hgiven _ fun e he c hc ↦
    bareName_of_given hgiven ?_
  rcases hc with rfl | rfl
  · exact Or.inl he
  · exact Or.inr he

/-- A model without brackets in what callers have given has none in what they have given for a unit. -/
theorem bare_of_given (hpackages : ∀ p ∈ m.packages, Bare p.name) (hnames : ∀ e ∈ m.classes, Bare e.name)
    (htexts : ∀ e ∈ m.classes, ∀ s ∈ e.headerTexts ++ e.bodyTexts ++ e.mentions.flatMap Mention.texts, Bare s)
    {s : String} (hs : m.Given t s) : Bare s := by
  have hempty : Bare "" := by decide +kernel
  rcases hs with ⟨p, -, hs⟩ | ⟨c, -, hs⟩
  · refine entry_of_forall (P := fun e ↦ ∀ s ∈ e.headerTexts ++ e.bodyTexts ++ e.mentions.flatMap Mention.texts,
      Bare s) (List.forall_mem_nil _) htexts p.owner s ?_
    rcases List.mem_append.mp hs with hs | hs
    · cases p with
      | header c => exact List.mem_append_left _ (List.mem_append_left _ hs)
      | body c => exact List.mem_append_left _ (List.mem_append_right _ hs)
      | base c => cases hs
    · obtain ⟨x, hx, hs⟩ := List.mem_flatMap.mp hs
      exact List.mem_append_right _ (List.mem_flatMap.mpr ⟨x, m.partMentions_subset p hx, hs⟩)
  · induction hs with
    | own c => exact entry_of_forall (P := fun e ↦ Bare e.name) hempty hnames c
    | package c =>
        unfold packageEntry
        cases h : m.packages[(m.entry c).package.index]? with
        | none => exact hempty
        | some p => exact hpackages p (List.mem_of_getElem? h)
    | outer _ _ ih => exact ih
    | base _ _ _ ih => exact ih

/-- A method with conditions and a literal that holds a bracket. -/
def conditionsInMethod : List Operation :=
  [.package "p", .define (.package ⟨2⟩) .none "T" .plain,
    .member ⟨1⟩ (.method .none (.primitive .int) "f"),
    .member ⟨1⟩ (.inMethod 0 (.statements
      [.ifElse (.binary .eq (.name "a") (.name "b")) [.ret (some (.string "("))]
        [.ifThen (.name "c") [.block [.breaks (some "l")]]]]))]

theorem unit_wellNested_conditionsInMethod :
    (initial.run conditionsInMethod).Reachable ∧ (initial.run conditionsInMethod).unitFault? ⟨1⟩ = none ∧
      (∀ s, (initial.run conditionsInMethod).Given ⟨1⟩ s → Bare s) ∧
      Nested (marksOf ((initial.run conditionsInMethod).unitTokens ⟨1⟩)) := by
  have hreachable : (initial.run conditionsInMethod).Reachable := .run .initial (by decide +kernel)
  have hunit : (initial.run conditionsInMethod).unitFault? ⟨1⟩ = none := by decide +kernel
  have hgiven : ∀ s, (initial.run conditionsInMethod).Given ⟨1⟩ s → Bare s := fun s hs ↦
    bare_of_given (by decide +kernel) (by decide +kernel) (by decide +kernel) hs
  exact ⟨hreachable, hunit, hgiven, (unit_wellNested hreachable hunit hgiven).1⟩

end Model
end JavaSource
