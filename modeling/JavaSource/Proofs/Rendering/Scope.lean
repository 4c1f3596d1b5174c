import Mathlib.Data.List.ReduceOption
import JavaSource.Proofs.Model.Address
import JavaSource.Proofs.Rendering.Imports
import JavaSource.Proofs.Rendering.Returning

/-!
# Short names in scope

Where a unit writes a class by its short name, the class has to be in scope at that place: it is imported or needs
no import wherever it stands, or it is a member of a class whose body is around the place. The bodies around a place
are found by going through what is written in front of it.
-/

namespace JavaSource

/-- A list that is split at something that is in its middle part is split inside that. -/
theorem prefix_of_split {α : Type} {a l b pre post : List α} {x : α} (ha : x ∉ a) (hb : x ∉ b)
    (h : a ++ l ++ b = pre ++ x :: post) : ∃ q, pre = a ++ q ∧ q <+: l := by
  rw [List.append_assoc] at h
  rcases List.append_eq_append_iff.mp h with ⟨q, rfl, hq⟩ | ⟨q, rfl, hq⟩
  · refine ⟨q, rfl, ?_⟩
    rcases List.append_eq_append_iff.mp hq with ⟨r, rfl, hr⟩ | ⟨r, rfl, -⟩
    · exact absurd (hr ▸ List.mem_append_right r (List.mem_cons_self ..)) hb
    · exact List.prefix_append _ _
  · cases q with
    | nil => exact ⟨[], by simp, List.nil_prefix⟩
    | cons y q =>
        obtain ⟨rfl, -⟩ := List.cons.inj hq
        exact absurd (List.mem_append_right _ (List.mem_cons_self ..)) ha

/-- What is around a place. -/
structure Surroundings where
  /-- The class that has been declared and whose body has not begun. -/
  declared : Option ClassId := none
  /-- The indented regions that are open, from the inside out. Each one that is the body of a declared class has the
  class. -/
  regions : List (Option ClassId) := []

namespace Surroundings

def step (s : Surroundings) : Event → Surroundings
  | .declared c => { s with declared := some c }
  | .indent => ⟨none, s.declared :: s.regions⟩
  | .outdent => { s with regions := s.regions.tail }
  | .text _ | .newline | .identifier _ | .reference _ => s

def after (events : List Event) : Surroundings := events.foldl step {}

theorem leveled : Leveled step regions (fun a b ↦ a <:+ b) .indent .outdent where
  refl _ := List.suffix_rfl
  trans := List.IsSuffix.trans
  rises s := List.suffix_cons _ _
  undone s s' h := by
    simp only [step] at h ⊢
    rw [h, List.tail_cons]

/-- Events that declare nothing and move no lines lead nowhere else. -/
theorem foldl_of_still {l : List Event} (hl : ∀ e ∈ l, (∀ c, e ≠ .declared c) ∧ e ≠ .indent ∧ e ≠ .outdent)
    (s : Surroundings) : l.foldl step s = s := by
  change id (l.foldl step s) = id s
  refine Leveled.view_foldl (fun e he s ↦ ?_) s
  obtain ⟨hdeclared, hin, hout⟩ := hl e he
  cases e with
  | declared c => exact absurd rfl (hdeclared c)
  | indent => exact absurd rfl hin
  | outdent => exact absurd rfl hout
  | text _ | newline | identifier _ | reference _ => rfl

end Surroundings

/-- The declared classes whose bodies are around the place behind the events. -/
def bodiesAround (events : List Event) : List ClassId := (Surroundings.after events).regions.reduceOption

namespace Model

/-- The class `c` is named by its short name alone where `x` is written: it is `x` itself or, with the names of the
classes from there down to `x` behind it, a class around `x`. -/
def NamesShort (m : Model) (r : Resolution) (x c : ClassId) : Prop :=
  ∃ inner, x :: m.outers x = inner ++ c :: m.outers c ∧
    r.spell m x = (m.entry c).name :: inner.reverse.flatMap fun d ↦ [".", (m.entry d).name]

/-- The short name of a class means the class in the unit of `t`, at a place with the bodies of certain classes
around. -/
def InScope (m : Model) (t : ClassId) (bodies : List ClassId) (c : ClassId) : Prop :=
  c = t ∨ m.IsImported t c ∨
    ((m.entry c).outer = none ∧ ((m.entry c).package = rootPackage ∨ (m.entry c).package = builtinPackage ∨
      (m.entry c).package = (m.entry t).package)) ∨
    ∃ o ∈ bodies, (m.entry c).outer = some o

variable {m : Model} {t : ClassId}

/-! ## Classes named by their short names -/

/-- A top-level class whose full name is its short name is in the unnamed package. -/
theorem package_eq_root_of_fullName (hm : m.WellFormed) {c : ClassId} (hc : m.Knows c) (hl : (m.entry c).IsListed)
    (ho : (m.entry c).outer = none) (hname : m.fullName c = (m.entry c).name) :
    (m.entry c).package = rootPackage := by
  have hpackaged : m.packaged (m.entry c).package (m.entry c).name = (m.entry c).name := by
    obtain ⟨name, hfull⟩ := fullName_eq hc
    rw [hfull] at hname
    rcases hl with hl | hl <;> simpa [nameStep, hl, ho] using hname
  refine hm.package_eq_of_name (hm.package_known c hc) hm.knows_rootPackage ?_
  rw [hm.name_rootPackage]
  by_contra hnamed
  simp only [packaged, Package.isUnnamed, hnamed, decide_false, Bool.false_eq_true, if_false] at hpackaged
  have hlength := congrArg String.length hpackaged
  simp only [String.length_append] at hlength
  have hpoint : ".".length = 1 := rfl
  omega

/-- What is named in one piece is named by its own short name. -/
theorem namesShort_iff_of_spell {r : Resolution} {x c : ClassId} {text : String} (hspell : r.spell m x = [text]) :
    m.NamesShort r x c ↔ c = x ∧ text = (m.entry x).name := by
  constructor
  · rintro ⟨inner, hchain, hshort⟩
    cases inner with
    | nil =>
        obtain ⟨rfl, _⟩ := List.cons.inj hchain
        exact ⟨rfl, List.singleton_inj.mp (hspell.symm.trans hshort)⟩
    | cons d inner =>
        have hlength := congrArg List.length (hspell.symm.trans hshort)
        simp at hlength
  · rintro ⟨rfl, rfl⟩
    exact ⟨[], rfl, hspell⟩

/-- A class that is visible or a placeholder is named by its own short name. -/
theorem namesShort_iff_of_shown {r : Resolution} {x c : ClassId}
    (hx : x ∈ r.visible ∨ (m.entry x).isPlaceholder = true) : m.NamesShort r x c ↔ c = x := by
  have hspell : r.spell m x = [(m.entry x).name] := by
    rw [Resolution.spell]
    cases m.outers x <;> rcases hx with hx | hx <;> simp [Resolution.spellChain, hx]
  rw [namesShort_iff_of_spell hspell, and_iff_left rfl]

/-- Where a class is not visible, a class around it is named for it as it is for the class in between. -/
theorem namesShort_iff_of_hidden (hm : m.WellFormed) {r : Resolution} {x o c : ClassId} (hx : x ∉ r.visible)
    (ho : (m.entry x).outer = some o) : m.NamesShort r x c ↔ m.NamesShort r o c := by
  have hspell : r.spell m x = r.spell m o ++ [".", (m.entry x).name] := by
    rw [spell_of_hidden hm hx (origin_ne_placeholder_of_outer hm ho), ho]
  have houters := outers_of_outer_eq_some hm.outer_below ho
  constructor
  · rintro ⟨inner, hchain, hshort⟩
    cases inner with
    | nil =>
        have hlength := congrArg List.length (hspell.symm.trans hshort)
        simp at hlength
    | cons d inner =>
        obtain ⟨rfl, hrest⟩ := List.cons.inj hchain
        rw [hspell, List.reverse_cons, List.flatMap_append, List.flatMap_singleton, ← List.cons_append] at hshort
        exact ⟨inner, houters ▸ hrest, List.append_cancel_right hshort⟩
  · rintro ⟨inner, hchain, hshort⟩
    refine ⟨x :: inner, by rw [houters, hchain, List.cons_append], ?_⟩
    rw [hspell, hshort, List.reverse_cons, List.flatMap_append, List.flatMap_singleton, ← List.cons_append]

theorem visible_or_unnamed_of_namesShort (hm : m.WellFormed) {r : Resolution} {x c : ClassId}
    (hc : (m.entry c).IsListed) (h : m.NamesShort r x c) :
    c ∈ r.visible ∨ ((m.entry c).outer = none ∧ m.fullName c = (m.entry c).name) := by
  induction x using outer_induction hm.outer_below with
  | top x ho =>
      by_cases hx : x ∈ r.visible ∨ (m.entry x).isPlaceholder = true
      · obtain rfl := (namesShort_iff_of_shown hx).mp h
        refine Or.inl (hx.resolve_right fun hplaceholder ↦ ?_)
        rcases hc with hc | hc <;> simp [ClassEntry.isPlaceholder, hc] at hplaceholder
      · rw [not_or] at hx
        have hspell : r.spell m x = [m.fullName x] := by
          rw [spell_of_hidden hm hx.1 (by simpa [ClassEntry.isPlaceholder] using hx.2), ho]
        obtain ⟨rfl, hname⟩ := (namesShort_iff_of_spell hspell).mp h
        exact Or.inr ⟨ho, hname⟩
  | inner x o ho ih =>
      by_cases hx : x ∈ r.visible
      · obtain rfl := (namesShort_iff_of_shown (Or.inl hx)).mp h
        exact Or.inl hx
      · exact ih ((namesShort_iff_of_hidden hm hx ho).mp h)

/-! ## The bodies around a place -/

/-- Whatever a walk writes for a part of a declaration keeps the regions around. -/
theorem surroundings_construct {n : Nat} {path : List ClassId} {l : List Event}
    (hl : m.Construct (m.walkAt n path) l) :
    Returns Surroundings.step Surroundings.regions (fun a b ↦ a <:+ b) l := by
  have hreturns := hl.returns Surroundings.leveled (f := fun e ↦ [e]) rfl rfl fun e hin hout x hx s ↦ by
    obtain rfl := List.mem_singleton.mp hx
    cases x with
    | indent => exact absurd rfl hin
    | outdent => exact absurd rfl hout
    | _ => rfl
  rwa [List.flatMap_singleton'] at hreturns

/-- Behind the name of a class a header declares nothing and moves no lines. -/
theorem heritageEvents_still (e : ClassEntry) :
    ∀ x ∈ e.heritageEvents m.walk, (∀ c, x ≠ .declared c) ∧ x ≠ .indent ∧ x ≠ .outdent := by
  have hR : Composes (fun _ ↦ True) fun l _ ↦ ∀ x ∈ l, (∀ c, x ≠ .declared c) ∧ x ≠ .indent ∧ x ≠ .outdent :=
    .of_append (List.forall_mem_nil _) (fun ha hb ↦ List.forall_mem_append.mpr ⟨ha, hb⟩) fun e he hin hout ↦
      List.forall_mem_singleton.mpr ⟨fun c ↦ (he c).2, hin, hout⟩
  -- The body of a class is not written there, so a walk without bodies writes the same.
  have hwalk : e.heritageEvents m.walk = e.heritageEvents ⟨m.typeEvents, fun _ ↦ []⟩ := rfl
  rw [hwalk]
  exact hR.heritageEvents (related_self hR (fun c ↦ by simp) (fun _ ↦ hR.nil) _) fun _ _ ↦ trivial

theorem after_headerEvents (hm : m.WellFormed) {c : ClassId} (hc : m.Knows c) :
    Surroundings.after ((m.entry c).headerEvents m.walk) = ⟨some c, []⟩ := by
  have hopening := (surroundings_construct (Construct.opening (m := m) (w := m.walkAt m.classes.length []) c)).back {}
  rw [Surroundings.after, ClassEntry.headerEvents_eq, List.foldl_append, List.foldl_append,
    Surroundings.foldl_of_still (heritageEvents_still _), hm.id_eq c hc]
  exact congrArg (Surroundings.mk (some c)) hopening

theorem bodyEvents_eq_braces (hc : m.Knows t) :
    ∃ n, m.bodyEvents t = Event.braces (m.membersWith (m.walkAt n [t]) t) := by
  have hpos : 0 < m.classes.length := Nat.lt_of_le_of_lt (Nat.zero_le _) hc
  obtain ⟨n, hn⟩ : ∃ n, m.classes.length = n + 1 := ⟨m.classes.length - 1, by omega⟩
  exact ⟨n, by rw [bodyEvents, hn, descend, if_neg List.not_mem_nil]; rfl⟩

/-- A place in a unit at which a class is referred to is in the header of the class of the unit, or it has the body
of that class around it. -/
theorem header_or_mem_bodiesAround (hm : m.WellFormed) (ht : m.Knows t) {pre post : List Event} {x : ClassId}
    (h : m.declarationEvents t = pre ++ .reference x :: post) :
    pre ++ [.reference x] <+: (m.entry t).headerEvents m.walk ∨ t ∈ bodiesAround pre := by
  obtain ⟨n, hbody⟩ := m.bodyEvents_eq_braces ht
  have hunit : (m.entry t).headerEvents m.walk ++ ([.text "\x7b", .newline, .indent] ++
      m.membersWith (m.walkAt n [t]) t ++ [.outdent, .text "\x7d", .newline]) = pre ++ .reference x :: post := by
    rw [← h, declarationEvents, declarationWith, hbody]
    simp [Event.braces, walk]
  rcases List.append_eq_append_iff.mp hunit with ⟨place, rfl, hplace⟩ | ⟨rest, hheader, hrest⟩
  · right
    obtain ⟨place, rfl, hmembers⟩ := prefix_of_split (by simp) (by simp) hplace
    have habove := (surroundings_construct (Construct.members (m := m) (w := m.walkAt n [t]) t)).above
      ⟨none, [some t]⟩ place hmembers
    have hafter : Surroundings.after ((m.entry t).headerEvents m.walk ++
        ([.text "\x7b", .newline, .indent] ++ place)) = place.foldl Surroundings.step ⟨none, [some t]⟩ := by
      rw [Surroundings.after, List.foldl_append, ← Surroundings.after, after_headerEvents hm ht, List.foldl_append]
      rfl
    rw [bodiesAround, hafter, List.reduceOption_mem_iff]
    exact habove.subset (List.mem_singleton_self _)
  · cases rest with
    | nil => cases hrest
    | cons y rest =>
        obtain ⟨rfl, -⟩ := List.cons.inj hrest
        exact Or.inl ⟨rest, by simp [hheader]⟩

/-! ## Places of short names -/

/-- A class goes by its short name where the name is in scope, unless it is nested in the class of the unit. Such a
class is never imported, so its name is out of scope where the body of the class around it is not around the place.
For a member of the class of the unit that is so in the header of the unit only. -/
theorem short_names_in_scope (hm : m.Reachable) (ht : m.IsUnit t) {pre post : List Event} {x c : ClassId}
    (hplace : m.declarationEvents t = pre ++ .reference x :: post) (hc : (m.entry c).IsListed)
    (hshort : m.NamesShort (m.resolve t) x c) :
    m.InScope t (bodiesAround pre) c ∨
      ∃ o, t ∈ m.outers c ∧ (m.entry c).outer = some o ∧ o ∉ bodiesAround pre ∧
        (o = t → pre ++ [.reference x] <+: (m.entry t).headerEvents m.walk) := by
  have hwf := hm.wellFormed
  have hknown : m.Knows c := by
    obtain ⟨inner, hchain, -⟩ := hshort
    have hmem : c ∈ x :: m.outers x := hchain ▸ List.mem_append_right _ (List.mem_cons_self ..)
    rcases List.mem_cons.mp hmem with rfl | houter
    · exact isWritten_of_mem hwf ht.knows (.reference c) (by simp [hplace])
    · exact hwf.knows_of_mem_outers houter
  rcases visible_or_unnamed_of_namesShort hwf hc hshort with hvisible | ⟨houter, hname⟩
  · by_cases hexempt : m.IsExempt t c
    · rcases hexempt with rfl | hinside | htop
      · exact Or.inl (Or.inl rfl)
      · obtain ⟨o, ho⟩ : ∃ o, (m.entry c).outer = some o := Option.ne_none_iff_exists'.mp fun hnone ↦ by
          simp [outers_of_outer_eq_none hnone] at hinside
        by_cases hbody : o ∈ bodiesAround pre
        · exact Or.inl (Or.inr (Or.inr (Or.inr ⟨o, hbody, ho⟩)))
        · refine Or.inr ⟨o, hinside, ho, hbody, ?_⟩
          rintro rfl
          exact (header_or_mem_bodiesAround hwf ht.knows hplace).resolve_right hbody
      · exact Or.inl (Or.inr (Or.inr (Or.inl htop)))
    · have himport : m.IsImported t c := ⟨hvisible, (mem_imports hwf ht).mpr ⟨c, hvisible, hexempt, rfl⟩⟩
      exact Or.inl (Or.inr (Or.inl himport))
  · have hroot := package_eq_root_of_fullName hwf hknown hc houter hname
    exact Or.inl (Or.inr (Or.inr (Or.inl ⟨houter, Or.inl hroot⟩)))

/-- A class with a field of the type of its member and one of the type of a member of that. -/
def memberOfMember : List Operation :=
  [.package "p", .define (.package ⟨2⟩) .none "T" .plain, .define (.class ⟨1⟩) .none "TA" .plain,
    .define (.class ⟨2⟩) .none "TAB" .plain, .member ⟨1⟩ (.field .none (.reference ⟨2⟩) "f"),
    .member ⟨1⟩ (.field .none (.reference ⟨3⟩) "g")]

theorem short_names_in_scope_memberOfMember :
    (initial.run memberOfMember).Reachable ∧ (initial.run memberOfMember).IsUnit ⟨1⟩ ∧
      (initial.run memberOfMember).NamesShort ((initial.run memberOfMember).resolve ⟨1⟩) ⟨2⟩ ⟨2⟩ ∧
      ∃ pre post, (initial.run memberOfMember).declarationEvents ⟨1⟩ = pre ++ .reference ⟨2⟩ :: post ∧
        (initial.run memberOfMember).InScope ⟨1⟩ (bodiesAround pre) ⟨2⟩ := by
  have hreachable : (initial.run memberOfMember).Reachable := .run .initial (by decide +kernel)
  have hunit : (initial.run memberOfMember).IsUnit ⟨1⟩ := by decide +kernel
  have hlisted : ((initial.run memberOfMember).entry ⟨2⟩).IsListed := Or.inl (by decide +kernel)
  have hshort : (initial.run memberOfMember).NamesShort ((initial.run memberOfMember).resolve ⟨1⟩) ⟨2⟩ ⟨2⟩ :=
    ⟨[], rfl, by decide +kernel⟩
  have hplace : (initial.run memberOfMember).declarationEvents ⟨1⟩ =
      ((initial.run memberOfMember).declarationEvents ⟨1⟩).take 5 ++
        .reference ⟨2⟩ :: ((initial.run memberOfMember).declarationEvents ⟨1⟩).drop 6 := by
    decide +kernel
  have hscope := short_names_in_scope hreachable hunit hplace hlisted hshort
  refine ⟨hreachable, hunit, hshort, _, _, hplace, hscope.resolve_right ?_⟩
  rintro ⟨o, -, houter, -, hheader⟩
  have hmember : ((initial.run memberOfMember).entry ⟨2⟩).outer = some ⟨1⟩ := by decide +kernel
  exact absurd (hheader (Option.some.inj (houter.symm.trans hmember))) (by decide +kernel)

/-- The type of the second field is out of scope. -/
example :
    (((initial.run memberOfMember).unitPage ⟨1⟩).lines.toList.take 5).map (·.body) =
      ["package p;", "", "class T \x7b", "TA f;", "TAB g;"] := by
  decide +kernel

end Model
end JavaSource
