import Mathlib.Data.List.Flatten
import Mathlib.Data.List.Perm.Basic
import JavaSource.Proofs.Declaration.SameShapes
import JavaSource.Proofs.Renaming.Unit

/-!
# Declaration sets in another order

The order of the packages and of the top-level types in them decides under which handles a model knows the
classes, and nothing else: the source files are the same. This takes that no two types have the same dotted name
and that defaults hold no defaults. Where a default holds an annotation of a type with defaults, it is written
with or without the values that are left out by default, as it comes.
-/

namespace JavaSource

/-- A part of a list goes with a part of any list that goes with it. -/
theorem List.exists_sublist_of_forall₂ {α β : Type} {R : α → β → Prop} {as as' : List α} {bs : List β}
    (h : List.Forall₂ R as bs) (hs : as'.Sublist as) : ∃ bs', bs'.Sublist bs ∧ List.Forall₂ R as' bs' := by
  induction hs generalizing bs with
  | slnil => exact ⟨[], List.nil_sublist _, .nil⟩
  | cons a _ ih =>
      obtain ⟨b, rest, -, hrest, rfl⟩ := List.forall₂_cons_left_iff.mp h
      obtain ⟨bs', hsub, hall⟩ := ih hrest
      exact ⟨bs', hsub.cons b, hall⟩
  | cons_cons a _ ih =>
      obtain ⟨b, rest, hab, hrest, rfl⟩ := List.forall₂_cons_left_iff.mp h
      obtain ⟨bs', hsub, hall⟩ := ih hrest
      exact ⟨b :: bs', hsub.cons_cons b, .cons hab hall⟩

theorem List.filter_eq_of_sublist {α : Type} {P : α → Bool} {l l' : List α} (hl : l.Nodup) (hs : l'.Sublist l)
    (h : ∀ a ∈ l, P a = true ↔ a ∈ l') : l.filter P = l' := by
  have hself : l'.filter P = l' := List.filter_eq_self.mpr fun a ha ↦ (h a (hs.subset ha)).mpr ha
  have hsub : l'.Sublist (l.filter P) := hself ▸ hs.filter P
  have hsubset : l.filter P ⊆ l' := fun a ha ↦ (h a (List.mem_filter.mp ha).1).mp (List.mem_filter.mp ha).2
  exact (hsub.eq_of_length_le (List.subperm_of_subset (hl.filter P) hsubset).length_le).symm

/-! ## The types inside a type -/

namespace TypeDeclaration

theorem nested_sublist_elementsAll {package : String} {enclosing ts : List TypeDeclaration} {e : TypeElement}
    (h : e ∈ elementsAll package enclosing ts) :
    (elementsAll e.package e.chain e.type.nested).Sublist (elementsAll package enclosing ts) := by
  induction ts using list_induction generalizing enclosing with
  | nil => cases h
  | cons t ts ihn ih =>
      rw [elementsAll, elements_eq] at h ⊢
      rcases List.mem_append.mp h with h | h
      · refine List.Sublist.trans ?_ (List.sublist_append_left ..)
        rcases List.mem_cons.mp h with rfl | h
        · exact List.sublist_cons_self ..
        · exact (ihn h).trans (List.sublist_cons_self ..)
      · exact (ih h).trans (List.sublist_append_right ..)

theorem elementsAll_eq_flatMap (package : String) (enclosing ts : List TypeDeclaration) :
    elementsAll package enclosing ts = ts.flatMap (elements package enclosing) := by
  induction ts with
  | nil => rfl
  | cons t ts ih => rw [elementsAll, ih, List.flatMap_cons]

end TypeDeclaration

namespace Declarations

theorem nested_sublist_elements {d : Declarations} {e : TypeElement} (h : e ∈ d.elements) :
    (e.type.nested.map (TypeElement.mk e.package e.chain)).Sublist d.elements := by
  obtain ⟨p, hp, he⟩ := List.mem_flatMap.mp h
  have hpackage := (List.singleton_sublist.mpr hp).flatMap fun p ↦ TypeDeclaration.elementsAll p.name [] p.types
  rw [List.flatMap_singleton] at hpackage
  exact ((TypeDeclaration.sublist_elementsAll ..).trans (TypeDeclaration.nested_sublist_elementsAll he)).trans hpackage

namespace Assembled

variable {d : Declarations} {x : Context} {t : Assembly} {ps : List Placed}

theorem eq_of_stands (h : d.Assembled x t ps) {p q : Placed} (hp : p ∈ ps) (hq : q ∈ ps) {package : String}
    {types : List TypeDeclaration} (hps : t.model.Stands package types p.id) (hqs : t.model.Stands package types q.id) :
    p = q :=
  List.inj_on_of_nodup_map h.nodup hp hq (hps.unique h.sound.wellFormed h.sound.reachable.orderly hqs)

/-- What stands inside the class of a type element is one of the types inside the element. -/
theorem type_mem_nested (h : d.Assembled x t ps) {e : TypeElement} {p q : Placed} (hp : p ∈ ps) (hq : q ∈ ps)
    (hplace : t.model.IsPlace e p) (houter : (t.model.entry q.id).outer = some p.id) :
    q.type ∈ e.type.nested ∧ t.model.address q.id =
      ⟨e.package, (q.type.name, .defined) :: e.chain.map fun u ↦ (u.name, .defined)⟩ := by
  have hm := h.sound.wellFormed
  obtain ⟨g, hg, hgplace⟩ := h.exists_element hq
  obtain htop | ⟨f, hf, hpackage, henclosing, htype⟩ := enclosing_of_mem_elements hg
  · rw [(hgplace.stands.outer_eq_none_iff hm).mpr htop] at houter
    cases houter
  · have hstands := hgplace.stands.outer hm houter
    rw [← hpackage, henclosing] at hstands
    obtain ⟨o, ho, hoplace⟩ := h.exists_place hf
    obtain rfl := h.eq_of_stands hp ho hstands hoplace.stands
    refine ⟨?_, ?_⟩
    · rw [hgplace.type, ← hplace.type, hoplace.type]
      exact htype
    · have haddress := hplace.stands.address_eq
      rw [hm.address_of_outer_eq_some houter, haddress, hgplace.type, hgplace.stands.represents.name,
        hgplace.stands.represents.origin]

/-- The classes inside the class of a type element are those of the types inside the element, in order. -/
theorem forall₂_nested (h : d.Assembled x t ps) {e : TypeElement} (he : e ∈ d.elements) {p : Placed} (hp : p ∈ ps)
    (hplace : t.model.IsPlace e p) :
    List.Forall₂ (fun u c ↦ t.model.Stands e.package (u :: e.chain) c) e.type.nested
      (t.model.entry p.id).nested.values := by
  have hm := h.sound.wellFormed
  obtain ⟨qs, hsub, hqs⟩ := List.exists_sublist_of_forall₂ h.places (nested_sublist_elements he)
  rw [List.forall₂_map_left_iff] at hqs
  have hfilter : ps.filter (·.owner = .class p.id) = qs := by
    refine List.filter_eq_of_sublist h.nodup.of_map hsub fun q hq ↦ ?_
    rw [decide_eq_true_iff]
    constructor
    · intro howner
      have houter : (t.model.entry q.id).outer = some p.id := by rw [h.outer q hq, howner]; rfl
      obtain ⟨htype, haddress⟩ := h.type_mem_nested hp hq hplace houter
      obtain ⟨q', hq', hplace'⟩ := List.exists_mem_right_of_forall₂ hqs htype
      have hsame : t.model.address q'.id = t.model.address q.id := by
        rw [hplace'.stands.address_eq, haddress]
        rfl
      have hid := hm.eq_of_address_eq h.sound.reachable.orderly hplace'.stands.knows (hm.knows_of_outer houter).1
        hplace'.stands.isNamed hsame
      exact List.inj_on_of_nodup_map h.nodup (hsub.subset hq') hq hid ▸ hq'
    · intro hmem
      obtain ⟨u, -, hinner⟩ := List.exists_mem_left_of_forall₂ hqs hmem
      cases ho : (t.model.entry q.id).outer with
      | none => exact absurd ((hinner.stands.outer_eq_none_iff hm).mp ho) (List.cons_ne_nil _ _)
      | some o =>
          have hid := (hinner.stands.outer hm ho).unique hm h.sound.reachable.orderly hplace.stands
          rw [hid, h.outer q hq] at ho
          cases howner : q.owner with
          | package _ =>
              rw [howner] at ho
              cases ho
          | «class» o' =>
              rw [howner] at ho
              exact congrArg Model.Owner.class (Option.some.inj ho)
  rw [h.nested p hp, hfilter, List.forall₂_map_right_iff]
  exact hqs.imp fun _ _ hq ↦ hq.stands

end Assembled

/-! ## Models of the same declarations -/

namespace Paired

variable {d d' : Declarations} {x x' : Context} {t t' : Assembly} {ps ps' : List Placed}

theorem copied (h : d.Paired d' x x' t t' ps ps') :
    t.model.Copied t'.model (t.model.counterpart t'.model) (t.model.Shared t'.model) := by
  have hmirrors : ∀ c, (t.model.entry c).origin = .defined →
      (t.model.entry c).Mirrors (t.model.counterpart t'.model) (t.model.Shared t'.model)
        (t'.model.entry (t.model.counterpart t'.model c)) := fun c hc ↦ by
    obtain ⟨p, hp, rfl⟩ := List.mem_map.mp (h.assembled.defined c hc)
    obtain ⟨e, -, p', hp', hplace, hplace', hmatches⟩ := h.exists_matches hp
    rw [← hmatches.id_eq]
    exact h.mirrors hp hp' hplace hplace'
  exact
    { toCorresponds := h.twins.corresponds
      defined := fun c hc ↦ by
        obtain ⟨p, hp, rfl⟩ := List.mem_map.mp (h.assembled.defined c hc)
        obtain ⟨_, -, _, -, -, -, hmatches⟩ := h.exists_matches hp
        exact hmatches.mem
      defined' := fun c' hc' ↦ by
        obtain ⟨e, he, p', hp', rfl, hplace'⟩ := h.assembled'.exists_of_defined hc'
        obtain ⟨p, hp, hplace⟩ := h.assembled.exists_place ((h.mem_elements_iff e).mpr he)
        have hmatches := h.assembled'.matches_of_isPlace hplace hplace'
        exact ⟨p.id, hmatches.mem, hmatches.id_eq.symm⟩
      copies := fun c hc ↦ (hmirrors c hc).copies
      nested_eq := fun c hc ↦ by
        obtain ⟨p, hp, rfl⟩ := List.mem_map.mp (h.assembled.defined c hc)
        obtain ⟨e, he, p', hp', hplace, hplace', hmatches⟩ := h.exists_matches hp
        rw [← hmatches.id_eq]
        refine (List.eq_map_of_forall₂ (W := t.model.Shared t'.model) (h.assembled.forall₂_nested he hp hplace)
          (h.assembled'.forall₂_nested ((h.mem_elements_iff e).mp he) hp' hplace') fun u _ b b' hb hb' ↦ ?_).1
        exact h.assembled'.eq_counterpart hb.knows hb'.knows
          ⟨hb'.address_eq.trans hb.address_eq.symm, hb.isNamed⟩
      codeless := fun c hc ↦ (hmirrors c hc).codeless
      mentions := fun c hc ↦ (hmirrors c hc).within }

end Paired

/-! ## Other orders -/

/-- The second set has the packages of the first in some order, and in each of them the same top-level types in
some order. -/
def Reordered (d d' : Declarations) : Prop :=
  ∃ packages, List.Forall₂ (fun p q : PackageDeclaration ↦ q.name = p.name ∧ p.types.Perm q.types) d.packages packages ∧
    packages.Perm d'.packages

variable {d d' : Declarations}

theorem Reordered.perm_elements (h : d.Reordered d') : d.elements.Perm d'.elements := by
  obtain ⟨packages, hall, hperm⟩ := h
  refine .trans (List.Perm.flatten_congr ?_) (hperm.flatMap_right _)
  rw [List.forall₂_map_left_iff, List.forall₂_map_right_iff]
  refine hall.imp fun p q ⟨hname, htypes⟩ ↦ ?_
  rw [TypeDeclaration.elementsAll_eq_flatMap, TypeDeclaration.elementsAll_eq_flatMap, hname]
  exact htypes.flatMap_right _

theorem Reordered.paired (h : d.Reordered d') (hnames : (d.elements.map TypeElement.dottedName).Nodup)
    (hflat : d.FlatDefaults) {policy : UnresolvedPolicy} {ps ps' : List Placed}
    {s s₁ s₂ t s' s₁' s₂' t' : Assembly} (hd : d.Stages policy ps s s₁ s₂ t)
    (hd' : d'.Stages policy ps' s' s₁' s₂' t') :
    d.Paired d' ⟨policy, Placed.table ps⟩ ⟨policy, Placed.table ps'⟩ t t' ps ps' where
  assembled := hd.assembled
  assembled' := hd'.assembled
  mem_elements_iff _ := h.perm_elements.mem_iff
  names := hnames
  names' := (h.perm_elements.map _).nodup_iff.mp hnames
  policy_eq := rfl
  flat := hflat
  faithful := hd.faithful hflat
  faithful' := by
    refine hd'.faithful fun e he v hv name hname f hf ↦ ?_
    exact hflat e (h.perm_elements.mem_iff.mpr he) v hv name hname f (h.perm_elements.mem_iff.mpr hf)

/-- The class of a top-level type is one of the answer, and a unit. -/
theorem Assembled.isUnit_of_isPlace {x : Context} {t : Assembly} {ps : List Placed} (h : d.Assembled x t ps)
    {e : TypeElement} (htop : e.enclosing = []) {p : Placed} (hp : p ∈ ps) (hplace : t.model.IsPlace e p) :
    p.id ∈ (ps.filter (·.isTopLevel)).map (·.id) ∧ t.model.IsUnit p.id := by
  have houter := (hplace.stands.outer_eq_none_iff h.sound.wellFormed).mpr htop
  refine ⟨List.mem_map_of_mem (List.mem_filter.mpr ⟨hp, ?_⟩), hplace.stands.represents.origin, houter⟩
  rw [h.outer p hp] at houter
  unfold Placed.isTopLevel
  cases ho : p.owner with
  | package _ => rfl
  | «class» _ =>
      rw [ho] at houter
      cases houter

/-- In whatever order types are declared, every top-level type is written the same. -/
theorem render_eq_of_reordered (h : d.Reordered d') (hnames : (d.elements.map TypeElement.dottedName).Nodup)
    (hflat : d.FlatDefaults) {policy : UnresolvedPolicy} {m n : Model} {classes classes' : List ClassId}
    (hm : d.build policy = .ok (m, classes)) (hn : d'.build policy = .ok (n, classes')) {e : TypeElement}
    (he : e ∈ d.elements) (htop : e.enclosing = []) :
    ∃ c ∈ classes, ∃ c' ∈ classes', m.Carries e c ∧ n.Carries e c' ∧
      ∀ layout, ∃ text, m.render layout c = .ok text ∧ n.render layout c' = .ok text := by
  obtain ⟨ps, s, s₁, s₂, t, hd, rfl, rfl⟩ := stages_of_build hm
  obtain ⟨ps', s', s₁', s₂', t', hd', rfl, rfl⟩ := stages_of_build hn
  have hpaired := h.paired hnames hflat hd hd'
  obtain ⟨p, hp, hplace⟩ := hpaired.assembled.exists_place he
  have he' := (hpaired.mem_elements_iff e).mp he
  obtain ⟨p', hp', hplace'⟩ := hpaired.assembled'.exists_place he'
  obtain ⟨hmem, hunit⟩ := hpaired.assembled.isUnit_of_isPlace htop hp hplace
  obtain ⟨hmem', -⟩ := hpaired.assembled'.isUnit_of_isPlace htop hp' hplace'
  refine ⟨p.id, hmem, p'.id, hmem', hpaired.assembled.carries he hplace.stands,
    hpaired.assembled'.carries he' hplace'.stands, fun layout ↦ ?_⟩
  rw [(hpaired.assembled'.matches_of_isPlace hplace hplace').id_eq]
  exact hpaired.copied.render_eq hpaired.assembled.sound.wellFormed hpaired.assembled'.sound.wellFormed hunit layout

/-- An annotation type whose member has a default. -/
def innerMark : TypeDeclaration where
  name := "Inner"
  kind := .supported .annotationType
  methods := [{ name := "x", returnType := some (.primitive "int"), defaultValue := some (.int 1) }]

/-- A class that carries it, with a class inside. -/
def markedClass : TypeDeclaration where
  name := "Frame"
  kind := .supported .plain
  annotations := [{ type := "p.Inner", values := [("x", .int 2)] }]
  fields := [{ name := "pane", type := .declared "p.Frame$Pane" [] }]
  nested := [{ name := "Pane", kind := .supported .plain }]

def window : PackageDeclaration where
  name := "q"
  types := [{ name := "Window", kind := .supported .plain, superclass := some (.declared "p.Frame" []) }]

def frames : Declarations := { packages := [{ name := "p", types := [markedClass, innerMark] }, window] }

def framesReordered : Declarations := { packages := [window, { name := "p", types := [innerMark, markedClass] }] }

theorem render_eq_of_reordered_frames :
    ∃ m classes n classes', frames.build .fail = .ok (m, classes) ∧ framesReordered.build .fail = .ok (n, classes') ∧
      ∃ c ∈ classes, ∃ c' ∈ classes', m.Carries ⟨"p", [], markedClass⟩ c ∧ n.Carries ⟨"p", [], markedClass⟩ c' ∧
        ∀ layout, ∃ text, m.render layout c = .ok text ∧ n.render layout c' = .ok text := by
  have hreordered : frames.Reordered framesReordered :=
    ⟨[{ name := "p", types := [innerMark, markedClass] }, window],
      .cons ⟨rfl, .swap ..⟩ (.cons ⟨rfl, .refl _⟩ .nil), .swap ..⟩
  have hok : (frames.build .fail).isOk = true := by decide +kernel
  have hok' : (framesReordered.build .fail).isOk = true := by decide +kernel
  cases hm : frames.build .fail with
  | error e =>
      rw [hm] at hok
      cases hok
  | ok r =>
      cases hn : framesReordered.build .fail with
      | error e =>
          rw [hn] at hok'
          cases hok'
      | ok r' =>
          refine ⟨r.1, r.2, r'.1, r'.2, rfl, rfl, ?_⟩
          exact render_eq_of_reordered hreordered (by decide +kernel) (by decide +kernel) hm hn
            (List.mem_flatMap.mpr ⟨_, List.mem_cons_self .., List.mem_cons_self ..⟩) rfl

/-- An annotation type with a default that holds the other. -/
def outerMark : TypeDeclaration where
  name := "Outer"
  kind := .supported .annotationType
  methods :=
    [{ name := "inner", returnType := some (.declared "p.Inner" [])
       defaultValue := some (.nested "p.Inner" [("x", .int 1)]) }]

def marks (types : List TypeDeclaration) : Declarations := { packages := [{ name := "p", types }] }

/-- Where a default holds an annotation of a type with defaults, the order shows. -/
theorem sourceFiles_marks :
    (marks [outerMark, innerMark]).Reordered (marks [innerMark, outerMark]) ∧
      ((marks [outerMark, innerMark]).sourceFiles .fail {}).toOption.map (·.map (·.content)) =
        some ["package p;\n\n@interface Outer \x7b\n    Inner inner() default @Inner(x = 1);\n\x7d\n",
          "package p;\n\n@interface Inner \x7b\n    int x() default 1;\n\x7d\n"] ∧
      ((marks [innerMark, outerMark]).sourceFiles .fail {}).toOption.map (·.map (·.content)) =
        some ["package p;\n\n@interface Inner \x7b\n    int x() default 1;\n\x7d\n",
          "package p;\n\n@interface Outer \x7b\n    Inner inner() default @Inner;\n\x7d\n"] :=
  ⟨⟨(marks [innerMark, outerMark]).packages, .cons ⟨rfl, .swap ..⟩ .nil, .refl _⟩, by decide +kernel, by decide +kernel⟩

/-- A class with a class inside, in a package of its own. -/
def outerPackage : PackageDeclaration where
  name := "a"
  types := [{ name := "b", kind := .supported .plain, nested := [{ name := "C", kind := .supported .plain }] }]

/-- A package with a class under the same dotted name, and a class that names it. -/
def innerPackage : PackageDeclaration where
  name := "a.b"
  types :=
    [{ name := "C", kind := .supported .plain },
     { name := "T", kind := .supported .plain, fields := [{ name := "f", type := .declared "a.b.C" [] }] }]

/-- Where two types have the same dotted name, it leads to the one that comes last. -/
theorem sourceFiles_sharedName :
    Reordered { packages := [outerPackage, innerPackage] } { packages := [innerPackage, outerPackage] } ∧
      (sourceFiles .fail {} { packages := [outerPackage, innerPackage] }).toOption.map (·.map (·.content)) =
        some ["package a;\n\nclass b \x7b\n    class C \x7b\n    \x7d\n\x7d\n", "package a.b;\n\nclass C \x7b\n\x7d\n",
          "package a.b;\n\nclass T \x7b\n    C f;\n\x7d\n"] ∧
      (sourceFiles .fail {} { packages := [innerPackage, outerPackage] }).toOption.map (·.map (·.content)) =
        some ["package a.b;\n\nclass C \x7b\n\x7d\n", "package a.b;\n\nimport a.b;\n\nclass T \x7b\n    b.C f;\n\x7d\n",
          "package a;\n\nclass b \x7b\n    class C \x7b\n    \x7d\n\x7d\n"] :=
  ⟨⟨[outerPackage, innerPackage], .cons ⟨rfl, .refl _⟩ (.cons ⟨rfl, .refl _⟩ .nil), .swap ..⟩, by decide +kernel,
    by decide +kernel⟩

end Declarations
end JavaSource
