import JavaSource.Declaration.Units
import JavaSource.Proofs.Declaration.Look
import JavaSource.Proofs.Model.Address

/-!
# Where declared types are placed

The type elements of a declaration set stand in pre-order: packages, types, and behind each type the types
inside it. Their classes are made in this order, one for each, and they stand in the model as the elements
stand in the file.
-/

namespace JavaSource

/-- A declared type, its package, and the types around it from the inside out. -/
structure TypeElement where
  package : String
  enclosing : List TypeDeclaration := []
  type : TypeDeclaration

namespace TypeDeclaration

mutual

/-- The elements of a declared type: itself and what is inside. -/
def elements (package : String) (enclosing : List TypeDeclaration) (t : TypeDeclaration) : List TypeElement :=
  match t with
  | t@{ nested, .. } => ⟨package, enclosing, t⟩ :: elementsAll package (t :: enclosing) nested

def elementsAll (package : String) (enclosing : List TypeDeclaration) : List TypeDeclaration → List TypeElement
  | [] => []
  | t :: ts => elements package enclosing t ++ elementsAll package enclosing ts

end

theorem elements_eq (package : String) (enclosing : List TypeDeclaration) (t : TypeDeclaration) :
    t.elements package enclosing =
      ⟨package, enclosing, t⟩ :: elementsAll package (t :: enclosing) t.nested := by
  cases t
  rfl

mutual

theorem nested_induction {P : List TypeDeclaration → Prop} (nil : P [])
    (cons : ∀ t ts, P t.nested → P ts → P (t :: ts)) : ∀ t : TypeDeclaration, P t.nested
  | ⟨_, _, _, _, _, _, _, _, _, _, _, nested⟩ => list_induction nil cons nested

/-- Induction over declared types in the order of their elements. -/
theorem list_induction {P : List TypeDeclaration → Prop} (nil : P [])
    (cons : ∀ t ts, P t.nested → P ts → P (t :: ts)) : ∀ ts : List TypeDeclaration, P ts
  | [] => nil
  | t :: ts => cons t ts (nested_induction nil cons t) (list_induction nil cons ts)

end

theorem length_elementsAll (package : String) (enclosing ts : List TypeDeclaration) :
    (elementsAll package enclosing ts).length = countAll ts := by
  induction ts using list_induction generalizing enclosing with
  | nil => rfl
  | cons t ts ihn ih =>
      rw [elementsAll, elements_eq, List.length_append, List.length_cons, ihn, ih, countAll, count_eq]

theorem sublist_elementsAll (package : String) (enclosing ts : List TypeDeclaration) :
    (ts.map (TypeElement.mk package enclosing)).Sublist (elementsAll package enclosing ts) := by
  induction ts with
  | nil => exact List.nil_sublist _
  | cons t ts ih =>
      rw [elementsAll, elements_eq]
      exact (ih.trans (List.sublist_append_right ..)).cons_cons _

/-- The scope of the members of a chain of types, from the inside out. -/
def scopeWithin (package : String) : List TypeDeclaration → Scope
  | [] => ⟨package, []⟩
  | t :: ts => t.memberScope (scopeWithin package ts)

end TypeDeclaration

namespace TypeElement

/-- The type and the types around it, from the inside out. -/
def chain (e : TypeElement) : List TypeDeclaration := e.type :: e.enclosing

/-- The scope of the members of the type. -/
def scope (e : TypeElement) : Scope := TypeDeclaration.scopeWithin e.package e.chain

end TypeElement

namespace Declarations

/-- The type elements in pre-order. -/
def elements (d : Declarations) : List TypeElement :=
  d.packages.flatMap fun p ↦ TypeDeclaration.elementsAll p.name [] p.types

theorem length_elements (d : Declarations) : d.elements.length = d.typeCount := by
  unfold elements typeCount
  induction d.packages with
  | nil => rfl
  | cons p ps ih =>
      rw [List.flatMap_cons, List.flatMap_cons, List.length_append, ih, TypeDeclaration.countAll_append,
        TypeDeclaration.length_elementsAll]

end Declarations

namespace Model

/-- The class of an owner, if it is one. -/
def Owner.class? : Owner → Option ClassId
  | .package _ => none
  | .class c => some c

/-- The package of what an owner owns. -/
def Owner.packageIn (m : Model) : Owner → PackageId
  | .package p => p
  | .class c => (m.entry c).package

/-- The entry of a class as it is defined. -/
def definedEntry (m : Model) (owner : Owner) (mods : Modifiers) (name : String) (kind : ClassKind) : ClassEntry :=
  { id := m.nextClass, name, kind, origin := .defined, package := owner.packageIn m, outer := owner.class?, mods }

def KnowsOwner (m : Model) : Owner → Prop
  | .package p => m.KnowsPackage p
  | .class c => m.Knows c

variable {m n k : Model}

theorem entered_of_defineClass (hm : m.WellFormed) {owner : Owner} {mods : Modifiers} {name : String}
    {kind : ClassKind} (howner : m.KnowsOwner owner) {c : ClassId}
    (h : (defineClass owner mods name kind).exec m = (.ok c, n)) :
    c = m.nextClass ∧ m.Enterable (m.definedEntry owner mods name kind) ∧
      m.Entered (m.definedEntry owner mods name kind) n := by
  unfold defineClass at h
  rw [Build.exec_bind, Build.exec_liftExcept] at h
  cases hname : checkName .type name with
  | error e => simp [hname] at h
  | ok u =>
      rw [hname] at h
      simp only [Build.exec_bind, Build.exec_get] at h
      have hvalid := checkName_eq_ok_iff.mp hname
      split at h
      · cases h
      · rename_i hfault
        cases owner with
        | package p =>
            cases h
            exact ⟨rfl, enterable_topLevel howner kind mods (Or.inl rfl) hvalid (get?_of_definitionFault? hfault),
              entered_addTopLevel howner name kind (Or.inl rfl) mods⟩
        | «class» o =>
            cases h
            obtain ⟨hdefined, hfree, hapart⟩ := of_definitionFault? hfault
            have hboth : Origin.defined = Origin.defined ↔ (m.entry o).origin = .defined := by simp [hdefined]
            exact ⟨rfl, enterable_nested hm howner kind mods (Or.inl rfl) hvalid hfree hboth fun _ ↦ hapart,
              entered_addNested howner name kind .defined mods⟩

theorem Entered.values_nested {e : ClassEntry} (he : m.Enterable e) (hn : m.Entered e n) (o : ClassId) :
    (n.entry o).nested.values =
      (m.entry o).nested.values ++ if e.outer = some o then [m.nextClass] else [] := by
  by_cases ho : m.Knows o
  · rw [hn.entry_old o ho]
    by_cases houter : e.outer = some o
    · have hfree := Table.get?_eq_none_iff.mp (he.inner_free o houter).2
      simp only [houter, if_true, Table.values, Table.entries_insert_of_notMem hfree, List.map_append]
      rfl
    · simp [houter]
  · have houter : e.outer ≠ some o := fun h ↦ ho (he.inner_free o h).1
    rw [entry_of_not_knows ho, if_neg houter, List.append_nil]
    by_cases hnew : o = m.nextClass
    · rw [hnew, hn.entry_new, he.nested_eq]
      rfl
    · rw [entry_of_not_knows fun h ↦ (hn.knows_iff.mp h).elim ho hnew]

/-- A class for a declared type, as far as its entry tells. -/
structure Represents (m : Model) (c : ClassId) (t : TypeDeclaration) : Prop where
  name : (m.entry c).name = t.name
  kind : t.classKind = .ok (m.entry c).kind
  origin : (m.entry c).origin = .defined

/-- A class in the place of a declared type: in the package, and inside classes for the types around it. The
types are given from the inside out. -/
structure Stands (m : Model) (package : String) (types : List TypeDeclaration) (c : ClassId) : Prop where
  knows : m.Knows c
  chain : List.Forall₂ m.Represents (c :: m.outers c) types
  package : (m.packageEntry (m.entry c).package).name = package

/-- Whether what belongs to an owner is in the package and inside the types. -/
def Surrounds (m : Model) (package : String) (types : List TypeDeclaration) : Owner → Prop
  | .package p => m.KnowsPackage p ∧ (m.packageEntry p).name = package ∧ types = []
  | .class c => m.Stands package types c

theorem Surrounds.knowsOwner {package : String} {types : List TypeDeclaration} {owner : Owner}
    (h : m.Surrounds package types owner) : m.KnowsOwner owner := by
  cases owner with
  | package p => exact h.1
  | «class» c => exact h.knows

theorem Represents.later {c : ClassId} {t : TypeDeclaration} (h : m.Represents c t) (hn : m.Extends n)
    (hc : m.Knows c) : n.Represents c t := by
  have hsame := hn.sameOrigin c hc
  exact ⟨hsame.name.trans h.name, by rw [h.kind, hsame.kind], hsame.origin.trans h.origin⟩

theorem Stands.later {package : String} {types : List TypeDeclaration} {c : ClassId}
    (h : m.Stands package types c) (hn : m.Extends n) (hm : m.WellFormed) : n.Stands package types c where
  knows := hn.knows h.knows
  chain := by
    rw [hn.outers_eq hm h.knows]
    have hknown : ∀ d ∈ c :: m.outers c, m.Knows d :=
      List.forall_mem_cons.mpr ⟨h.knows, fun d hd ↦ hm.knows_of_mem_outers hd⟩
    have hboth := (List.forall₂_and_left _ _).mpr ⟨hknown, h.chain⟩
    exact hboth.imp fun d t hd ↦ hd.2.later hn hd.1
  package := by
    rw [(hn.sameOrigin c h.knows).package, hn.packageName _ (hm.package_known c h.knows)]
    exact h.package

theorem Surrounds.later {package : String} {types : List TypeDeclaration} {owner : Owner}
    (h : m.Surrounds package types owner) (hn : m.Extends n) (hm : m.WellFormed) :
    n.Surrounds package types owner := by
  cases owner with
  | package p => exact ⟨hn.knowsPackage h.1, (hn.packageName p h.1).trans h.2.1, h.2.2⟩
  | «class» c => exact Stands.later h hn hm

/-! ## Placing -/

/-- The class of a placed type as it is when it was only placed, apart from the classes inside it. -/
structure IsBlank (m : Model) (p : Placed) : Prop where
  outer_eq : (m.entry p.id).outer = p.owner.class?
  entry_eq : ∃ kind, p.type.classKind = .ok kind ∧ m.entry p.id =
    { id := p.id, name := p.type.name, kind, origin := .defined, package := (m.entry p.id).package,
      outer := (m.entry p.id).outer, nested := (m.entry p.id).nested,
      mods := DeclaredModifier.carriedBy kind p.type.modifiers }

/-- The model `n` is `m` with the classes of placed types, one behind the other. -/
structure Placing (m n : Model) (ps : List Placed) : Prop where
  grown : m.Extends n
  length : n.classes.length = m.classes.length + ps.length
  ids : ps.map (·.id) = (List.range' m.classes.length ps.length).map ClassId.mk
  nested : ∀ o, (n.entry o).nested.values =
    (m.entry o).nested.values ++ (ps.filter (·.owner = .class o)).map (·.id)
  old : ∀ c, m.Knows c → m.SameMembers n c
  new : ∀ p ∈ ps, n.IsBlank p

/-- The placed type is the element. -/
structure IsPlace (m : Model) (e : TypeElement) (p : Placed) : Prop where
  type : p.type = e.type
  scope : p.scope = e.scope
  stands : m.Stands e.package e.chain p.id

theorem IsPlace.later {e : TypeElement} {p : Placed} (h : m.IsPlace e p) (hn : m.Extends n)
    (hm : m.WellFormed) : n.IsPlace e p :=
  ⟨h.type, h.scope, h.stands.later hn hm⟩

theorem SameMembers.trans {c : ClassId} (h : m.SameMembers k c) (hk : k.SameMembers n c) :
    m.SameMembers n c := by
  obtain ⟨nested, hentry⟩ := h
  obtain ⟨nested', hentry'⟩ := hk
  exact ⟨nested', by rw [hentry', hentry]⟩

theorem IsBlank.later {p : Placed} (h : m.IsBlank p) (hn : m.SameMembers n p.id) : n.IsBlank p := by
  obtain ⟨nested, hentry⟩ := hn
  obtain ⟨kind, hkind, hblank⟩ := h.entry_eq
  refine ⟨by rw [hentry]; exact h.outer_eq, kind, hkind, ?_⟩
  rw [hentry, hblank]

namespace Placing

theorem of_extends (h : m.Extends n) (hclasses : n.classes = m.classes) : m.Placing n [] where
  grown := h
  length := by simp [hclasses]
  ids := rfl
  nested o := by simp [entry, hclasses]
  old c _ := ⟨(m.entry c).nested, by simp only [entry, hclasses]⟩
  new _ hp := nomatch hp

theorem append {ps qs : List Placed} (h : m.Placing k ps) (hk : k.Placing n qs) : m.Placing n (ps ++ qs) where
  grown := h.grown.trans hk.grown
  length := by
    rw [hk.length, h.length, List.length_append]
    omega
  ids := by
    rw [List.map_append, h.ids, hk.ids, h.length, List.length_append, ← List.map_append, List.range'_append_1]
  nested o := by
    rw [hk.nested, h.nested, List.filter_append, List.map_append, List.append_assoc]
  old c hc := (h.old c hc).trans (hk.old c (h.grown.knows hc))
  new p hp := by
    rcases List.mem_append.mp hp with hp | hp
    · have hid : p.id ∈ (List.range' m.classes.length ps.length).map ClassId.mk :=
        h.ids ▸ List.mem_map_of_mem hp
      obtain ⟨i, hi, heq⟩ := List.mem_map.mp hid
      have hknows : k.Knows p.id := by
        rw [List.mem_range'_1] at hi
        rw [Knows, h.length, ← heq]
        exact hi.2
      exact (h.new p hp).later (hk.old p.id hknows)
    · exact hk.new p hp

theorem of_entered {e : ClassEntry} (he : m.Enterable e) (hn : m.Entered e n) {p : Placed}
    (hid : p.id = m.nextClass) (howner : e.outer = p.owner.class?) (hblank : n.IsBlank p) : m.Placing n [p] where
  grown := (Addition.class (s := ⟨fun _ ↦ True, fun _ ↦ True, True⟩) he hn ⟨fun _ _ ↦ Or.inl trivial,
    fun _ _ ↦ trivial, fun _ ↦ trivial⟩).extends
  length := hn.length_classes
  ids := by simp [hid, nextClass]
  nested o := by
    rw [hn.values_nested he, howner]
    cases hp : p.owner with
    | package q => simp [Owner.class?, hp]
    | «class» c => by_cases hc : c = o <;> simp [Owner.class?, hp, hc, hid]
  old c hc := ⟨_, hn.entry_old c hc⟩
  new q hq := List.mem_singleton.mp hq ▸ hblank

end Placing
end Model

namespace Assembly

/-- The placed types entered a state, each for one of the elements. -/
structure Enters (s t : Assembly) (ps : List Placed) (es : List TypeElement) : Prop where
  sound : t.Sound
  shapes_eq : t.shapes = s.shapes
  placing : s.model.Placing t.model ps
  places : List.Forall₂ t.model.IsPlace es ps

variable {s t k : Assembly}

theorem Enters.nil (hs : s.Sound) : s.Enters s [] [] :=
  ⟨hs, rfl, .of_extends (.refl _) rfl, .nil⟩

theorem Enters.flatMap_type {β : Type} {ps : List Placed} {es : List TypeElement} (h : s.Enters t ps es)
    (f : TypeDeclaration → List β) : ps.flatMap (fun p ↦ f p.type) = es.flatMap fun e ↦ f e.type := by
  have hplaces := h.places
  clear h
  induction hplaces with
  | nil => rfl
  | cons he _ ih => rw [List.flatMap_cons, List.flatMap_cons, he.type, ih]

theorem Enters.append {ps qs : List Placed} {es fs : List TypeElement} (h : s.Enters k ps es)
    (hk : k.Enters t qs fs) : s.Enters t (ps ++ qs) (es ++ fs) where
  sound := hk.sound
  shapes_eq := hk.shapes_eq.trans h.shapes_eq
  placing := h.placing.append hk.placing
  places := by
    have hold := h.places.imp fun e p hp ↦ hp.later hk.placing.grown h.sound.wellFormed
    exact List.rel_append hold hk.places

end Assembly

open Assembly

variable {s u : Assembly} {package : String} {enclosing : List TypeDeclaration} {owner : Model.Owner}

namespace TypeDeclaration

theorem enters_of_define (hs : s.Sound) (howner : s.model.Surrounds package enclosing owner)
    {t : TypeDeclaration} {c : ClassId} (h : (t.define owner).Yields s c u) :
    s.Enters u [⟨c, owner, t, scopeWithin package (t :: enclosing)⟩] [⟨package, enclosing, t⟩] ∧
      u.model.Stands package (t :: enclosing) c := by
  simp only [define, Assemble.yields_bind, Assemble.yields_liftExcept, Assemble.yields_build] at h
  obtain ⟨kind, _, ⟨hkind, rfl⟩, n, hexec, rfl⟩ := h
  have hm := hs.wellFormed
  obtain ⟨rfl, henter, hentered⟩ := Model.entered_of_defineClass hm howner.knowsOwner hexec
  have hreachable : n.Reachable := by
    have hadmits : s.model.Admits (.define owner (DeclaredModifier.carriedBy kind t.modifiers) t.name kind) := by
      have hknown := howner.knowsOwner
      cases owner with
      | package p => exact ⟨List.forall_mem_nil _, List.forall_mem_singleton.mpr hknown⟩
      | «class» o =>
          exact ⟨List.forall_mem_singleton.mpr (List.forall_mem_singleton.mpr hknown), List.forall_mem_nil _⟩
    have hstep := hs.reachable.step hadmits
    rw [Operation.step, Operation.perform, Build.exec_map, hexec] at hstep
    exact hstep
  have hn := hreachable.wellFormed
  have hnew := hentered.entry_new
  have hplacing := Model.Placing.of_entered henter hentered
    (p := ⟨s.model.nextClass, owner, t, scopeWithin package (t :: enclosing)⟩) rfl rfl
    ⟨by rw [hnew]; rfl, kind, hkind, by rw [hnew]; rfl⟩
  have hrepresents : n.Represents s.model.nextClass t :=
    ⟨by rw [hnew]; rfl, by rw [hnew]; exact hkind, by rw [hnew]; rfl⟩
  have hstands : n.Stands package (t :: enclosing) s.model.nextClass := by
    cases owner with
    | package p =>
        obtain ⟨hp, hname, rfl⟩ := howner
        refine ⟨hentered.knows_new, ?_, ?_⟩
        · rw [Model.outers_of_outer_eq_none (by rw [hnew]; rfl)]
          exact .cons hrepresents .nil
        · rw [hnew]
          exact (hplacing.grown.packageName p hp).trans hname
    | «class» o =>
        have houter := Model.Stands.later howner hplacing.grown hm
        refine ⟨hentered.knows_new, ?_, ?_⟩
        · rw [Model.outers_of_outer_eq_some hn.outer_below (by rw [hnew]; rfl)]
          exact .cons hrepresents houter.chain
        · have hpackage : (n.entry s.model.nextClass).package = (n.entry o).package := by
            rw [hnew, (hplacing.grown.sameOrigin o howner.knows).package]
            rfl
          rw [hpackage]
          exact houter.package
  have hdeclarative := hs.declarative.enter henter hentered fun h ↦ Origin.noConfusion h
  have hsound := hs.grow hreachable hdeclarative hplacing.grown
  exact ⟨⟨hsound, rfl, hplacing, .cons ⟨rfl, rfl, hstands⟩ .nil⟩, hstands⟩

theorem enters_of_placeAll {ts : List TypeDeclaration} (hs : s.Sound)
    (howner : s.model.Surrounds package enclosing owner) {ps : List Placed}
    (h : (placeAll owner (scopeWithin package enclosing) ts).Yields s ps u) :
    s.Enters u ps (elementsAll package enclosing ts) := by
  induction ts using list_induction generalizing s u package enclosing owner ps with
  | nil =>
      obtain ⟨rfl, rfl⟩ := Assemble.yields_pure.mp h
      exact .nil hs
  | cons t ts ihn ih =>
      simp only [placeAll, place_eq, Assemble.yields_bind, Assemble.yields_pure] at h
      obtain ⟨_, k, ⟨c, l, hc, others, _, hothers, rfl, rfl⟩, rest, _, hrest, rfl, rfl⟩ := h
      obtain ⟨hfirst, hstands⟩ := enters_of_define hs howner hc
      have hsurrounds : l.model.Surrounds package (t :: enclosing) (.class c) := hstands
      have hinside := ihn hfirst.sound hsurrounds hothers
      have hself := hfirst.append hinside
      have hothers := ih hself.sound (howner.later hself.placing.grown hs.wellFormed) hrest
      rw [elementsAll, elements_eq]
      exact hself.append hothers

end TypeDeclaration

theorem PackageDeclaration.enters_of_place (hs : s.Sound) {d : PackageDeclaration} {ps : List Placed}
    (h : d.place.Yields s ps u) : s.Enters u ps (TypeDeclaration.elementsAll d.name [] d.types) := by
  simp only [place, Assemble.yields_bind, Assemble.yields_build] at h
  obtain ⟨p, _, ⟨n, hp, rfl⟩, h⟩ := h
  have hgrowing := Model.growing_package (s := Model.nowhere) (m := s.model) d.name
  have hfind := Model.findPackage?_of_package hs.wellFormed hp
  have hclasses : n.classes = s.model.classes := by
    have hsame : ((Model.package d.name).exec s.model).2.classes = s.model.classes := by
      unfold Model.package
      rw [Build.exec_bind, Build.exec_get]
      simp only
      split <;> rfl
    rw [hp] at hsame
    exact hsame
  have hreachable : n.Reachable := by
    have hstep := hs.reachable.step (o := .package d.name) ⟨List.forall_mem_nil _, List.forall_mem_nil _⟩
    rw [Operation.step, Operation.perform, Build.exec_map, hp] at hstep
    exact hstep
  rw [hp] at hgrowing
  have hextends := Model.extends_of_grown hgrowing.grown
  have hsound := hs.grow hreachable (hs.declarative.grow id hgrowing.grown) hextends
  obtain ⟨hknown, hname⟩ := (Model.findPackage?_eq_some_iff hreachable.wellFormed).mp hfind
  have hpackage : s.Enters { s with model := n } [] [] := ⟨hsound, rfl, .of_extends hextends hclasses, .nil⟩
  have howner : n.Surrounds d.name [] (.package p) := ⟨hknown, hname, rfl⟩
  exact hpackage.append (TypeDeclaration.enters_of_placeAll hsound howner h)

/-- Every type element has its class, and the classes stand as the elements do. -/
theorem Declarations.enters_of_place (hs : s.Sound) {d : Declarations} {ps : List Placed}
    (h : d.place.Yields s ps u) : s.Enters u ps d.elements := by
  simp only [place, Assemble.yields_bind, Assemble.yields_pure] at h
  obtain ⟨pss, _, h, rfl, rfl⟩ := h
  unfold elements
  generalize d.packages = packages at h ⊢
  induction packages generalizing s pss with
  | nil =>
      obtain ⟨rfl, rfl⟩ := Assemble.yields_mapM_nil.mp h
      exact .nil hs
  | cons p packages ih =>
      obtain ⟨first, k, others, hfirst, hothers, rfl⟩ := Assemble.yields_mapM_cons.mp h
      have henters := p.enters_of_place hs hfirst
      exact henters.append (ih henters.sound others hothers)

end JavaSource
