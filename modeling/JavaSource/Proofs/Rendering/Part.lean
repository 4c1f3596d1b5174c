import JavaSource.Proofs.Model.Descent
import JavaSource.Proofs.Model.WellFormed
import JavaSource.Proofs.Rendering.MemberWeave

/-!
# Parts of a unit

The walk over a class goes through the headers and bodies of the class and its nested classes, through the
bodies of the anonymous classes that are made there, and through the bases of those that stand as types. What
it writes depends on nothing but these parts.
-/

namespace JavaSource

inductive Part where
  | header (c : ClassId)
  | body (c : ClassId)
  /-- The base of an anonymous class, written where the class stands as a type. -/
  | base (c : ClassId)
  deriving DecidableEq

def Part.owner : Part → ClassId
  | .header c | .body c | .base c => c

/-- The parts that a walk goes through next at a mention. -/
def Mention.parts : Mention → List Part
  | .type t => t.bases.map .base
  | .class _ => []
  | .body c => [.body c]

theorem Mention.owner_mem_classes {x : Mention} {p : Part} (hp : p ∈ x.parts) : p.owner ∈ x.classes := by
  cases x with
  | type t =>
      obtain ⟨c, hc, rfl⟩ := List.mem_map.mp hp
      exact t.bases_subset_classes hc
  | «class» c => cases hp
  | body c =>
      obtain rfl := List.mem_singleton.mp hp
      exact List.mem_singleton_self c

namespace Model

def partMentions (m : Model) : Part → List Mention
  | .header c => (m.entry c).headerMentions
  | .body c => (m.entry c).bodyMentions
  | .base c => (m.entry c).superclass.toList.flatMap ClassType.mentions

/-- The parts that a walk goes through next from a part. -/
def partsWithin (m : Model) (p : Part) : List Part :=
  (m.partMentions p).flatMap Mention.parts ++
    match p with
    | .body c => (m.entry c).nested.values.flatMap fun d ↦ [.header d, .body d]
    | .header _ | .base _ => []

/-- What callers have given for the text of a part. -/
def partTexts (m : Model) (p : Part) : List String :=
  (match p with
    | .header c => (m.entry c).headerTexts
    | .body c => (m.entry c).bodyTexts
    | .base _ => []) ++ (m.partMentions p).flatMap Mention.texts

/-- The unit of the class `t` has the part in it. -/
inductive Writes (m : Model) (t : ClassId) : Part → Prop
  | header : m.Writes t (.header t)
  | body : m.Writes t (.body t)
  | within {p q : Part} (hp : m.Writes t p) (hq : q ∈ m.partsWithin p) : m.Writes t q

variable {m : Model} {t : ClassId}

theorem partMentions_subset (m : Model) (p : Part) : m.partMentions p ⊆ (m.entry p.owner).mentions := by
  intro x hx
  cases p with
  | header c => exact List.mem_append_left _ hx
  | body c => exact List.mem_append_right _ hx
  | base c => exact ClassEntry.mem_mentions.mpr (Or.inr (Or.inr (Or.inl hx)))

theorem Writes.of_mention {p q : Part} (hp : m.Writes t p) {x : Mention} (hx : x ∈ m.partMentions p)
    (hq : q ∈ x.parts) : m.Writes t q :=
  hp.within (List.mem_append_left _ (List.mem_flatMap.mpr ⟨x, hx, hq⟩))

theorem Writes.nested {c d : ClassId} (hc : m.Writes t (.body c)) (hd : d ∈ (m.entry c).nested.values) :
    m.Writes t (.header d) ∧ m.Writes t (.body d) := by
  have hmem : ∀ q ∈ [Part.header d, .body d], q ∈ m.partsWithin (.body c) := fun q hq ↦
    List.mem_append_right _ (List.mem_flatMap.mpr ⟨d, hd, hq⟩)
  exact ⟨hc.within (hmem _ (by simp)), hc.within (hmem _ (by simp))⟩

theorem Writes.knows (hm : m.WellFormed) (ht : m.Knows t) {p : Part} (hp : m.Writes t p) :
    m.Knows p.owner := by
  induction hp with
  | header => exact ht
  | body => exact ht
  | @within p q _ hq _ =>
      rcases List.mem_append.mp hq with hq | hq
      · obtain ⟨x, hx, hq⟩ := List.mem_flatMap.mp hq
        exact hm.mentions_known _ x (m.partMentions_subset p hx) _ (Mention.owner_mem_classes hq)
      · cases p with
        | header c => cases hq
        | base c => cases hq
        | body c =>
            obtain ⟨d, hd, hq⟩ := List.mem_flatMap.mp hq
            obtain ⟨name, hd⟩ := Table.mem_values.mp hd
            have hknown := (hm.of_mem_nested c name d hd).1
            rcases List.mem_cons.mp hq with rfl | hq
            · exact hknown
            · exact List.mem_singleton.mp hq ▸ hknown

/-- A list of parts with the two of the class itself that no step leads out of holds all parts of the unit. -/
theorem Writes.mem_of_closed {ps : List Part} (hheader : .header t ∈ ps) (hbody : .body t ∈ ps)
    (hclosed : ∀ p ∈ ps, ∀ q ∈ m.partsWithin p, q ∈ ps) {p : Part} (hp : m.Writes t p) : p ∈ ps := by
  induction hp with
  | header => exact hheader
  | body => exact hbody
  | within _ hq ih => exact hclosed _ ih _ hq

/-- A unit without nested and anonymous classes has its own header and body only. -/
theorem Writes.owner_eq {p : Part} (hp : m.Writes t p) (hheader : m.partsWithin (.header t) = [])
    (hbody : m.partsWithin (.body t) = []) : p.owner = t := by
  have hmem : p ∈ [Part.header t, .body t] := by
    refine hp.mem_of_closed (by simp) (by simp) fun p hp q hq ↦ ?_
    rcases List.mem_cons.mp hp with rfl | hp
    · rw [hheader] at hq
      cases hq
    · rw [List.mem_singleton.mp hp, hbody] at hq
      cases hq
  rcases List.mem_cons.mp hmem with rfl | hmem
  · rfl
  · rw [List.mem_singleton.mp hmem]
    rfl

theorem mem_partTexts_of_mention {p : Part} {x : Mention} (hx : x ∈ m.partMentions p) {s : String}
    (hs : s ∈ x.texts) : s ∈ m.partTexts p :=
  List.mem_append_right _ (List.mem_flatMap.mpr ⟨x, hx, hs⟩)

/-- A part is the same in two models. Classes that are nested in a class belong to its body. -/
def SamePart (m n : Model) : Part → Prop
  | .header c | .base c => m.SameMembers n c
  | .body c => n.entry c = m.entry c

theorem samePart_self (m : Model) (p : Part) : m.SamePart m p := by
  cases p with
  | header c | base c => exact ⟨_, rfl⟩
  | body c => rfl

section Walks

variable {n : Model} {ok : String → Prop} {R : List Event → List Event → Prop} (hR : ComposesLines ok R)
  (hm : m.WellFormed) (ht : m.Knows t) (htexts : ∀ p, m.Writes t p → ∀ s ∈ m.partTexts p, ok s)
  (hclass : ∀ c, m.Knows c → R [.reference c] [.reference c])
  (hdeclared : ∀ c, m.Writes t (.header c) → R [.declared c] [.declared c])
  (hsame : ∀ p, m.Writes t p → m.SamePart n p) (hlength : m.classes.length ≤ n.classes.length)

include hR hm ht htexts hclass hsame hlength

theorem baseEvents_rel {c : ClassId} (hc : m.Writes t (.base c)) :
    R (m.baseEvents c) (n.baseEvents c) := by
  refine descend_rel (fun d ↦ m.Writes t (.base d)) (fun d hd ↦ hd.knows hm ht)
    (fun _ _ ↦ hR.nil) (fun d f g hd hfg ↦ ?_) List.nodup_nil (by simp) (Nat.le_refl _) hlength hc
  obtain ⟨nested, hentry⟩ := hsame _ hd
  have hsuper : (n.entry d).superclass = (m.entry d).superclass := by rw [hentry]
  unfold baseStep
  rw [hsuper]
  cases he : (m.entry d).superclass with
  | none => exact hclass _ hm.knows_object
  | some s =>
      have hx : Mention.type s.toType ∈ m.partMentions (.base d) := by
        simp [partMentions, he, ClassType.mentions]
      refine hR.typeEvents s.toType (fun e he ↦ hclass e ?_) (fun e he ↦ hfg e ?_) fun x hx' ↦ ?_
      · exact hm.mentions_known d _ (m.partMentions_subset (.base d) hx) e he
      · exact hd.of_mention hx (List.mem_map_of_mem he)
      · exact htexts _ hd x (mem_partTexts_of_mention hx hx')

theorem related_of_writes {body body' : ClassId → List Event}
    (hbody : ∀ c, m.Writes t (.body c) → R (body c) (body' c)) {p : Part} (hp : m.Writes t p) :
    Related R ⟨m.typeEvents, body⟩ ⟨n.typeEvents, body'⟩ (m.partMentions p) := by
  intro x hx
  have hknown := hm.mentions_known _ x (m.partMentions_subset p hx)
  have hparts : ∀ q ∈ x.parts, m.Writes t q := fun q hq ↦ hp.of_mention hx hq
  cases x with
  | type s =>
      refine hR.typeEvents s (fun c hc ↦ hclass c (hknown c hc)) (fun c hc ↦ ?_) fun y hy ↦ ?_
      · exact baseEvents_rel hR hm ht htexts hclass hsame hlength (hparts _ (List.mem_map_of_mem hc))
      · exact htexts p hp y (mem_partTexts_of_mention hx hy)
  | «class» c => exact hclass c (hknown c (List.mem_singleton_self c))
  | body c => exact hbody c (hparts _ (List.mem_singleton_self _))

include hdeclared

theorem declarationWith_rel {body body' : ClassId → List Event}
    (hbody : ∀ c, m.Writes t (.body c) → R (body c) (body' c)) {c : ClassId}
    (hheader : m.Writes t (.header c)) (hc : m.Writes t (.body c)) :
    R (m.declarationWith body c) (n.declarationWith body' c) := by
  obtain ⟨nested, hentry⟩ := hsame _ hheader
  have hid : R [.declared (m.entry c).id] [.declared (m.entry c).id] := by
    rw [hm.id_eq c (hheader.knows hm ht)]
    exact hdeclared c hheader
  have hrelated := related_of_writes hR hm ht htexts hclass hsame hlength hbody hheader
  have hevents : R ((m.entry c).headerEvents ⟨m.typeEvents, body⟩)
      ((n.entry c).headerEvents ⟨n.typeEvents, body'⟩) := by
    rw [hentry]
    exact hR.headerEvents hid hrelated fun s hs ↦ htexts _ hheader s (List.mem_append_left _ hs)
  exact hR.append (hR.append hevents (hbody c hc)) hR.newline

theorem bodyEvents_rel {c : ClassId} (hc : m.Writes t (.body c)) :
    R (m.bodyEvents c) (n.bodyEvents c) := by
  refine descend_rel (fun d ↦ m.Writes t (.body d)) (fun d hd ↦ hd.knows hm ht)
    (fun _ _ ↦ hR.nil) (fun d f g hd hfg ↦ ?_) List.nodup_nil (by simp) (Nat.le_refl _) hlength hc
  have hentry : n.entry d = m.entry d := hsame _ hd
  unfold bodyStep
  rw [hentry]
  refine hR.bodyEvents (related_of_writes hR hm ht htexts hclass hsame hlength hfg hd)
    (fun s hs ↦ htexts _ hd s (List.mem_append_left _ hs)) (Composes.forall₂_map fun e he ↦ ?_)
  obtain ⟨hheader, hbody⟩ := hd.nested he
  exact declarationWith_rel hR hm ht htexts hclass hdeclared hsame hlength hfg hheader hbody

/-- Two models whose parts of a unit are the same write the unit alike. -/
theorem declarationEvents_rel : R (m.declarationEvents t) (n.declarationEvents t) :=
  declarationWith_rel hR hm ht htexts hclass hdeclared hsame hlength
    (fun _ hc ↦ bodyEvents_rel hR hm ht htexts hclass hdeclared hsame hlength hc) .header .body

end Walks

/-! ## The classes that a unit names -/

/-- What all events of a unit are like. -/
def IsWritten (m : Model) (t : ClassId) : Event → Prop
  | .reference c => m.Knows c
  | .declared c => m.Writes t (.header c)
  | _ => True

theorem isWritten_of_isPlain {e : Event} (he : e.IsPlain) : m.IsWritten t e := by
  cases e with
  | reference c => exact absurd rfl (he c).1
  | declared c => exact absurd rfl (he c).2
  | _ => trivial

theorem isWritten_of_mem (hm : m.WellFormed) (ht : m.Knows t) :
    ∀ e ∈ m.declarationEvents t, m.IsWritten t e := by
  have hweave : Weave fun l _ ↦ ∀ e ∈ l, m.IsWritten t e :=
    ⟨fun l hl e he ↦ isWritten_of_isPlain (hl e he), fun ha hb e he ↦
      (List.mem_append.mp he).elim (ha e) (hb e)⟩
  exact declarationEvents_rel hweave.composes hm ht (fun _ _ _ _ ↦ trivial)
    (fun c hc ↦ by simpa [IsWritten] using hc) (fun c hc ↦ by simpa [IsWritten] using hc)
    (fun p _ ↦ m.samePart_self p) (Nat.le_refl _)

theorem declared_mem_declarationWith (hm : m.WellFormed) {c : ClassId} (hc : m.Knows c)
    (body : ClassId → List Event) : .declared c ∈ m.declarationWith body c := by
  have hid : (m.entry c).id = c := hm.id_eq c hc
  simp [declarationWith, ClassEntry.headerEvents, hid]

theorem mem_blankLines_of_mem {groups : List (List Event)} {g : List Event} (hg : g ∈ groups) :
    g ⊆ Event.blankLines groups := by
  induction groups with
  | nil => cases hg
  | cons h groups ih =>
      intro e he
      cases groups with
      | nil => exact List.mem_singleton.mp hg ▸ he
      | cons h' groups =>
          rcases List.mem_cons.mp hg with rfl | hg
          · exact List.mem_append_left _ he
          · exact List.mem_append_right _ (List.mem_cons_of_mem _ (ih hg he))

theorem declarationWith_subset_bodyStep {body : ClassId → List Event} {c d : ClassId}
    (hd : d ∈ (m.entry c).nested.values) : m.declarationWith body d ⊆ m.bodyStep body c := by
  have hgroup : m.declarationWith body d ∈ (m.entry c).memberGroups ⟨m.typeEvents, body⟩
      ((m.entry c).nested.values.map (m.declarationWith body)) :=
    List.mem_append_right _ (List.mem_map_of_mem hd)
  intro e he
  refine List.mem_append_left _ (List.mem_append_right _ (List.mem_append_right _ ?_))
  exact mem_blankLines_of_mem hgroup he

/-- A class is declared wherever the body of a class around it is written, as long as the walk has come from
further outside. -/
theorem declared_mem_descend (hm : m.WellFormed) {n : Nat} {path : List ClassId} {c d : ClassId}
    (hc : c ∈ m.outers d) (hn : m.classes.length ≤ n + c.index) (hpath : ∀ p ∈ path, p.index < c.index) :
    .declared d ∈ descend (fun _ ↦ []) m.bodyStep n path c := by
  induction n generalizing path c with
  | zero =>
      have hlt : c.index < m.classes.length := hm.knows_of_mem_outers hc
      omega
  | succ n ih =>
      have hmem : c ∉ path := fun h ↦ Nat.lt_irrefl _ (hpath c h)
      simp only [descend, hmem, if_false]
      obtain ⟨e, heouter, he⟩ := exists_inner_of_mem_outers hm.outer_below hc
      have hnested : e ∈ (m.entry c).nested.values := by
        have hget := (hm.listed_inner e c heouter).2
        exact Table.mem_values.mpr ⟨_, Table.mem_entries_of_get? hget⟩
      have hlt := hm.outer_below e c heouter
      refine declarationWith_subset_bodyStep hnested ?_
      rcases he with rfl | he
      · exact declared_mem_declarationWith hm (hm.knows_of_outer heouter).1 _
      · refine List.mem_append_left _ (List.mem_append_right _ (ih he (by omega) fun p hp ↦ ?_))
        rcases List.mem_cons.mp hp with rfl | hp
        · exact hlt
        · exact Nat.lt_trans (hpath p hp) hlt

/-- A unit declares its class and everything that is nested in it, however deep. -/
theorem declared_mem_declarationEvents (hm : m.WellFormed) (ht : m.Knows t) {d : ClassId}
    (hd : d = t ∨ t ∈ m.outers d) : .declared d ∈ m.declarationEvents t := by
  rcases hd with rfl | hd
  · exact declared_mem_declarationWith hm ht _
  · refine List.mem_append_left _ (List.mem_append_right _ ?_)
    exact declared_mem_descend hm hd (Nat.le_add_right _ _) (by simp)

end Model
end JavaSource
