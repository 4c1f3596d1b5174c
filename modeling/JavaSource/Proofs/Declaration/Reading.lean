import JavaSource.Proofs.Declaration.EarlyShapes

/-!
# What annotations and defaults stand for

In a built model a written name leads to one class, and a written value stands for a value of the member it is given
to. An annotation keeps the values that are given to it, in their order; only a value that its member has by default
is left out. With this the annotations and the defaults of a built model are told from the model alone.
-/

namespace JavaSource

/-! ## Values that a use keeps -/

/-- The shape has the member, and a value is what the member has by default. -/
def AnnotationShape.IsDefault (shape : Option AnnotationShape) (p : String × AnnotationValue) : Prop :=
  ∃ s k v, shape = some s ∧ s.members.get? p.1 = some (k, some v) ∧ v.same p.2

/-- If there is a shape, it has the member, and the member takes the value. -/
def AnnotationShape.Takes (shape : Option AnnotationShape) (p : String × AnnotationValue) : Prop :=
  ∀ s, shape = some s → ∃ k default, s.members.get? p.1 = some (k, default) ∧ k.accepts p.2

/-- The use has members that were given, in the order in which they were given and with values that the shape takes.
Only what is there by default is left out. -/
structure AnnotationUse.Keeps (shape : Option AnnotationShape) (given : List (String × AnnotationValue))
    (u : AnnotationUse) : Prop where
  mem : ∀ p ∈ u.members.entries, p ∈ given
  order : u.members.keys.Sublist (given.map Prod.fst)
  leftOut : ∀ p ∈ given, p.1 ∈ u.members.keys ∨ AnnotationShape.IsDefault shape p
  takes : ∀ p ∈ u.members.entries, AnnotationShape.Takes shape p

namespace AnnotationUse.Keeps

variable {shape : Option AnnotationShape} {given rest : List (String × AnnotationValue)} {p : String × AnnotationValue}
  {u w : AnnotationUse}

theorem empty (shape : Option AnnotationShape) (c : ClassId) : Keeps shape [] ⟨c, {}⟩ where
  mem := nofun
  order := List.nil_sublist _
  leftOut := nofun
  takes := nofun

theorem skip (h : u.Keeps shape given) (hp : AnnotationShape.IsDefault shape p) : u.Keeps shape (given ++ [p]) where
  mem q hq := List.mem_append_left _ (h.mem q hq)
  order := by
    rw [List.map_append]
    exact h.order.trans (List.sublist_append_left _ _)
  leftOut q hq := by
    rcases List.mem_append.mp hq with hq | hq
    · exact h.leftOut q hq
    · exact Or.inr (List.mem_singleton.mp hq ▸ hp)
  takes := h.takes

theorem set (h : u.Keeps shape given) (hp : AnnotationShape.Takes shape p) :
    (u.set p.1 p.2).Keeps shape (given ++ [p]) where
  mem q hq := by
    rcases Table.mem_entries_insert hq with hq | rfl
    · exact List.mem_append_left _ (h.mem q hq)
    · exact List.mem_append_right _ (List.mem_singleton_self _)
  order := by
    rw [List.map_append]
    by_cases hmem : p.1 ∈ u.members.keys
    · rw [AnnotationUse.set, Table.keys_insert_of_mem hmem]
      exact h.order.trans (List.sublist_append_left _ _)
    · rw [AnnotationUse.set, Table.keys_insert_of_notMem hmem]
      exact h.order.append (List.Sublist.refl _)
  leftOut q hq := by
    have hkeys : ∀ name, name ∈ u.members.keys ∨ name = p.1 → name ∈ (u.set p.1 p.2).members.keys := by
      intro name hname
      by_cases hmem : p.1 ∈ u.members.keys
      · rw [AnnotationUse.set, Table.keys_insert_of_mem hmem]
        exact hname.elim id fun heq ↦ heq ▸ hmem
      · rw [AnnotationUse.set, Table.keys_insert_of_notMem hmem, List.mem_append, List.mem_singleton]
        exact hname
    rcases List.mem_append.mp hq with hq | hq
    · exact (h.leftOut q hq).imp_left fun hname ↦ hkeys _ (Or.inl hname)
    · exact Or.inl (hkeys _ (Or.inr (List.mem_singleton.mp hq ▸ rfl)))
  takes q hq := by
    rcases Table.mem_entries_insert hq with hq | rfl
    · exact h.takes q hq
    · exact hp

end AnnotationUse.Keeps

/-- Setting a member leaves out what the later shape has by default, or keeps what the later shape takes. -/
theorem AnnotationShape.Precedes.cases_of_set {s s' : AnnotationShape} (h : s.Precedes s') {u w : AnnotationUse}
    {name : String} {v : AnnotationValue} (hw : s.set u name v = .ok w) :
    (w = u ∧ IsDefault (some s') (name, v)) ∨ (w = u.set name v ∧ Takes (some s') (name, v)) := by
  have hmember := h name
  unfold AnnotationShape.set AnnotationShape.member? at hw
  cases hget : s.members.get? name with
  | none => simp [hget, bind, Except.bind] at hw
  | some member =>
      obtain ⟨k, default⟩ := member
      rw [hget] at hmember
      generalize hget' : s'.members.get? name = later at hmember
      cases hmember with
      | @some _ member' hmember =>
          obtain ⟨hkind, hdefault⟩ := hmember
          simp only [hget, bind, Except.bind] at hw
          split at hw
          · rename_i hsame
            cases default with
            | none => cases hsame
            | some value =>
                have hdefault : member'.2 = some value := hdefault.resolve_left nofun
                refine Or.inl ⟨(Except.ok.inj hw).symm, s', member'.1, value, rfl, ?_, hsame⟩
                rw [hget', ← hdefault]
          · split at hw
            · rename_i haccepts
              refine Or.inr ⟨(Except.ok.inj hw).symm, ?_⟩
              rintro _ ⟨⟩
              refine ⟨member'.1, member'.2, hget', ?_⟩
              rw [← MemberKind.accepts_via_id, hkind, MemberKind.accepts_via_id]
              exact haccepts
            · cases hw

namespace AnnotationUse

theorem Keeps.foldlM {s s' : AnnotationShape} (h : s.Precedes s') {given rest : List (String × AnnotationValue)}
    {u w : AnnotationUse} (hu : u.Keeps (some s') given)
    (hw : rest.foldlM (fun u v ↦ s.set u v.1 v.2) u = .ok w) : w.Keeps (some s') (given ++ rest) := by
  induction rest generalizing u given with
  | nil =>
      obtain rfl := Except.ok.inj hw
      rwa [List.append_nil]
  | cons p rest ih =>
      rw [List.foldlM_cons, Except.bind_eq_ok] at hw
      obtain ⟨k, hk, hw⟩ := hw
      rw [List.append_cons]
      rcases h.cases_of_set hk with ⟨rfl, hdefault⟩ | ⟨rfl, htakes⟩
      · exact ih (hu.skip hdefault) hw
      · exact ih (hu.set htakes) hw

theorem Keeps.foldl {given rest : List (String × AnnotationValue)} {u : AnnotationUse} (hu : u.Keeps none given) :
    (rest.foldl (fun u v ↦ u.set v.1 v.2) u).Keeps none (given ++ rest) := by
  induction rest generalizing u given with
  | nil => rwa [List.append_nil]
  | cons p rest ih =>
      rw [List.append_cons]
      exact ih (hu.set nofun)

/-- A use is put together of what is given, even if the shape that is looked at came early. -/
theorem keeps_of_ofValues {shape shape' : Option AnnotationShape} (h : Option.Rel AnnotationShape.Precedes shape shape')
    {c : ClassId} {given : List (String × AnnotationValue)} {u : AnnotationUse} (hu : ofValues c shape given = .ok u) :
    u.Keeps shape' given := by
  have hempty := Keeps.empty shape' c
  cases h with
  | some h => exact hempty.foldlM h hu
  | none =>
      obtain rfl := Except.ok.inj hu
      exact hempty.foldl

theorem type_ofValues {shape : Option AnnotationShape} {c : ClassId} {given : List (String × AnnotationValue)}
    {u : AnnotationUse} (hu : ofValues c shape given = .ok u) : u.type = c :=
  ofValues_induction (P := fun u ↦ u.type = c) rfl (fun _ _ _ hw ↦ hw) hu

end AnnotationUse

/-! ## What is written, in a finished model -/

namespace Context

/-- The name leads to the class: to a declared type, or to what else is in the model when none is declared by it. -/
def Names (x : Context) (m : Model) (name : String) (c : ClassId) : Prop :=
  x.declared? name = some c ∨ x.declared? name = none ∧ m.lookup name = some c

mutual

/-- The written type stands for the type where there are the type variables. -/
def Denotes (x : Context) (m : Model) (vars : List String) : WrittenType → JavaType → Prop
  | .primitive name, t => ∃ p, Primitive.ofKeyword? name = some p ∧ t = .primitive p
  | .declared name [], t => ∃ c, x.Names m name c ∧ t = .reference c
  | .declared name (w :: ws), t =>
    ∃ c u us, x.Names m name c ∧ Denotes x m vars w u ∧ DenotesEach x m vars ws us ∧ t = .narrowed c (u :: us)
  | .array w, t => ∃ u, Denotes x m vars w u ∧ t = .array u.raw
  | .typeVar name, t => name ∈ vars ∧ t = .var name none
  | .wildcard none none, t => t = .wildcard
  | .wildcard (some w) none, t => ∃ u, Denotes x m vars w u ∧ t = .wildcardExtends u
  | .wildcard none (some w), t => ∃ u, Denotes x m vars w u ∧ t = .wildcardSuper u
  | .wildcard (some _) (some _), _ => False
  | .unresolved name, t => ∃ c, m.placeholders.get? name = some c ∧ t = .reference c

def DenotesEach (x : Context) (m : Model) (vars : List String) : List WrittenType → List JavaType → Prop
  | [], ts => ts = []
  | w :: ws, ts => ∃ u us, Denotes x m vars w u ∧ DenotesEach x m vars ws us ∧ ts = u :: us

end

mutual

/-- The written value stands for the value, in a member of the kind. -/
def ReadsAs (x : Context) (m : Model) (hint : Option MemberKind) : WrittenValue → AnnotationValue → Prop
  | .bool b, v => v = .bool b
  | .int n, v => v = .ofInteger hint n
  | .float y, v => v = .ofFloat hint y
  | .string s, v => AnnotationValue.ofString hint s = .ok v
  | .array items, v => ∃ vs, ReadsEachAs x m (hint.map (·.itemKind)) items vs ∧ v = .array vs
  | .char c, v => v = .char c
  | .long n, v => v = .long n
  | .classLiteral w, v => ∃ t, x.Denotes m [] w t ∧ v = .classLiteral t
  | .enumConstant type constant, v => ∃ c, x.Names m type c ∧ v = .enumConstant c constant
  | .nested type values, v => ∃ u given, x.Names m type u.type ∧ ReadsIn x m (m.declaredShape? u.type) values given ∧
    u.Keeps (m.declaredShape? u.type) given ∧ v = .use u

def ReadsEachAs (x : Context) (m : Model) (hint : Option MemberKind) : List WrittenValue → List AnnotationValue → Prop
  | [], vs => vs = []
  | w :: ws, vs => ∃ v us, ReadsAs x m hint w v ∧ ReadsEachAs x m hint ws us ∧ vs = v :: us

def ReadsIn (x : Context) (m : Model) (shape : Option AnnotationShape) :
    List (String × WrittenValue) → List (String × AnnotationValue) → Prop
  | [], vs => vs = []
  | (name, w) :: ws, vs =>
    ∃ v us, ReadsAs x m (AnnotationShape.hint shape name) w v ∧ ReadsIn x m shape ws us ∧ vs = (name, v) :: us

end

/-- The written annotation stands for the use: it is of the class that the name leads to, with the values that are
written, as far as it keeps them. -/
def ReadsUse (x : Context) (m : Model) (a : WrittenAnnotation) (u : AnnotationUse) : Prop :=
  ∃ given, x.Names m a.type u.type ∧ x.ReadsIn m (m.declaredShape? u.type) a.values given ∧
    u.Keeps (m.declaredShape? u.type) given

open Assembly

variable {x : Context} {s : Assembly}

mutual

theorem denotes_of_typeOf (hs : s.Sound) (hx : x.KnownTo s.model) (scope : Scope) :
    ∀ (w : WrittenType) {t : JavaType}, (x.typeOf scope w).Yields s t s → x.Denotes s.model scope.vars w t
  | .primitive name, t, h => by
      rw [typeOf] at h
      rw [Denotes]
      split at h
      · rename_i p hp
        exact ⟨p, hp, (Assemble.yields_pure.mp h).1.symm⟩
      · exact absurd h Assemble.yields_throw
  | .declared name [], t, h => by
      obtain ⟨c, hc, ⟨-, rfl⟩ | ⟨hargs, -⟩⟩ := settled_declared hs hx h
      · rw [Denotes]
        exact ⟨c, found_of_classOf hs hc, rfl⟩
      · exact absurd rfl hargs
  | .declared name (w :: ws), t, h => by
      obtain ⟨c, hc, ⟨hargs, -⟩ | ⟨-, ts, hts, rfl⟩⟩ := settled_declared hs hx h
      · cases hargs
      · obtain ⟨u, us, hu, hus, rfl⟩ := settled_typesOf_cons hs hx hts
        rw [Denotes]
        exact ⟨c, u, us, found_of_classOf hs hc, denotes_of_typeOf hs hx scope w hu,
          denotes_of_typesOf hs hx scope ws hus, rfl⟩
  | .array w, t, h => by
      obtain ⟨u, hu, rfl⟩ := settled_array h
      rw [Denotes]
      exact ⟨u, denotes_of_typeOf hs hx scope w hu, rfl⟩
  | .typeVar name, t, h => by
      rw [typeOf] at h
      rw [Denotes]
      split at h
      · rename_i hname
        exact ⟨hname, (Assemble.yields_pure.mp h).1.symm⟩
      · exact absurd h Assemble.yields_throw
  | .wildcard none none, t, h => by
      rw [typeOf] at h
      rw [Denotes]
      exact (Assemble.yields_pure.mp h).1.symm
  | .wildcard (some upper) none, t, h => by
      rw [typeOf] at h
      obtain ⟨u, hu, rfl⟩ := Assemble.yields_map.mp h
      rw [Denotes]
      exact ⟨u, denotes_of_typeOf hs hx scope upper hu, rfl⟩
  | .wildcard none (some lower), t, h => by
      rw [typeOf] at h
      obtain ⟨u, hu, rfl⟩ := Assemble.yields_map.mp h
      rw [Denotes]
      exact ⟨u, denotes_of_typeOf hs hx scope lower hu, rfl⟩
  | .wildcard (some _) (some _), t, h => by
      rw [typeOf] at h
      exact absurd h Assemble.yields_throw
  | .unresolved name, t, h => by
      rw [typeOf] at h
      rw [Denotes]
      split at h
      · exact absurd h Assemble.yields_throw
      · obtain ⟨c, hc, rfl⟩ := Assemble.yields_map.mp h
        obtain ⟨m, hm, hsame⟩ := Assemble.yields_build.mp hc
        obtain rfl : s.model = m := congrArg Assembly.model hsame
        exact ⟨c, Model.get?_placeholders_of_placeholder hm, rfl⟩

theorem denotes_of_typesOf (hs : s.Sound) (hx : x.KnownTo s.model) (scope : Scope) :
    ∀ (ws : List WrittenType) {ts : List JavaType}, (x.typesOf scope ws).Yields s ts s →
      x.DenotesEach s.model scope.vars ws ts
  | [], ts, h => by
      rw [typesOf] at h
      rw [DenotesEach]
      exact (Assemble.yields_pure.mp h).1.symm
  | w :: ws, ts, h => by
      obtain ⟨u, us, hu, hus, rfl⟩ := settled_typesOf_cons hs hx h
      rw [DenotesEach]
      exact ⟨u, us, denotes_of_typeOf hs hx scope w hu, denotes_of_typesOf hs hx scope ws hus, rfl⟩

end

/-- A hint from a shape that came early reads plain values like the hint from the shape in the end. -/
theorem hint_eq_of_precedes {shape shape' : Option AnnotationShape}
    (h : Option.Rel AnnotationShape.Precedes shape shape') (name : String) :
    (AnnotationShape.hint shape' name).map (·.via id) = (AnnotationShape.hint shape name).map (·.via id) := by
  cases h with
  | none => rfl
  | @some s s' h =>
      have hmember := h name
      simp only [AnnotationShape.hint, Option.bind_some]
      generalize s.members.get? name = member at hmember ⊢
      generalize s'.members.get? name = member' at hmember ⊢
      cases hmember with
      | none => rfl
      | some hmember => simp [hmember.1]

/-- A state in which everything was looked up, with shapes that came early at worst. -/
structure Finished (x : Context) (s : Assembly) : Prop where
  sound : s.Sound
  known : x.KnownTo s.model
  precedes : ∀ c shape, s.shapes.lookup c = some shape →
    Option.Rel AnnotationShape.Precedes shape (s.model.declaredShape? c)

/-- A use that is found stands for what is written when its values do. -/
theorem Finished.readsUse_of_values (hs : x.Finished s) {a : WrittenAnnotation}
    (hvalues : ∀ {shape shape' : Option AnnotationShape} {vs : List (String × AnnotationValue)},
      KnownShape s.model shape → Option.Rel AnnotationShape.Precedes shape shape' →
      (x.valuesOf shape a.values).Yields s vs s → x.ReadsIn s.model shape' a.values vs)
    {u : AnnotationUse} (h : (x.useOf a).Yields s u s) : x.ReadsUse s.model a u := by
  obtain ⟨c, shape, vs, hc, hshape, hvs, hu⟩ := settled_useOf hs.sound hs.known h
  obtain rfl := AnnotationUse.type_ofValues hu
  have hprecedes := hs.precedes _ shape hshape
  exact ⟨vs, found_of_classOf hs.sound hc, hvalues (hs.sound.knownShape hshape) hprecedes hvs,
    AnnotationUse.keeps_of_ofValues hprecedes hu⟩

mutual

theorem readsAs_of_valueOf (hs : x.Finished s) (member : String) : ∀ (w : WrittenValue) {hint hint' : Option MemberKind}
    {v : AnnotationValue}, (∀ e ∈ MemberKind.enumsOf hint, s.model.Knows e) →
    hint'.map (·.via id) = hint.map (·.via id) → (x.valueOf member hint w).Yields s v s → x.ReadsAs s.model hint' w v
  | .bool b, hint, hint', v, _, _, h | .char b, hint, hint', v, _, _, h | .long b, hint, hint', v, _, _, h => by
      rw [valueOf] at h
      rw [ReadsAs]
      exact (Assemble.yields_pure.mp h).1.symm
  | .int n, hint, hint', v, _, hvia, h => by
      rw [valueOf] at h
      rw [ReadsAs, ← AnnotationValue.ofInteger_via (f := id), hvia, AnnotationValue.ofInteger_via]
      exact (Assemble.yields_pure.mp h).1.symm
  | .float y, hint, hint', v, _, hvia, h => by
      rw [valueOf] at h
      rw [ReadsAs, ← AnnotationValue.ofFloat_via (f := id), hvia, AnnotationValue.ofFloat_via]
      exact (Assemble.yields_pure.mp h).1.symm
  | .string str, hint, hint', v, _, hvia, h => by
      rw [valueOf] at h
      rw [ReadsAs, ← AnnotationValue.ofString_via_id, hvia, AnnotationValue.ofString_via_id]
      split at h
      · rename_i w hw
        rw [hw, (Assemble.yields_pure.mp h).1]
      · exact absurd h Assemble.yields_throw
  | .array items, hint, hint', v, hknows, hvia, h => by
      rw [valueOf] at h
      obtain ⟨vs, hvs, rfl⟩ := Assemble.yields_map.mp h
      have hitems : (hint'.map (·.itemKind)).map (·.via id) = (hint.map (·.itemKind)).map (·.via id) := by
        have := congrArg (Option.map MemberKind.itemKind) hvia
        simpa [Function.comp_def] using this
      rw [ReadsAs]
      exact ⟨vs, readsEachAs_of_itemsOf hs member items (MemberKind.enumsOf_itemKind hint ▸ hknows) hitems hvs, rfl⟩
  | .classLiteral w, hint, hint', v, _, _, h => by
      rw [valueOf] at h
      obtain ⟨t, ht, rfl⟩ := Assemble.yields_map.mp h
      rw [ReadsAs]
      exact ⟨t, denotes_of_typeOf hs.sound hs.known _ w ht, rfl⟩
  | .enumConstant type constant, hint, hint', v, _, _, h => by
      simp only [valueOf, Assemble.yields_bind, Assemble.yields_pure] at h
      obtain ⟨c, _, hc, rfl, rfl⟩ := h
      rw [ReadsAs]
      exact ⟨c, found_of_classOf hs.sound hc, rfl⟩
  | .nested type values, hint, hint', v, _, _, h => by
      obtain ⟨u, hu, rfl⟩ := yields_nested.mp h
      obtain ⟨given, hname, hgiven, hkeeps⟩ := hs.readsUse_of_values (readsIn_of_valuesOf hs values) hu
      rw [ReadsAs]
      exact ⟨u, given, hname, hgiven, hkeeps, rfl⟩

theorem readsEachAs_of_itemsOf (hs : x.Finished s) (member : String) : ∀ (ws : List WrittenValue)
    {hint hint' : Option MemberKind} {vs : List AnnotationValue}, (∀ e ∈ MemberKind.enumsOf hint, s.model.Knows e) →
    hint'.map (·.via id) = hint.map (·.via id) → (x.itemsOf member hint ws).Yields s vs s →
      x.ReadsEachAs s.model hint' ws vs
  | [], hint, hint', vs, _, _, h => by
      rw [itemsOf] at h
      rw [ReadsEachAs]
      exact (Assemble.yields_pure.mp h).1.symm
  | w :: ws, hint, hint', vs, hknows, hvia, h => by
      obtain ⟨v, us, hv, hus, rfl⟩ := settled_itemsOf_cons hs.sound hs.known hknows h
      rw [ReadsEachAs]
      exact ⟨v, us, readsAs_of_valueOf hs member w hknows hvia hv,
        readsEachAs_of_itemsOf hs member ws hknows hvia hus, rfl⟩

theorem readsIn_of_valuesOf (hs : x.Finished s) : ∀ (ws : List (String × WrittenValue))
    {shape shape' : Option AnnotationShape} {vs : List (String × AnnotationValue)}, KnownShape s.model shape →
    Option.Rel AnnotationShape.Precedes shape shape' → (x.valuesOf shape ws).Yields s vs s →
      x.ReadsIn s.model shape' ws vs
  | [], shape, shape', vs, _, _, h => by
      rw [valuesOf] at h
      rw [ReadsIn]
      exact (Assemble.yields_pure.mp h).1.symm
  | (name, w) :: ws, shape, shape', vs, hknown, hprecedes, h => by
      obtain ⟨v, us, hv, hus, rfl⟩ := settled_valuesOf_cons hs.sound hs.known hknown h
      rw [ReadsIn]
      exact ⟨v, us, readsAs_of_valueOf hs name w (hknown.hint name) (hint_eq_of_precedes hprecedes name) hv,
        readsIn_of_valuesOf hs ws hknown hprecedes hus, rfl⟩

end

theorem readsUse_of_useOf (hs : x.Finished s) {a : WrittenAnnotation} {u : AnnotationUse}
    (h : (x.useOf a).Yields s u s) : x.ReadsUse s.model a u :=
  hs.readsUse_of_values (readsIn_of_valuesOf hs a.values) h

end Context

/-! ## Built models -/

namespace Declarations

variable {d : Declarations} {policy : UnresolvedPolicy} {x : Context} {s : Assembly} {ps : List Placed}

/-- What names mean in a model that was built: the dotted name of a declared type means its class, and of two types
under one name the later one. -/
def contextIn (d : Declarations) (policy : UnresolvedPolicy) (m : Model) : Context :=
  ⟨policy, (d.elements.zip m.definedIds).foldl (fun names e ↦ names.insert e.1.dottedName e.2) {}⟩

theorem Assembled.contextIn_eq (h : d.Assembled x s ps) : d.contextIn x.policy s.model = x := by
  have hfold : ∀ {es : List TypeElement} {qs : List Placed}, List.Forall₂ s.model.IsPlace es qs →
      ∀ names : Table ClassId, (es.zip (qs.map (·.id))).foldl (fun names e ↦ names.insert e.1.dottedName e.2) names =
        qs.foldl (fun names q ↦ names.insert q.scope.owner q.id) names := by
    intro es qs hplaces
    induction hplaces with
    | nil => exact fun _ ↦ rfl
    | @cons e q es qs he _ ih =>
        intro names
        rw [List.map_cons, List.zip_cons_cons, List.foldl_cons, List.foldl_cons, ih]
        simp only [TypeElement.dottedName, he.scope]
  obtain ⟨policy, declared⟩ := x
  obtain rfl := h.declared
  rw [contextIn, h.definedIds_eq, hfold h.places, Placed.table]

theorem Stages.finished {s₀ s₁ s₂ : Assembly} (h : d.Stages policy ps s₀ s₁ s₂ s) :
    (⟨policy, Placed.table ps⟩ : Context).Finished s where
  sound := h.assembled.sound
  known := h.assembled.knownTo
  precedes _ _ hc := h.assembled.precedes h.early hc

/-- A class bears what was written for its type. -/
theorem Assembled.bears_read (h : d.Assembled x s ps) (hs : x.Finished s) {p : Placed} (hp : p ∈ ps) :
    p.type.Bears (x.ReadsUse s.model) (fun m w v ↦ x.ReadsAs s.model (m.returnType.bind s.model.memberHint) w v)
      (s.model.entry p.id) := by
  refine (h.bears hp).imp (fun a u hu ↦ ?_) fun m hm w v hv ↦ ?_
  · exact Context.readsUse_of_useOf hs (hu.settled h.sound)
  · exact Context.readsAs_of_valueOf hs m.name w (h.sound.wellFormed.knows_of_memberHint hm) rfl (hv.settled h.sound)

/-- The annotations of a built model are where they were written, in the order in which they were written, and so are
the defaults. Each stands for what was written. -/
theorem annotated_of_build {m : Model} {classes : List ClassId} (h : d.build policy = .ok (m, classes)) :
    List.Forall₂ (fun e c ↦ m.Carries e c ∧ e.type.Bears ((d.contextIn policy m).ReadsUse m)
      (fun n w v ↦ (d.contextIn policy m).ReadsAs m (n.returnType.bind m.memberHint) w v) (m.entry c))
      d.elements m.definedIds := by
  obtain ⟨ps, s, s₁, s₂, t, hstages, rfl, -⟩ := stages_of_build h
  have hassembled := hstages.assembled
  have hcontext : d.contextIn policy t.model = ⟨policy, Placed.table ps⟩ := hassembled.contextIn_eq
  rw [hassembled.definedIds_eq, List.forall₂_map_right_iff, hcontext]
  refine List.forall₂_iff_zip.mpr ⟨hassembled.places.length_eq, fun {e p} hmem ↦ ?_⟩
  have hplace := List.forall₂_zip hassembled.places hmem
  have hbears := hassembled.bears_read hstages.finished (List.of_mem_zip hmem).2
  rw [hplace.type] at hbears
  exact ⟨hassembled.carries (List.of_mem_zip hmem).1 hplace.stands, hbears⟩

/-- An annotation type with defaults, and a class with annotations on a field, on two methods of one name, on a
constructor and on a parameter for any number of values. -/
def labels : Declarations where
  packages :=
    [{ name := "p"
       types :=
        [{ name := "Label", kind := .supported .annotationType
           methods :=
            [{ name := "text", returnType := some (.declared "java.lang.String" [])
               defaultValue := some (.string "") },
             { name := "sizes", returnType := some (.array (.primitive "long")) }] },
         { name := "Board", kind := .supported .plain
           annotations := [⟨"p.Label", [("text", .string "board")]⟩]
           fields :=
            [{ name := "top", type := .primitive "int", annotations := [⟨"p.Label", [("sizes", .array [.int 1])]⟩] }]
           methods :=
            [{ isConstructor := true, annotations := [⟨"p.Label", [("text", .string "")]⟩] },
             { name := "pin", params := [{ name := "n", type := .primitive "int" }] },
             { name := "pin", hasVarargs := true, annotations := [⟨"java.lang.Deprecated", []⟩]
               params :=
                [{ name := "others", type := .array (.declared "p.Board" [])
                   annotations := [⟨"p.Label", [("sizes", .int 2), ("text", .string "all")]⟩] }] }] }] }]

theorem annotated_of_build_labels :
    ∃ m classes, labels.build .fail = .ok (m, classes) ∧
      List.Forall₂ (fun e c ↦ m.Carries e c ∧ e.type.Bears ((labels.contextIn .fail m).ReadsUse m)
        (fun n w v ↦ (labels.contextIn .fail m).ReadsAs m (n.returnType.bind m.memberHint) w v) (m.entry c))
        labels.elements m.definedIds := by
  have hok : (labels.build .fail).isOk = true := by decide +kernel
  obtain ⟨m, classes, h⟩ := exists_build_eq_ok hok
  exact ⟨m, classes, h, annotated_of_build h⟩

end Declarations
end JavaSource
