import JavaSource.Proofs.Annotation.MemberGraph
import JavaSource.Proofs.Declaration.Landing

/-!
# Plain values in defaults and in uses

A plain number or string says less than a value of an annotation does. What is written as a default is read by the
type of the member, what is written in a use by the kind that the shape has for the member. Both say the same about
plain values, unless an enum has type arguments or goes by a name that is a kind of its own. So a use that repeats a
default gets the value of the default, and only a NaN is not equal to itself.
-/

namespace JavaSource

/-! ## What a kind says about plain values -/

namespace MemberKind

/-- What a kind says about how plain values are read. Most kinds say nothing, and an array says what its items do. -/
def reading? : MemberKind → Option MemberKind
  | .array k => k.reading?.map .array
  | .bool | .int | .string | .classLiteral | .nested _ _ _ => none
  | k => some k

theorem map_itemKind_reading? (hint : Option MemberKind) :
    (hint.bind reading?).map itemKind = (hint.map itemKind).bind reading? := by
  cases hint with
  | none => rfl
  | some k =>
      cases k with
      | array k => simp [reading?, itemKind, Function.comp_def]
      | _ => rfl

/-- What treats kinds that say nothing, and arrays, like no kind at all does not need more than what is said. -/
theorem congr_reading? {α : Type} {g : Option MemberKind → α} (harray : ∀ k : MemberKind, g (some k.array) = g none)
    (hnone : ∀ k : MemberKind, k.reading? = none → g (some k) = g none) (hint : Option MemberKind) :
    g (hint.bind reading?) = g hint := by
  cases hint with
  | none => rfl
  | some k =>
      cases k with
      | array k =>
          rw [harray, Option.bind_some, reading?]
          cases k.reading? with
          | none => rfl
          | some k => exact harray k
      | bool | int | string | classLiteral | nested => exact (hnone _ rfl).symm
      | long | float | double | char | enum => rfl

end MemberKind

namespace AnnotationValue

theorem ofInteger_reading? (hint : Option MemberKind) (n : Int64) :
    ofInteger (hint.bind MemberKind.reading?) n = ofInteger hint n := by
  refine MemberKind.congr_reading? (g := (ofInteger · n)) (fun _ ↦ rfl) (fun k hk ↦ ?_) hint
  cases k <;> first | rfl | cases hk

theorem ofFloat_reading? (hint : Option MemberKind) (y : Ieee.Datum Ieee.double) :
    ofFloat (hint.bind MemberKind.reading?) y = ofFloat hint y := by
  refine MemberKind.congr_reading? (g := (ofFloat · y)) (fun _ ↦ rfl) (fun k hk ↦ ?_) hint
  cases k <;> first | rfl | cases hk

theorem ofString_reading? (hint : Option MemberKind) (s : String) :
    ofString (hint.bind MemberKind.reading?) s = ofString hint s := by
  refine MemberKind.congr_reading? (g := (ofString · s)) (fun _ ↦ rfl) (fun k hk ↦ ?_) hint
  cases k <;> first | rfl | cases hk

end AnnotationValue

namespace Context

variable (x : Context) (member : String)

mutual

/-- A value is read by what the kind says, and no other part of the kind matters. -/
theorem valueOf_reading? : ∀ (w : WrittenValue) (hint : Option MemberKind),
    x.valueOf member (hint.bind MemberKind.reading?) w = x.valueOf member hint w
  | .int n, hint => by rw [valueOf, valueOf, AnnotationValue.ofInteger_reading?]
  | .float y, hint => by rw [valueOf, valueOf, AnnotationValue.ofFloat_reading?]
  | .string s, hint => by rw [valueOf, valueOf, AnnotationValue.ofString_reading?]
  | .array items, hint => by
      rw [valueOf, valueOf, MemberKind.map_itemKind_reading?, itemsOf_reading? items]
  | .bool _, _ | .char _, _ | .long _, _ | .classLiteral _, _ | .enumConstant _ _, _ | .nested _ _, _ => by
      rw [valueOf, valueOf]

theorem itemsOf_reading? : ∀ (ws : List WrittenValue) (hint : Option MemberKind),
    x.itemsOf member (hint.bind MemberKind.reading?) ws = x.itemsOf member hint ws
  | [], _ => by rw [itemsOf, itemsOf]
  | w :: ws, hint => by rw [itemsOf, itemsOf, valueOf_reading? w, itemsOf_reading? ws]

end

end Context

/-! ## What a type says about plain values -/

namespace Model

/-- An enum stands in the type, alone or in arrays, with type arguments or under a name that settles the kind of
members. -/
def HidesEnum (m : Model) (t : JavaType) : Prop :=
  ∃ c, t.innermost.1.classId? = some c ∧ (m.entry c).kind = .enum ∧ (t.innermost.1 ≠ .reference c ∨ m.IsNamedKind c)

variable {m : Model} {shape : ClassId → Except ModelError AnnotationShape}

theorem memberHint_of_ne_enum {t : JavaType} {c : ClassId} (ht : t.classId? = some c) (hc : (m.entry c).kind ≠ .enum) :
    m.memberHint t = none := by
  cases t with
  | reference d =>
      obtain rfl := Option.some.inj ht
      exact if_neg hc
  | narrowed => rfl
  | _ => cases ht

theorem reading?_of_ne_enum {t : JavaType} {c : ClassId} (ht : t.classId? = some c) (hc : (m.entry c).kind ≠ .enum)
    {k : MemberKind} (hk : m.memberKindWith shape t = .ok k) : k.reading? = none := by
  rw [memberKindWith_of_classId? ht] at hk
  by_cases hstring : m.fullName c = "java.lang.String"
  · rw [if_pos hstring] at hk
    cases hk
    rfl
  by_cases hclass : m.fullName c = "java.lang.Class"
  · rw [if_neg hstring, if_pos hclass] at hk
    cases hk
    rfl
  rw [if_neg hstring, if_neg hclass] at hk
  cases hkind : (m.entry c).kind with
  | enum => exact absurd hkind hc
  | annotationType =>
      cases hshape : shape c with
      | ok s =>
          simp only [hkind, hshape] at hk
          cases hk
          rfl
      | error fault => simp [hkind, hshape] at hk
  | plain | interface => simp [hkind] at hk

/-- The type of a member says about plain values what the kind of the member does. -/
theorem memberHint_eq_reading? {t : JavaType} {k : MemberKind} (hk : m.memberKindWith shape t = .ok k)
    (ht : ¬ m.HidesEnum t) : m.memberHint t = k.reading? := by
  cases t with
  | primitive p => cases p <;> cases hk <;> rfl
  | array t =>
      rw [memberKindWith] at hk
      cases hitem : m.memberKindWith shape t with
      | error fault => simp [hitem, Except.map] at hk
      | ok item =>
          obtain rfl : item.array = k := by simpa [hitem, Except.map] using hk
          rw [memberHint, memberHint_eq_reading? hitem ht, MemberKind.reading?]
  | reference c =>
      by_cases hc : (m.entry c).kind = .enum
      · have hname : ¬ m.IsNamedKind c := fun hname ↦ ht ⟨c, rfl, hc, Or.inr hname⟩
        obtain ⟨hstring, hclass⟩ := not_or.mp hname
        rw [memberKindWith_of_classId? rfl, if_neg hstring, if_neg hclass, hc] at hk
        cases hk
        exact if_pos hc
      · rw [memberHint_of_ne_enum rfl hc, reading?_of_ne_enum rfl hc hk]
  | narrowed c args =>
      have hc : (m.entry c).kind ≠ .enum := fun hc ↦ ht ⟨c, rfl, hc, Or.inl JavaType.noConfusion⟩
      rw [memberHint_of_ne_enum rfl hc, reading?_of_ne_enum rfl hc hk]
  | var | wildcard | wildcardExtends | wildcardSuper | anonymous => cases hk

end Model

/-! ## Values that are equal to themselves -/

namespace WrittenValue

mutual

/-- Whether a NaN is written in a value. -/
def hasNaN : WrittenValue → Bool
  | .float y => y.isNaN
  | .array items => hasNaNEach items
  | .nested _ values => hasNaNIn values
  | _ => false

def hasNaNIn : List (String × WrittenValue) → Bool
  | [] => false
  | (_, v) :: rest => hasNaN v || hasNaNIn rest

def hasNaNEach : List WrittenValue → Bool
  | [] => false
  | v :: vs => hasNaN v || hasNaNEach vs

end

end WrittenValue

namespace AnnotationValue

theorem sameItems_self {items : List AnnotationValue} (h : ∀ v ∈ items, v.same v) : sameItems items items := by
  induction items with
  | nil => rfl
  | cons v items ih =>
      obtain ⟨hv, hrest⟩ := List.forall_mem_cons.mp h
      rw [sameItems, hv, ih hrest]
      rfl

theorem sameMembers_of_find {xs ys : List (String × AnnotationValue)}
    (h : ∀ p ∈ xs, ∃ v, Table.find p.1 ys = some v ∧ p.2.same v) : sameMembers xs ys := by
  induction xs with
  | nil => rfl
  | cons p xs ih =>
      obtain ⟨⟨v, hfind, hv⟩, hrest⟩ := List.forall_mem_cons.mp h
      rw [sameMembers, hfind, ih hrest, Bool.and_true]
      exact hv

/-- A use is equal to itself when its values are, since no name is in it twice. -/
theorem same_use_self {u : AnnotationUse} (hkeys : u.members.keys.Nodup)
    (h : ∀ p ∈ u.members.entries, p.2.same p.2) : (use u).same (use u) := by
  have hmembers : sameMembers u.members.entries u.members.entries :=
    sameMembers_of_find fun p hp ↦ ⟨p.2, Table.get?_of_mem_entries hkeys hp, h p hp⟩
  rw [use, same, hmembers]
  simp

theorem same_ofInteger (hint : Option MemberKind) (n : Int64) : (ofInteger hint n).same (ofInteger hint n) := by
  unfold ofInteger
  split
  · simp [same]
  · exact Ieee.Datum.sameNumber_self (Ieee.Datum.isNaN_ofInt _)
  · exact Ieee.Datum.sameNumber_self (Ieee.Datum.isNaN_ofInt _)
  · split <;> simp [same]

theorem same_ofFloat (hint : Option MemberKind) {y : Ieee.Datum Ieee.double} (h : y.isNaN = false) :
    (ofFloat hint y).same (ofFloat hint y) := by
  unfold ofFloat
  split
  · exact Ieee.Datum.sameNumber_self (Ieee.Datum.isNaN_convert h)
  · exact Ieee.Datum.sameNumber_self h

theorem same_of_ofString {hint : Option MemberKind} {s : String} {v : AnnotationValue}
    (h : ofString hint s = .ok v) : v.same v := by
  unfold ofString at h
  split at h
  · split at h
    · cases h
      simp [same]
    · cases h
  · cases h
    simp [same]
  · cases h
    simp [same]

end AnnotationValue

theorem AnnotationUse.same_of_ofValues {c : ClassId} {shape : Option AnnotationShape}
    {values : List (String × AnnotationValue)} {u : AnnotationUse} (hvalues : ∀ p ∈ values, p.2.same p.2)
    (h : ofValues c shape values = .ok u) : (AnnotationValue.use u).same (.use u) := by
  let P (w : AnnotationUse) : Prop := w.members.keys.Nodup ∧ ∀ p ∈ w.members.entries, p.2.same p.2
  have hu : P u := by
    refine ofValues_induction ⟨List.nodup_nil, fun p hp ↦ absurd hp List.not_mem_nil⟩ (fun p hp w hw ↦ ?_) h
    refine ⟨Table.nodup_keys_insert hw.1, fun q hq ↦ ?_⟩
    rcases Table.mem_entries_insert hq with hq | rfl
    · exact hw.2 q hq
    · exact hvalues p hp
  exact AnnotationValue.same_use_self hu.1 hu.2

namespace Context

open Model

variable {x : Context}

mutual

/-- A value that is read is equal to itself, unless a NaN is written. -/
theorem same_of_valueOf (member : String) : ∀ (w : WrittenValue) {hint : Option MemberKind} {v : AnnotationValue}
    {s t : Assembly}, w.hasNaN = false → (x.valueOf member hint w).Yields s v t → v.same v
  | .bool _, hint, v, s, t, _, h | .char _, hint, v, s, t, _, h | .long _, hint, v, s, t, _, h => by
      rw [valueOf] at h
      obtain ⟨rfl, -⟩ := Assemble.yields_pure.mp h
      simp [AnnotationValue.same]
  | .int n, hint, v, s, t, _, h => by
      rw [valueOf] at h
      obtain ⟨rfl, -⟩ := Assemble.yields_pure.mp h
      exact AnnotationValue.same_ofInteger hint n
  | .float y, hint, v, s, t, hw, h => by
      rw [valueOf] at h
      obtain ⟨rfl, -⟩ := Assemble.yields_pure.mp h
      exact AnnotationValue.same_ofFloat hint hw
  | .string str, hint, v, s, t, _, h => by
      rw [valueOf] at h
      split at h
      · rename_i v' hv'
        obtain ⟨rfl, -⟩ := Assemble.yields_pure.mp h
        exact AnnotationValue.same_of_ofString hv'
      · exact absurd h Assemble.yields_throw
  | .array items, hint, v, s, t, hw, h => by
      rw [valueOf] at h
      obtain ⟨vs, hvs, rfl⟩ := Assemble.yields_map.mp h
      rw [AnnotationValue.same]
      exact AnnotationValue.sameItems_self (same_of_itemsOf member items hw hvs)
  | .classLiteral w, hint, v, s, t, _, h => by
      rw [valueOf] at h
      obtain ⟨u, -, rfl⟩ := Assemble.yields_map.mp h
      simp [AnnotationValue.same]
  | .enumConstant type constant, hint, v, s, t, _, h => by
      simp only [valueOf, Assemble.yields_bind, Assemble.yields_pure] at h
      obtain ⟨c, _, -, rfl, -⟩ := h
      simp [AnnotationValue.same]
  | .nested type values, hint, v, s, t, hw, h => by
      obtain ⟨u, hu, rfl⟩ := yields_nested.mp h
      simp only [useOf, Assemble.yields_bind, Assemble.yields_ofExcept] at hu
      obtain ⟨c, _, -, shape, _, -, vs, _, hvs, hu, -⟩ := hu
      exact AnnotationUse.same_of_ofValues (same_of_valuesOf values hw hvs) hu

theorem same_of_itemsOf (member : String) : ∀ (ws : List WrittenValue) {hint : Option MemberKind}
    {vs : List AnnotationValue} {s t : Assembly}, WrittenValue.hasNaNEach ws = false →
    (x.itemsOf member hint ws).Yields s vs t → ∀ v ∈ vs, v.same v
  | [], hint, vs, s, t, _, h => by
      rw [itemsOf] at h
      obtain ⟨rfl, -⟩ := Assemble.yields_pure.mp h
      exact List.forall_mem_nil _
  | w :: ws, hint, vs, s, t, hw, h => by
      obtain ⟨hw, hws⟩ := Bool.or_eq_false_iff.mp hw
      rw [itemsOf] at h
      split at h
      · obtain ⟨_, _, h, -⟩ := Assemble.yields_bind.mp h
        exact absurd h Assemble.yields_throw
      · simp only [Assemble.yields_bind, Assemble.yields_pure] at h
        obtain ⟨v, k, hv, us, _, hus, rfl, -⟩ := h
        exact List.forall_mem_cons.mpr ⟨same_of_valueOf member w hw hv, same_of_itemsOf member ws hws hus⟩

theorem same_of_valuesOf : ∀ (ws : List (String × WrittenValue)) {shape : Option AnnotationShape}
    {vs : List (String × AnnotationValue)} {s t : Assembly}, WrittenValue.hasNaNIn ws = false →
    (x.valuesOf shape ws).Yields s vs t → ∀ p ∈ vs, p.2.same p.2
  | [], shape, vs, s, t, _, h => by
      rw [valuesOf] at h
      obtain ⟨rfl, -⟩ := Assemble.yields_pure.mp h
      exact List.forall_mem_nil _
  | (name, w) :: ws, shape, vs, s, t, hw, h => by
      obtain ⟨hw, hws⟩ := Bool.or_eq_false_iff.mp hw
      simp only [valuesOf, Assemble.yields_bind, Assemble.yields_pure] at h
      obtain ⟨v, k, hv, us, _, hus, rfl, -⟩ := h
      exact List.forall_mem_cons.mpr ⟨same_of_valueOf name w hw hv, same_of_valuesOf ws hws hus⟩

end

example : (AnnotationValue.ofFloat none .nan).same (AnnotationValue.ofFloat none .nan) = false := by decide +kernel

/-! ## Defaults and uses -/

/-- Reading a value by the type of a member is the same step as reading it by the kind of the member: it gives the
same value or the same error, and adds the same to the model. So what is written as a default and again in a use,
before the default is set or from then on, gets one value, and the two are equal unless a NaN is written. -/
theorem default_and_use_agree {m : Model} {shape : ClassId → Except ModelError AnnotationShape} {r : JavaType}
    {k : MemberKind} (hk : m.memberKindWith shape r = .ok k) (hr : ¬ m.HidesEnum r) :
    (∀ (x : Context) (member : String) (w : WrittenValue),
      x.valueOf member (m.memberHint r) w = x.valueOf member (some k) w) ∧
    ∀ (x : Context) (s t : Assembly) (d : DeferredDefault) (n : Method), s.Ready x d.id →
      (s.model.entry d.id).methods[d.method]? = some n → n.returnType = some r →
      (∀ c ∈ r.classes, (s.model.entry c).kind = (m.entry c).kind) → (x.setDefault d).Yields s ⟨⟩ t →
      ∃ v, (t.model.entry d.id).defaultAt? d.method = some (some v) ∧
        (∀ v', s.Finds (x.valueOf n.name (some k) d.value) v' → v' = v) ∧
        t.Finds (x.valueOf n.name (some k) d.value) v ∧ (d.value.hasNaN = false → v.same v) := by
  have halike (x : Context) (member : String) (w : WrittenValue) :
      x.valueOf member (m.memberHint r) w = x.valueOf member (some k) w := by
    rw [Model.memberHint_eq_reading? hk hr]
    exact x.valueOf_reading? member w (some k)
  refine ⟨halike, fun x s t d n hs hn hreturn hkinds hset ↦ ?_⟩
  have hmethod : d.method < (s.model.entry d.id).methods.length := (List.getElem?_eq_some_iff.mp hn).1
  obtain ⟨v, hchanges, n', hn', -, hfinds⟩ := changes_setDefault hs rfl hmethod hset
  obtain rfl : n' = n := Option.some.inj (hn'.symm.trans hn)
  have hlater := hchanges.worked.later
  -- the state reads the default by the kinds that its own model has for the classes of the type
  have hhint : t.model.memberHint r = m.memberHint r := by
    have hknown : ∀ c ∈ r.classes, s.model.Knows c := fun c hc ↦
      hs.sound.wellFormed.knows_of_returnType (List.mem_of_getElem? hn) hreturn hc
    rw [hlater.grown.memberHint_eq r hknown, Model.memberHint_congr hkinds]
  rw [hreturn, Option.bind_some, hhint, halike] at hfinds
  have hsettled := hfinds.settled hchanges.sound
  refine ⟨v, ?_, fun v' hv' ↦ ?_, hfinds, fun hw ↦ same_of_valueOf n'.name d.value hw hsettled⟩
  · rw [hchanges.entry_eq, ClassEntry.defaultAt?_withDefault, ClassEntry.defaultAt?, hn]
    simp
  · have hsame := ((hv'.later hlater).settled hchanges.sound).symm.trans hsettled
    cases hsame
    rfl

/-- An enum, and an annotation type with a member for several of its constants. -/
def sizedShelf : List Operation :=
  [.define (.package rootPackage) .none "Size" .enum, .define (.package rootPackage) .none "Shelf" .annotationType,
    .member ⟨2⟩ (.method .none (.array (.reference ⟨1⟩)) "sizes")]

/-- Two constants as the default of that member. -/
def shelfDefault : DeferredDefault := ⟨⟨2⟩, 0, .array [.string "SMALL", .string "LARGE"]⟩

theorem default_and_use_agree_shelf :
    (∀ (x : Context) (w : WrittenValue),
      x.valueOf "sizes" ((initial.run sizedShelf).memberHint (.array (.reference ⟨1⟩))) w =
        x.valueOf "sizes" (some (.array (.enum ⟨1⟩))) w) ∧
    ∃ t v, (setDefault ⟨.fail, {}⟩ shelfDefault).Yields ⟨initial.run sizedShelf, []⟩ ⟨⟩ t ∧
      (t.model.entry ⟨2⟩).defaultAt? 0 = some (some v) ∧
      t.Finds (valueOf ⟨.fail, {}⟩ "sizes" (some (.array (.enum ⟨1⟩))) shelfDefault.value) v ∧ v.same v := by
  have hos : initial.AdmitsAll sizedShelf := by decide +kernel
  have hdeclarative : (initial.run sizedShelf).Declarative :=
    declarative_of_forall (by decide +kernel) (by decide +kernel)
  have hready : Assembly.Ready ⟨.fail, {}⟩ ⟨2⟩ ⟨initial.run sizedShelf, []⟩ :=
    ⟨⟨.run .initial hos, hdeclarative, nofun⟩, nofun, by decide +kernel, by decide +kernel⟩
  have hstring : (initial.run sizedShelf).fullName ⟨1⟩ ≠ "java.lang.String" := by decide +kernel
  have hclass : (initial.run sizedShelf).fullName ⟨1⟩ ≠ "java.lang.Class" := by decide +kernel
  have hkind : ((initial.run sizedShelf).entry ⟨1⟩).kind = .enum := by decide +kernel
  have hk : (initial.run sizedShelf).memberKindWith (initial.run sizedShelf).shapeOf (.array (.reference ⟨1⟩)) =
      .ok (.array (.enum ⟨1⟩)) := by
    rw [memberKindWith, memberKindWith_of_classId? rfl, if_neg hstring, if_neg hclass, hkind]
    rfl
  have hr : ¬ (initial.run sizedShelf).HidesEnum (.array (.reference ⟨1⟩)) := by
    rintro ⟨c, hc, -, hne | hname⟩
    · cases hc
      exact hne rfl
    · cases hc
      exact hname.elim hstring hclass
  have hmethod : (((initial.run sizedShelf).entry ⟨2⟩).methods[0]?.map fun n ↦ (n.name, n.returnType)) =
      some ("sizes", some (.array (.reference ⟨1⟩))) := by decide +kernel
  obtain ⟨n, hn, hnr⟩ := Option.map_eq_some_iff.mp hmethod
  obtain ⟨hname, hreturn⟩ := Prod.mk.inj hnr
  obtain ⟨t, ht⟩ : ∃ t, (setDefault ⟨.fail, {}⟩ shelfDefault).Yields ⟨initial.run sizedShelf, []⟩ ⟨⟩ t := by
    have hok : ((setDefault ⟨.fail, {}⟩ shelfDefault).exec ⟨initial.run sizedShelf, []⟩).1.isOk = true := by
      decide +kernel
    obtain ⟨⟨⟩, t, ht⟩ := Assemble.exists_yields_of_isOk hok
    exact ⟨t, ht⟩
  obtain ⟨halike, hset⟩ := default_and_use_agree hk hr
  obtain ⟨v, hdefault, -, hfinds, hself⟩ :=
    hset ⟨.fail, {}⟩ _ t shelfDefault n hready hn hreturn (fun _ _ ↦ rfl) ht
  exact ⟨fun x w ↦ halike x "sizes" w, t, v, ht, hdefault, hname ▸ hfinds, hself rfl⟩

end Context
end JavaSource
