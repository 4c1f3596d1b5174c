import Mathlib.Logic.Relation
import JavaSource.Annotation.Shape
import JavaSource.Proofs.Declaration.LookValue
import JavaSource.Proofs.Model.Descent

/-!
# Annotations inside annotations

An annotation type contains those annotation types that its members have values of. It has a shape when all types
of members that can be reached in this way are legal and no annotation type can be reached from itself. That an
annotation type is met twice on different ways does no harm.
-/

namespace JavaSource

theorem Except.exists_foldlM_iff {ε α β : Type} {f : β → α → Except ε β} {P : α → Prop} {l : List α}
    (hf : ∀ x ∈ l, ∀ b, (∃ c, f b x = .ok c) ↔ P x) (b : β) : (∃ c, l.foldlM f b = .ok c) ↔ ∀ x ∈ l, P x := by
  induction l generalizing b with
  | nil => exact iff_of_true ⟨b, rfl⟩ nofun
  | cons x l ih =>
      have ih := ih fun y hy ↦ hf y (List.mem_cons_of_mem x hy)
      simp only [List.foldlM_cons, Except.bind_eq_ok, List.forall_mem_cons, ← hf x List.mem_cons_self b]
      constructor
      · rintro ⟨d, c, hc, hd⟩
        exact ⟨⟨c, hc⟩, (ih c).mp ⟨d, hd⟩⟩
      · rintro ⟨⟨c, hc⟩, hl⟩
        obtain ⟨d, hd⟩ := (ih c).mpr hl
        exact ⟨d, c, hc, hd⟩

/-- The types of the members that an annotation type declares. Constructors have none. -/
def ClassEntry.memberTypes (e : ClassEntry) : List JavaType := e.methods.filterMap (·.returnType)

namespace Model

/-- Whether the name of a class settles the kind of members of the class, whatever else it is. -/
def IsNamedKind (m : Model) (c : ClassId) : Prop := m.fullName c = "java.lang.String" ∨ m.fullName c = "java.lang.Class"

instance (m : Model) (c : ClassId) : Decidable (m.IsNamedKind c) := inferInstanceAs (Decidable (_ ∨ _))

/-- Whether members may have values of a class. -/
def IsMemberClass (m : Model) (c : ClassId) : Prop :=
  m.IsNamedKind c ∨ (m.entry c).kind = .enum ∨ (m.entry c).kind = .annotationType

/-- A type that a member of an annotation may have. -/
inductive LegalMember (m : Model) : JavaType → Prop
  | primitive {p : Primitive} : p ≠ .void → m.LegalMember (.primitive p)
  | ofClass {t : JavaType} {c : ClassId} : t.classId? = some c → m.IsMemberClass c → m.LegalMember t
  | array {t : JavaType} : m.LegalMember t → m.LegalMember (.array t)

/-- Members of the type have annotations of the class as values, perhaps in arrays. -/
def HoldsUse (m : Model) (t : JavaType) (c : ClassId) : Prop :=
  t.innermost.1.classId? = some c ∧ (m.entry c).kind = .annotationType ∧ ¬ m.IsNamedKind c

/-- An annotation of the first type has annotations of the second one as values of its members. -/
def Contains (m : Model) (a b : ClassId) : Prop := ∃ t ∈ (m.entry a).memberTypes, m.HoldsUse t b

variable {m : Model} {shape : ClassId → Except ModelError AnnotationShape}

theorem legalMember_array_iff {t : JavaType} : m.LegalMember (.array t) ↔ m.LegalMember t := by
  refine ⟨fun h ↦ ?_, .array⟩
  cases h with
  | ofClass hc => cases hc
  | array ht => exact ht

theorem legalMember_primitive_iff {p : Primitive} : m.LegalMember (.primitive p) ↔ p ≠ .void := by
  refine ⟨fun h ↦ ?_, .primitive⟩
  cases h with
  | primitive hp => exact hp
  | ofClass hc => cases hc

theorem legalMember_iff_of_classId? {t : JavaType} {c : ClassId} (ht : t.classId? = some c) :
    m.LegalMember t ↔ m.IsMemberClass c := by
  refine ⟨fun h ↦ ?_, .ofClass ht⟩
  cases h with
  | primitive | array => cases ht
  | ofClass hd hclass =>
      obtain rfl := Option.some.inj (hd.symm.trans ht)
      exact hclass

theorem innermost_of_classId? {t : JavaType} {c : ClassId} (ht : t.classId? = some c) : t.innermost.1 = t := by
  cases t <;> first | rfl | cases ht

theorem holdsUse_iff_of_classId? {t : JavaType} {c d : ClassId} (ht : t.classId? = some c) :
    m.HoldsUse t d ↔ c = d ∧ (m.entry c).kind = .annotationType ∧ ¬ m.IsNamedKind c := by
  rw [HoldsUse, innermost_of_classId? ht, ht, Option.some.injEq]
  exact ⟨fun ⟨h, hd⟩ ↦ ⟨h, h ▸ hd⟩, fun ⟨h, hc⟩ ↦ ⟨h, h ▸ hc⟩⟩

/-! ## Kinds of members -/

/-- What a member of a class holds is told by the name of the class first and by its kind otherwise. -/
theorem memberKindWith_of_classId? {t : JavaType} {c : ClassId} (ht : t.classId? = some c) :
    m.memberKindWith shape t =
      if m.fullName c = "java.lang.String" then .ok .string
      else if m.fullName c = "java.lang.Class" then .ok .classLiteral
      else
        match (m.entry c).kind with
        | .enum => .ok (.enum c)
        | .annotationType =>
          match shape c with
          | .ok s => .ok (.shape s)
          | .error fault => .error (.nested fault)
        | .plain | .interface => .error .notMemberType := by
  cases t with
  | reference | narrowed =>
      cases ht
      rfl
  | _ => cases ht

theorem exists_memberKindWith_of_classId?_iff {t : JavaType} {c : ClassId} (ht : t.classId? = some c) :
    (∃ k, m.memberKindWith shape t = .ok k) ↔
      m.LegalMember t ∧ ∀ d, m.HoldsUse t d → ∃ s, shape d = .ok s := by
  rw [memberKindWith_of_classId? ht, legalMember_iff_of_classId? ht]
  simp only [holdsUse_iff_of_classId? ht, IsMemberClass]
  by_cases hnamed : m.IsNamedKind c
  · refine iff_of_true ?_ ⟨Or.inl hnamed, fun d hd ↦ absurd hnamed hd.2.2⟩
    by_cases hstring : m.fullName c = "java.lang.String"
    · exact ⟨_, if_pos hstring⟩
    · rw [if_neg hstring, if_pos (hnamed.resolve_left hstring)]
      exact ⟨_, rfl⟩
  · obtain ⟨hstring, hclass⟩ := not_or.mp hnamed
    rw [if_neg hstring, if_neg hclass]
    cases hkind : (m.entry c).kind with
    | plain | interface => simp [hnamed]
    | enum => simp
    | annotationType =>
        cases hshape : shape c <;> simp [hnamed, hshape]

theorem not_holdsUse {t : JavaType} (h : t.innermost.1.classId? = none) (c : ClassId) :
    ¬ m.HoldsUse t c := fun hc ↦ nomatch h.symm.trans hc.1

/-- A type gives members a kind when it is legal and the annotation that it holds, if any, has a shape. -/
theorem exists_memberKindWith_iff : (t : JavaType) →
    ((∃ k, m.memberKindWith shape t = .ok k) ↔
      m.LegalMember t ∧ ∀ d, m.HoldsUse t d → ∃ s, shape d = .ok s)
  | .array t => by
    have ih := exists_memberKindWith_iff t
    rw [legalMember_array_iff, memberKindWith]
    refine Iff.trans ?_ ih
    cases m.memberKindWith shape t <;> simp [Except.map]
  | .primitive p => by
    have hnone : ∀ d, ¬ m.HoldsUse (.primitive p) d := not_holdsUse rfl
    rw [legalMember_primitive_iff]
    cases p <;> simp [memberKindWith, hnone]
  | .reference c => exists_memberKindWith_of_classId?_iff rfl
  | .narrowed c args => exists_memberKindWith_of_classId?_iff rfl
  | .var .. | .wildcard | .wildcardExtends _ | .wildcardSuper _ | .anonymous _ => by
    constructor
    · rintro ⟨_, h⟩
      cases h
    · rintro ⟨h, -⟩
      cases h with
      | ofClass hc => cases hc

/-! ## Which annotation types have a shape -/

variable {n : Nat} {inside : List ClassId} {a b : ClassId}

/-- What one method adds to the shape of an annotation type. -/
def addMember (m : Model) (shape : ClassId → Except ModelError AnnotationShape) (s : AnnotationShape)
    (method : Method) : Except ModelError AnnotationShape :=
  match method.returnType with
  | none => .ok s
  | some t =>
    match m.memberKindWith shape t with
    | .ok kind => .ok (s.declare method.name kind method.defaultValue)
    | .error fault => .error (memberFault method.name s.name fault)

theorem shapeWithin_succ (hkind : (m.entry a).kind = .annotationType) (ha : a ∉ inside) :
    m.shapeWithin (n + 1) inside a =
      (m.entry a).methods.foldlM (m.addMember (m.shapeWithin n (a :: inside))) (AnnotationShape.empty m a) := by
  rw [shapeWithin]
  simp only [hkind, ne_eq, not_true_eq_false, if_false, ha]
  rfl

theorem exists_addMember_iff (s : AnnotationShape) (method : Method) :
    (∃ s', m.addMember shape s method = .ok s') ↔
      ∀ t, method.returnType = some t → ∃ k, m.memberKindWith shape t = .ok k := by
  cases ht : method.returnType with
  | none => simp [addMember, ht]
  | some t => cases hk : m.memberKindWith shape t <;> simp [addMember, ht, hk]

theorem mem_memberTypes {e : ClassEntry} {t : JavaType} :
    t ∈ e.memberTypes ↔ ∃ method ∈ e.methods, method.returnType = some t :=
  List.mem_filterMap

theorem exists_shapeWithin_succ_iff :
    (∃ s, m.shapeWithin (n + 1) inside a = .ok s) ↔
      (m.entry a).kind = .annotationType ∧ a ∉ inside ∧ (∀ t ∈ (m.entry a).memberTypes, m.LegalMember t) ∧
        ∀ b, m.Contains a b → ∃ s, m.shapeWithin n (a :: inside) b = .ok s := by
  by_cases hkind : (m.entry a).kind = .annotationType
  · by_cases ha : a ∈ inside
    · simp [shapeWithin, hkind, ha]
    · rw [shapeWithin_succ hkind ha, Except.exists_foldlM_iff fun method _ s ↦ exists_addMember_iff s method]
      simp only [hkind, ha, not_false_eq_true, true_and, exists_memberKindWith_iff, mem_memberTypes, Contains]
      constructor
      · intro h
        constructor
        · rintro t ⟨method, hmethod, ht⟩
          exact (h method hmethod t ht).1
        · rintro b ⟨t, ⟨method, hmethod, ht⟩, hb⟩
          exact (h method hmethod t ht).2 b hb
      · rintro ⟨hlegal, hcontained⟩ method hmethod t ht
        exact ⟨hlegal t ⟨method, hmethod, ht⟩, fun b hb ↦ hcontained b ⟨t, ⟨method, hmethod, ht⟩, hb⟩⟩
  · simp [shapeWithin, hkind]

/-- Where the search for a shape succeeds, it succeeds for what is directly inside, with the annotation type in view. -/
theorem exists_shapeWithin_of_contains (ha : ∃ s, m.shapeWithin n inside a = .ok s) (hab : m.Contains a b) :
    ∃ k, ∃ s, m.shapeWithin k (a :: inside) b = .ok s := by
  cases n with
  | zero =>
      obtain ⟨s, hs⟩ := ha
      cases hs
  | succ n =>
      obtain ⟨-, -, -, hcontained⟩ := exists_shapeWithin_succ_iff.mp ha
      exact ⟨n, hcontained b hab⟩

theorem exists_shapeWithin_of_reflTransGen (ha : ∃ s, m.shapeWithin n inside a = .ok s)
    (hab : Relation.ReflTransGen m.Contains a b) :
    ∃ k path, inside ⊆ path ∧ ∃ s, m.shapeWithin k path b = .ok s := by
  induction hab with
  | refl => exact ⟨n, inside, List.Subset.refl _, ha⟩
  | @tail b c _ hbc ih =>
      obtain ⟨k, path, hsubset, hb⟩ := ih
      obtain ⟨l, hc⟩ := exists_shapeWithin_of_contains hb hbc
      exact ⟨l, b :: path, List.subset_cons_of_subset b hsubset, hc⟩

/-- What is needed of all annotation types that can be reached from one. -/
def IsDerivable (m : Model) (a : ClassId) : Prop :=
  ∀ b, Relation.ReflTransGen m.Contains a b →
    (∀ t ∈ (m.entry b).memberTypes, m.LegalMember t) ∧ ¬ Relation.TransGen m.Contains b b

theorem isDerivable_of_exists_shapeWithin (ha : ∃ s, m.shapeWithin n inside a = .ok s) : m.IsDerivable a := by
  intro b hab
  obtain ⟨k, path, -, hb⟩ := exists_shapeWithin_of_reflTransGen ha hab
  cases k with
  | zero =>
      obtain ⟨s, hs⟩ := hb
      cases hs
  | succ k =>
      refine ⟨(exists_shapeWithin_succ_iff.mp hb).2.2.1, fun hloop ↦ ?_⟩
      -- On the way back to `b` it is in view all the time, so it would not be entered again.
      obtain ⟨c, hbc, hcb⟩ := Relation.TransGen.head'_iff.mp hloop
      obtain ⟨l, hc⟩ := exists_shapeWithin_of_contains hb hbc
      obtain ⟨j, path', hsubset, hb'⟩ := exists_shapeWithin_of_reflTransGen hc hcb
      have hmem : b ∈ path' := hsubset List.mem_cons_self
      cases j with
      | zero =>
          obtain ⟨s, hs⟩ := hb'
          cases hs
      | succ j => exact (exists_shapeWithin_succ_iff.mp hb').2.1 hmem

theorem mem_classes_of_innermost {c : ClassId} : (t : JavaType) → t.innermost.1.classId? = some c → c ∈ t.classes
  | .array t, h => mem_classes_of_innermost t h
  | .reference _, rfl | .narrowed _ _, rfl => List.mem_cons_self

/-- The classes that stand in the types of members are known. -/
theorem WellFormed.knows_of_memberType (hm : m.WellFormed) {t : JavaType} (ht : t ∈ (m.entry a).memberTypes)
    {c : ClassId} (hc : t.innermost.1.classId? = some c) : m.Knows c := by
  obtain ⟨method, hmethod, ht⟩ := mem_memberTypes.mp ht
  exact hm.knows_of_returnType hmethod ht (mem_classes_of_innermost t hc)

theorem WellFormed.knows_of_contains (hm : m.WellFormed) (h : m.Contains a b) : m.Knows b := by
  obtain ⟨t, ht, hb, -⟩ := h
  exact hm.knows_of_memberType ht hb

theorem Contains.kind (h : m.Contains a b) : (m.entry b).kind = .annotationType := by
  obtain ⟨t, -, -, hkind, -⟩ := h
  exact hkind

theorem IsDerivable.of_contains (ha : m.IsDerivable a) (h : m.Contains a b) : m.IsDerivable b :=
  fun c hbc ↦ ha c (hbc.head h)

/-- Without faults and loops on the way, the search succeeds before it gets too deep: the annotation types in view are
different ones. -/
theorem IsDerivable.exists_shapeWithin (ha : m.IsDerivable a) (hm : m.WellFormed) (hknown : m.Knows a)
    (hkind : (m.entry a).kind = .annotationType) (hnodup : inside.Nodup)
    (hinside : ∀ p ∈ inside, m.Knows p ∧ Relation.TransGen m.Contains p a)
    (hn : m.classes.length ≤ n + inside.length) : ∃ s, m.shapeWithin n inside a = .ok s := by
  have hmem : a ∉ inside := fun hmem ↦ (ha a .refl).2 (hinside a hmem).2
  induction n generalizing a inside with
  | zero =>
      refine absurd (mem_path_of_length_le hnodup (fun p hp ↦ (hinside p hp).1) ?_ hknown) hmem
      omega
  | succ n ih =>
      refine exists_shapeWithin_succ_iff.mpr ⟨hkind, hmem, (ha a .refl).1, fun b hab ↦ ?_⟩
      have hb := ha.of_contains hab
      have hinside' : ∀ p ∈ a :: inside, m.Knows p ∧ Relation.TransGen m.Contains p b :=
        List.forall_mem_cons.mpr ⟨⟨hknown, .single hab⟩, fun p hp ↦ ⟨(hinside p hp).1, (hinside p hp).2.tail hab⟩⟩
      refine ih hb (hm.knows_of_contains hab) hab.kind (List.nodup_cons.mpr ⟨hmem, hnodup⟩) hinside' ?_ ?_
      · rw [List.length_cons]
        omega
      · exact fun hmem ↦ (hb b .refl).2 (hinside' b hmem).2

theorem knows_of_kind (hkind : (m.entry a).kind = .annotationType) : m.Knows a := by
  by_contra ha
  rw [entry_of_not_knows ha] at hkind
  cases hkind

/-- An annotation type has a shape exactly when nothing is wrong with the annotation types inside it. -/
theorem exists_shapeOf_iff (hm : m.WellFormed) (hkind : (m.entry a).kind = .annotationType) :
    (∃ s, m.shapeOf a = .ok s) ↔ m.IsDerivable a := by
  refine ⟨isDerivable_of_exists_shapeWithin, fun ha ↦ ?_⟩
  refine ha.exists_shapeWithin hm (knows_of_kind hkind) hkind List.nodup_nil nofun ?_
  rw [List.length_nil]
  omega

end Model
end JavaSource
