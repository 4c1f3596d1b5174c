import JavaSource.Proofs.Annotation.MemberGraph
import JavaSource.Proofs.Model.BinaryNames
import JavaSource.Proofs.Model.NameLoops
import JavaSource.Proofs.Model.Placeholder
import JavaSource.Proofs.Rendering.Placeholders

/-!
# Shapes by their recursion

The shape of an annotation type has one member for each name of a method. Nested annotations have the shapes of
their own types, whichever way they were reached. The recursion for a shape stops by itself when the names that it
asks for come to an end: it puts each annotation type on a stack while it is at its methods and takes it off
afterwards, and enters none that is on the stack.
-/

namespace JavaSource.Model

variable {m : Model} {a b : ClassId} {inside : List ClassId} {n : Nat}
  {shape shape' : ClassId → Except ModelError AnnotationShape}

/-! ## Shapes do not depend on the way -/

/-- Shape functions that agree where both give a shape. -/
def Agrees (shape shape' : ClassId → Except ModelError AnnotationShape) : Prop :=
  ∀ c s s', shape c = .ok s → shape' c = .ok s' → s = s'

theorem Agrees.memberKindWith_eq_of_classId? (h : Agrees shape shape') {t : JavaType} {c : ClassId}
    (ht : t.classId? = some c) {k k' : MemberKind} (hk : m.memberKindWith shape t = .ok k)
    (hk' : m.memberKindWith shape' t = .ok k') : k = k' := by
  rw [memberKindWith_of_classId? ht] at hk hk'
  split at hk
  · rename_i hstring
    rw [if_pos hstring] at hk'
    exact Except.ok.inj (hk.symm.trans hk')
  · rename_i hstring
    rw [if_neg hstring] at hk'
    split at hk
    · rename_i hclass
      rw [if_pos hclass] at hk'
      exact Except.ok.inj (hk.symm.trans hk')
    · rename_i hclass
      rw [if_neg hclass] at hk'
      cases hkind : (m.entry c).kind with
      | plain | interface => simp [hkind] at hk
      | enum =>
          simp only [hkind] at hk hk'
          exact Except.ok.inj (hk.symm.trans hk')
      | annotationType =>
          cases hs : shape c <;> cases hs' : shape' c <;> simp only [hkind, hs, hs', reduceCtorEq] at hk hk'
          rw [h c _ _ hs hs'] at hk
          exact Except.ok.inj (hk.symm.trans hk')

theorem Agrees.memberKindWith_eq (h : Agrees shape shape') : (t : JavaType) → {k k' : MemberKind} →
    m.memberKindWith shape t = .ok k → m.memberKindWith shape' t = .ok k' → k = k'
  | .array t, k, k', hk, hk' => by
    rw [memberKindWith] at hk hk'
    cases hi : m.memberKindWith shape t <;> cases hi' : m.memberKindWith shape' t <;>
      simp only [hi, hi', Except.map, Except.ok.injEq, reduceCtorEq] at hk hk'
    rw [← hk, ← hk', memberKindWith_eq h t hi hi']
  | .primitive _, _, _, hk, hk' => Except.ok.inj (hk.symm.trans hk')
  | .reference _, _, _, hk, hk' | .narrowed _ _, _, _, hk, hk' => h.memberKindWith_eq_of_classId? rfl hk hk'

theorem Agrees.foldlM_addMember_eq (h : Agrees shape shape') {methods : List Method} {r s s' : AnnotationShape}
    (hs : methods.foldlM (m.addMember shape) r = .ok s) (hs' : methods.foldlM (m.addMember shape') r = .ok s') :
    s = s' := by
  induction methods generalizing r with
  | nil => exact Except.ok.inj (hs.symm.trans hs')
  | cons method methods ih =>
      rw [List.foldlM_cons, Except.bind_eq_ok] at hs hs'
      obtain ⟨q, hq, hs⟩ := hs
      obtain ⟨q', hq', hs'⟩ := hs'
      have hfirst : q = q' := by
        cases ht : method.returnType with
        | none =>
            simp only [addMember, ht] at hq hq'
            exact Except.ok.inj (hq.symm.trans hq')
        | some t =>
            simp only [addMember, ht] at hq hq'
            cases hk : m.memberKindWith shape t <;> cases hk' : m.memberKindWith shape' t <;>
              simp only [hk, hk', Except.ok.injEq, reduceCtorEq] at hq hq'
            rw [← hq, ← hq', h.memberKindWith_eq t hk hk']
      subst hfirst
      exact ih hs hs'

/-- A shape that is found is the same on every way, however deep the search may go. -/
theorem agrees_shapeWithin (n n' : Nat) (inside inside' : List ClassId) :
    Agrees (m.shapeWithin n inside) (m.shapeWithin n' inside') := by
  induction n generalizing n' inside inside' with
  | zero => exact fun c s s' hs ↦ nomatch hs
  | succ n ih =>
      intro a s s' hs hs'
      cases n' with
      | zero => cases hs'
      | succ n' =>
          obtain ⟨hkind, ha, -⟩ := exists_shapeWithin_succ_iff.mp ⟨s, hs⟩
          obtain ⟨-, ha', -⟩ := exists_shapeWithin_succ_iff.mp ⟨s', hs'⟩
          rw [shapeWithin_succ hkind ha] at hs
          rw [shapeWithin_succ hkind ha'] at hs'
          exact (ih n' (a :: inside) (a :: inside')).foldlM_addMember_eq hs hs'

/-! ## The members of a shape -/

theorem keys_declare (s : AnnotationShape) (name : String) (kind : MemberKind) (default : Option AnnotationValue) :
    (s.declare name kind default).members.keys = addOnce s.members.keys name := by
  rw [AnnotationShape.declare, addOnce]
  split
  · rename_i h
    exact Table.keys_insert_of_mem h
  · rename_i h
    exact Table.keys_insert_of_notMem h

/-- Methods without a return type are passed over. -/
theorem foldlM_addMember_ordinaryMethods (e : ClassEntry) (r : AnnotationShape) :
    e.ordinaryMethods.foldlM (m.addMember shape) r = e.methods.foldlM (m.addMember shape) r := by
  rw [ClassEntry.ordinaryMethods, List.foldlM_filter]
  congr 1
  funext s method
  cases ht : method.returnType <;> simp [Method.isConstructor, addMember, ht, pure, Except.pure]

theorem addMember_eq_ok {r s : AnnotationShape} {method : Method} (hmethod : method.returnType.isSome)
    (h : m.addMember shape r method = .ok s) :
    ∃ t kind, method.returnType = some t ∧ m.memberKindWith shape t = .ok kind ∧
      s = r.declare method.name kind method.defaultValue := by
  obtain ⟨t, ht⟩ := Option.isSome_iff_exists.mp hmethod
  simp only [addMember, ht] at h
  cases hk : m.memberKindWith shape t with
  | error fault => simp [hk] at h
  | ok kind =>
      simp only [hk] at h
      exact ⟨t, kind, ht, hk, (Except.ok.inj h).symm⟩

/-- The members come in the order in which their names come first, and a method has no say in members of other
names. -/
theorem foldlM_addMember_eq_ok {methods : List Method} (hmethods : ∀ method ∈ methods, method.returnType.isSome)
    {r s : AnnotationShape} (h : methods.foldlM (m.addMember shape) r = .ok s) :
    s.type = r.type ∧ s.name = r.name ∧ s.members.keys = (methods.map (·.name)).foldl addOnce r.members.keys ∧
      ∀ name ∉ methods.map (·.name), s.members.get? name = r.members.get? name := by
  induction methods generalizing r with
  | nil =>
      cases h
      exact ⟨rfl, rfl, rfl, fun _ _ ↦ rfl⟩
  | cons method methods ih =>
      rw [List.foldlM_cons, Except.bind_eq_ok] at h
      obtain ⟨q, hq, h⟩ := h
      obtain ⟨t, kind, -, -, rfl⟩ := addMember_eq_ok (hmethods method List.mem_cons_self) hq
      obtain ⟨htype, hname, hkeys, hget⟩ := ih (fun x hx ↦ hmethods x (List.mem_cons_of_mem _ hx)) h
      refine ⟨htype, hname, ?_, fun name hnotMem ↦ ?_⟩
      · rw [hkeys, keys_declare, List.map_cons, List.foldl_cons]
      · rw [List.map_cons, List.mem_cons, not_or] at hnotMem
        rw [hget name hnotMem.2, AnnotationShape.declare, Table.get?_insert, if_neg (Ne.symm hnotMem.1)]

theorem isSome_returnType_of_mem {e : ClassEntry} {method : Method} (h : method ∈ e.ordinaryMethods) :
    method.returnType.isSome := by
  have hordinary := (List.mem_filter.mp h).2
  simpa [Method.isConstructor, Option.isSome_iff_ne_none] using hordinary

/-- Annotations inside have the shapes of their own types. -/
theorem IsDerivable.memberKindWith_shapeOf (ha : m.IsDerivable a) (hm : m.WellFormed) {t : JavaType}
    (ht : t ∈ (m.entry a).memberTypes) {kind : MemberKind}
    (hk : m.memberKindWith (m.shapeWithin n inside) t = .ok kind) : m.memberKindWith m.shapeOf t = .ok kind := by
  have hshapes : ∀ d, m.HoldsUse t d → ∃ s, m.shapeOf d = .ok s := fun d hd ↦
    (exists_shapeOf_iff hm hd.2.1).mpr (ha.of_contains ⟨t, ht, hd⟩)
  obtain ⟨kind', hk'⟩ := (exists_memberKindWith_iff t).mpr ⟨(ha a .refl).1 t ht, hshapes⟩
  rw [(agrees_shapeWithin n _ inside []).memberKindWith_eq t hk hk']
  exact hk'

/-- A shape has one member for each name of a method, with what the last method of the name says. -/
structure ShapeOf (m : Model) (a : ClassId) (s : AnnotationShape) : Prop where
  type : s.type = a
  name : s.name = m.fullName a
  keys : s.members.keys = ((m.entry a).ordinaryMethods.map (·.name)).eraseDups
  member : ∀ before method after, (m.entry a).ordinaryMethods = before ++ method :: after →
    method.name ∉ after.map (·.name) →
    ∃ t kind, method.returnType = some t ∧ m.memberKindWith m.shapeOf t = .ok kind ∧
      s.members.get? method.name = some (kind, method.defaultValue)

theorem shapeOf_spec (hm : m.WellFormed) {s : AnnotationShape} (h : m.shapeOf a = .ok s) : m.ShapeOf a s := by
  have hderivable : m.IsDerivable a := isDerivable_of_exists_shapeWithin ⟨s, h⟩
  obtain ⟨hkind, ha, -⟩ := exists_shapeWithin_succ_iff.mp ⟨s, h⟩
  rw [shapeOf, shapeWithin_succ hkind ha, ← foldlM_addMember_ordinaryMethods] at h
  obtain ⟨htype, hname, hkeys, -⟩ := foldlM_addMember_eq_ok (fun _ ↦ isSome_returnType_of_mem) h
  refine ⟨htype, hname, ?_, fun before method after hmethods hlast ↦ ?_⟩
  · rw [hkeys, ← foldl_addOnce_eq_eraseDups]
    rfl
  · have hsome : ∀ x ∈ before ++ method :: after, x.returnType.isSome := fun x hx ↦
      isSome_returnType_of_mem (hmethods ▸ hx)
    rw [hmethods, List.foldlM_append, Except.bind_eq_ok] at h
    obtain ⟨q, -, h⟩ := h
    rw [List.foldlM_cons, Except.bind_eq_ok] at h
    obtain ⟨p, hp, h⟩ := h
    obtain ⟨t, kind, ht, hk, rfl⟩ := addMember_eq_ok (hsome method (by simp)) hp
    obtain ⟨-, -, -, hget⟩ := foldlM_addMember_eq_ok (fun x hx ↦ hsome x (by simp [hx])) h
    refine ⟨t, kind, ht, ?_, ?_⟩
    · have hmethod : method ∈ (m.entry a).ordinaryMethods := by simp [hmethods]
      replace hmethod := List.mem_of_mem_filter hmethod
      exact hderivable.memberKindWith_shapeOf hm (mem_memberTypes.mpr ⟨method, hmethod, ht⟩) hk
    · rw [hget _ hlast, AnnotationShape.declare, Table.get?_insert, if_pos rfl]

/-! ## The recursion -/

/-- The kind of a member by the recursion, with the stack that it leaves. Types of no class are settled at once. -/
def deriveKind (m : Model) (name : ClassId → Option String)
    (derive : List ClassId → ClassId → Option (Except ModelError AnnotationShape × List ClassId))
    (visiting : List ClassId) : JavaType → Option (Except KindFault MemberKind × List ClassId)
  | .array t => (m.deriveKind name derive visiting t).map fun r ↦ (r.1.map .array, r.2)
  | .reference c | .narrowed c _ =>
    (name c).bind fun name ↦
      if name = "java.lang.String" then some (.ok .string, visiting)
      else if name = "java.lang.Class" then some (.ok .classLiteral, visiting)
      else
        match (m.entry c).kind with
        | .enum => some (.ok (.enum c), visiting)
        | .annotationType =>
          (derive visiting c).map fun r ↦
            match r with
            | (.ok s, visiting) => (.ok (.shape s), visiting)
            | (.error fault, visiting) => (.error (.nested fault), visiting)
        | .plain | .interface => some (.error .notMemberType, visiting)
  | t => some (m.memberKindWith m.shapeOf t, visiting)

/-- The members of a shape, one method after the other, up to the first fault. -/
def deriveMembers (kind : List ClassId → JavaType → Option (Except KindFault MemberKind × List ClassId)) :
    AnnotationShape → List ClassId → List Method → Option (Except ModelError AnnotationShape × List ClassId)
  | s, visiting, [] => some (.ok s, visiting)
  | s, visiting, method :: methods =>
    match method.returnType with
    | none => deriveMembers kind s visiting methods
    | some t =>
      match kind visiting t with
      | none => none
      | some (.ok kind', visiting) =>
        deriveMembers kind (s.declare method.name kind' method.defaultValue) visiting methods
      | some (.error fault, visiting) => some (.error (memberFault method.name s.name fault), visiting)

/-- The recursion for a shape, given up when it goes deeper than so many calls. The stack has the last entry first. -/
def deriveWithin (m : Model) : Nat → List ClassId → ClassId → Option (Except ModelError AnnotationShape × List ClassId)
  | 0, _, _ => none
  | k + 1, visiting, c =>
    (m.nameWithin "." k c).bind fun name ↦
      if (m.entry c).kind ≠ .annotationType then some (.error (.construction (.notAnnotationType name)), visiting)
      else if c ∈ visiting then some (.error (.state (.containsItself name)), visiting)
      else
        (deriveMembers (m.deriveKind (m.nameWithin "." k) (m.deriveWithin k)) ⟨c, name, {}⟩ (c :: visiting)
          (m.entry c).methods).map fun r ↦
            match r with
            | (.ok s, visiting) => (.ok s, visiting.tail)
            | (.error fault, visiting) => (.error fault, visiting)

/-- A result with the stack that was left. When all went well, it is the stack from before. -/
def Comes {ε α : Type} (r : Option (Except ε α × List ClassId)) (expected : Except ε α) (visiting : List ClassId) :
    Prop :=
  ∃ left, r = some (expected, left) ∧ (expected.isOk → left = visiting)

theorem Comes.pure {ε α : Type} (expected : Except ε α) (visiting : List ClassId) :
    Comes (some (expected, visiting)) expected visiting :=
  ⟨visiting, rfl, fun _ ↦ rfl⟩

theorem Comes.fault {ε α : Type} (e : ε) (left stack : List ClassId) :
    Comes (some ((.error e : Except ε α), left)) (.error e) stack :=
  ⟨left, rfl, fun h ↦ by cases h⟩

theorem comes_deriveKind_of_classId? {name : ClassId → Option String}
    {derive : List ClassId → ClassId → Option (Except ModelError AnnotationShape × List ClassId)}
    {visiting : List ClassId} {t : JavaType} {c : ClassId} (ht : t.classId? = some c)
    (hname : name c = some (m.fullName c))
    (hderive : m.HoldsUse t c → Comes (derive visiting c) (shape c) visiting) :
    Comes (m.deriveKind name derive visiting t) (m.memberKindWith shape t) visiting := by
  have hkind : m.deriveKind name derive visiting t = m.deriveKind name derive visiting (.reference c) := by
    cases t with
    | reference | narrowed =>
        cases ht
        rfl
    | _ => cases ht
  rw [hkind, memberKindWith_of_classId? ht, deriveKind, hname, Option.bind_some]
  by_cases hstring : m.fullName c = "java.lang.String"
  · rw [if_pos hstring, if_pos hstring]
    exact .pure _ _
  · by_cases hclass : m.fullName c = "java.lang.Class"
    · rw [if_neg hstring, if_pos hclass, if_neg hstring, if_pos hclass]
      exact .pure _ _
    · rw [if_neg hstring, if_neg hclass, if_neg hstring, if_neg hclass]
      cases hkind : (m.entry c).kind with
      | plain | interface | enum => exact .pure _ _
      | annotationType =>
          have hholds : m.HoldsUse t c :=
            (holdsUse_iff_of_classId? ht).mpr ⟨rfl, hkind, not_or.mpr ⟨hstring, hclass⟩⟩
          obtain ⟨left, hleft, hsame⟩ := hderive hholds
          simp only [hleft, Option.map_some]
          cases hshape : shape c with
          | error fault => exact .fault _ _ _
          | ok s => exact ⟨left, rfl, fun _ ↦ hsame (by rw [hshape]; rfl)⟩

theorem comes_deriveKind {name : ClassId → Option String}
    {derive : List ClassId → ClassId → Option (Except ModelError AnnotationShape × List ClassId)}
    {visiting : List ClassId} : (t : JavaType) →
    (∀ c, t.innermost.1.classId? = some c → name c = some (m.fullName c)) →
    (∀ c, m.HoldsUse t c → Comes (derive visiting c) (shape c) visiting) →
    Comes (m.deriveKind name derive visiting t) (m.memberKindWith shape t) visiting
  | .array t, hname, hderive => by
    obtain ⟨left, hleft, hsame⟩ := comes_deriveKind t hname hderive
    refine ⟨left, ?_, fun hok ↦ hsame ?_⟩
    · rw [deriveKind, hleft, memberKindWith]
      rfl
    · rw [memberKindWith] at hok
      cases hk : m.memberKindWith shape t with
      | error fault => simp [hk, Except.map, Except.isOk, Except.toBool] at hok
      | ok kind => rfl
  | .reference c, hname, hderive | .narrowed c _, hname, hderive =>
    comes_deriveKind_of_classId? rfl (hname c rfl) (hderive c)
  | .primitive _, _, _ | .var .., _, _ | .wildcard, _, _ | .wildcardExtends _, _, _ | .wildcardSuper _, _, _
  | .anonymous _, _, _ => .pure _ _

theorem comes_deriveMembers {kind : List ClassId → JavaType → Option (Except KindFault MemberKind × List ClassId)}
    {visiting : List ClassId} {methods : List Method}
    (hkind : ∀ method ∈ methods, ∀ t, method.returnType = some t →
      Comes (kind visiting t) (m.memberKindWith shape t) visiting) (s : AnnotationShape) :
    Comes (deriveMembers kind s visiting methods) (methods.foldlM (m.addMember shape) s) visiting := by
  induction methods generalizing s with
  | nil => exact .pure _ _
  | cons method methods ih =>
      have ih := ih fun x hx ↦ hkind x (List.mem_cons_of_mem _ hx)
      rw [List.foldlM_cons, deriveMembers]
      cases ht : method.returnType with
      | none =>
          simp only [addMember, ht]
          exact ih s
      | some t =>
          obtain ⟨left, hleft, hsame⟩ := hkind method List.mem_cons_self t ht
          simp only [addMember, ht, hleft]
          cases hk : m.memberKindWith shape t with
          | error fault => exact .fault _ _ _
          | ok kind' =>
              obtain rfl : left = visiting := hsame (by rw [hk]; rfl)
              exact ih _

/-- The names that the search for a shape asks for come to an end: of each class that stands in the type of a member,
of the annotation type itself or of one that can be reached from it. -/
def NamesMembers (m : Model) (a : ClassId) : Prop :=
  ∀ b, Relation.ReflTransGen m.Contains a b → ∀ t ∈ (m.entry b).memberTypes, ∀ c,
    t.innermost.1.classId? = some c → m.HasNameEnd c

theorem NamesMembers.of_contains (ha : m.NamesMembers a) (h : m.Contains a b) : m.NamesMembers b :=
  fun c hbc ↦ ha c (hbc.head h)

theorem NamesMembers.hasNameEnd_of_contains (ha : m.NamesMembers a) (h : m.Contains a b) : m.HasNameEnd b := by
  obtain ⟨t, ht, hb, -⟩ := h
  exact ha a .refl t ht b hb

/-- The recursion comes to the result of the search, for a stack of known annotation types. -/
theorem comes_deriveWithin (hm : m.WellFormed) {K : Nat}
    (hnames : ∀ c, m.HasNameEnd c → m.Knows c → ∀ k, K ≤ k → m.nameWithin "." k c = some (m.fullName c))
    (ha : m.NamesMembers a) (hend : m.HasNameEnd a) (hkind : (m.entry a).kind = .annotationType)
    (hnodup : inside.Nodup) (hinside : ∀ p ∈ inside, m.Knows p) (hn : m.classes.length ≤ n + inside.length) :
    Comes (m.deriveWithin (K + n + 1) inside a) (m.shapeWithin n inside a) inside := by
  induction n generalizing a inside with
  | zero =>
      have hmem : a ∈ inside := mem_path_of_length_le hnodup hinside (by omega) (knows_of_kind hkind)
      simp only [deriveWithin, hnames a hend (knows_of_kind hkind) _ (Nat.le_refl _), Option.bind_some, hkind, hmem,
        shapeWithin, ne_eq, not_true_eq_false, if_false, if_true]
      exact .pure _ _
  | succ n ih =>
      have hname := hnames a hend (knows_of_kind hkind) (K + (n + 1)) (by omega)
      rw [deriveWithin, hname, Option.bind_some, if_neg (not_not.mpr hkind)]
      by_cases hmem : a ∈ inside
      · simp only [hmem, if_true, shapeWithin, hkind, ne_eq, not_true_eq_false, if_false]
        exact .pure _ _
      · have hnodup' : (a :: inside).Nodup := List.nodup_cons.mpr ⟨hmem, hnodup⟩
        have hinside' : ∀ p ∈ a :: inside, m.Knows p := List.forall_mem_cons.mpr ⟨knows_of_kind hkind, hinside⟩
        have hn' : m.classes.length ≤ n + (a :: inside).length := by
          rw [List.length_cons]
          omega
        have hkinds : ∀ method ∈ (m.entry a).methods, ∀ t, method.returnType = some t →
            Comes (m.deriveKind (m.nameWithin "." (K + (n + 1))) (m.deriveWithin (K + (n + 1))) (a :: inside) t)
              (m.memberKindWith (m.shapeWithin n (a :: inside)) t) (a :: inside) := by
          intro method hmethod t ht
          have htype : t ∈ (m.entry a).memberTypes := mem_memberTypes.mpr ⟨method, hmethod, ht⟩
          refine comes_deriveKind t (fun c hc ↦ ?_) fun c hc ↦ ?_
          · exact hnames c (ha a .refl t htype c hc) (hm.knows_of_memberType htype hc) _ (by omega)
          · have hac : m.Contains a c := ⟨t, htype, hc⟩
            exact ih (ha.of_contains hac) (ha.hasNameEnd_of_contains hac) hac.kind hnodup' hinside' hn'
        obtain ⟨left, hleft, hsame⟩ := comes_deriveMembers hkinds (AnnotationShape.empty m a)
        rw [if_neg hmem, shapeWithin_succ hkind hmem, ← AnnotationShape.empty, hleft, Option.map_some]
        cases hfold : (m.entry a).methods.foldlM (m.addMember (m.shapeWithin n (a :: inside)))
            (AnnotationShape.empty m a) with
        | error fault => exact .fault _ _ _
        | ok s =>
            -- What was put on the stack for `a` is taken off again.
            obtain rfl : left = a :: inside := hsame (by rw [hfold]; rfl)
            exact ⟨inside, rfl, fun _ ↦ rfl⟩

/-- Names of known classes that come to an end do so within one bound. -/
theorem exists_nameWithin_of_hasNameEnd (hm : m.WellFormed) :
    ∃ K, ∀ c, m.HasNameEnd c → m.Knows c → ∀ k, K ≤ k → m.nameWithin "." k c = some (m.fullName c) := by
  have hbelow : ∀ N, N ≤ m.classes.length → ∃ K, ∀ c, m.HasNameEnd c → c.index < N → ∀ k, K ≤ k →
      m.nameWithin "." k c = some (m.fullName c) := by
    intro N hN
    induction N with
    | zero => exact ⟨0, nofun⟩
    | succ N ih =>
        obtain ⟨K, hK⟩ := ih (by omega)
        by_cases hlast : m.HasNameEnd ⟨N⟩
        · obtain ⟨k, hk⟩ := hlast.exists_nameWithin hm (show N < m.classes.length by omega) "."
          refine ⟨max K k, fun c hc hindex l hl ↦ ?_⟩
          rcases Nat.lt_succ_iff_lt_or_eq.mp hindex with hindex | rfl
          · exact hK c hc hindex l (by omega)
          · exact nameWithin_mono (by omega) hk
        · refine ⟨K, fun c hc hindex l hl ↦ ?_⟩
          rcases Nat.lt_succ_iff_lt_or_eq.mp hindex with hindex | rfl
          · exact hK c hc hindex l hl
          · exact absurd hc hlast
  exact hbelow m.classes.length (Nat.le_refl _)

theorem hasNameEnd_of_defined (hm : m.WellFormed) (ha : (m.entry a).origin = .defined) : m.HasNameEnd a := by
  induction a using outer_induction hm.outer_below with
  | top c ho =>
      refine Acc.intro c fun d hd ↦ ?_
      rw [NamedAfter, nameSource?_of_isListed (Or.inl ha), ho] at hd
      cases hd
  | inner c o ho ih =>
      refine Acc.intro c fun d hd ↦ ?_
      rw [NamedAfter, nameSource?_of_isListed (Or.inl ha), ho] at hd
      cases hd
      exact ih ((hm.outer_defined c o ho).mp ha)

/-- The search for the shape of an annotation type ends where the names that it asks for do. It succeeds exactly when
all types of members are legal, of the annotation type and of those that can be reached from it, and none of these
can be reached from itself. The shape has one member for each name of a method. -/
theorem shapeOf_derives (hm : m.Reachable) (hkind : (m.entry a).kind = .annotationType) :
    (m.NamesMembers a → ∃ k, Comes (m.deriveWithin k [] a) (m.shapeOf a) []) ∧
    ((∃ s, m.shapeOf a = .ok s) ↔ m.IsDerivable a) ∧
    ∀ s, m.shapeOf a = .ok s → m.ShapeOf a s := by
  have hwf := hm.wellFormed
  refine ⟨fun hnames ↦ ?_, exists_shapeOf_iff hwf hkind, fun s ↦ shapeOf_spec hwf⟩
  obtain ⟨K, hK⟩ := exists_nameWithin_of_hasNameEnd hwf
  have hdefined : (m.entry a).origin = .defined := by
    by_contra hforeign
    rw [hm.orderly.kind_eq a hforeign] at hkind
    cases hkind
  refine ⟨_, comes_deriveWithin hwf hK hnames (hasNameEnd_of_defined hwf hdefined) hkind List.nodup_nil nofun ?_⟩
  rw [List.length_nil]
  omega

/-- An annotation type with an array of annotations of another type, which it also has one of. The name `x` is given
to two of its methods. -/
def sharedInside : List Operation :=
  [.define (.package rootPackage) .none "A" .annotationType, .define (.package rootPackage) .none "B" .annotationType,
    .member ⟨1⟩ (.method .none (.array (.reference ⟨2⟩)) "all"), .member ⟨1⟩ (.method .none (.reference ⟨2⟩) "one"),
    .member ⟨1⟩ (.method .none (.primitive .int) "x"), .member ⟨1⟩ (.method .none (.primitive .long) "x"),
    .reference "java.lang.String", .member ⟨2⟩ (.method .none (.array (.reference ⟨3⟩)) "names")]

theorem shapeOf_derives_sharedInside :
    (initial.run sharedInside).Reachable ∧
    ((initial.run sharedInside).entry ⟨1⟩).kind = .annotationType ∧
    (initial.run sharedInside).NamesMembers ⟨1⟩ ∧
    (∃ k, Comes ((initial.run sharedInside).deriveWithin k [] ⟨1⟩) ((initial.run sharedInside).shapeOf ⟨1⟩) []) ∧
    (initial.run sharedInside).IsDerivable ⟨1⟩ ∧
    ∃ s, (initial.run sharedInside).shapeOf ⟨1⟩ = .ok s ∧ (initial.run sharedInside).ShapeOf ⟨1⟩ s ∧
      s.members.keys = ["all", "one", "x"] ∧ (s.members.get? "x").map (·.1.describe) = some "long" := by
  have hos : initial.AdmitsAll sharedInside := by decide +kernel
  have hm : (initial.run sharedInside).Reachable := .run .initial hos
  have hkind : ((initial.run sharedInside).entry ⟨1⟩).kind = .annotationType := by decide +kernel
  have htop : ∀ c, ((initial.run sharedInside).entry c).outer = none ∧
      ((initial.run sharedInside).entry c).superclass = none :=
    entry_of_forall (P := fun e ↦ e.outer = none ∧ e.superclass = none) ⟨rfl, rfl⟩ (by decide +kernel)
  have hnames : (initial.run sharedInside).NamesMembers ⟨1⟩ := by
    refine fun _ _ _ _ c _ ↦ Acc.intro c fun d hd ↦ ?_
    obtain ⟨houter, hsuper⟩ := htop c
    rcases namedAfter_cases hd with ⟨-, base, hbase, -⟩ | ho
    · exact nomatch hsuper.symm.trans hbase
    · exact nomatch houter.symm.trans ho
  obtain ⟨hends, hiff, hspec⟩ := shapeOf_derives hm hkind
  have hlast : ((initial.run sharedInside).shapeOf ⟨1⟩).map
      (fun s ↦ (s.members.get? "x").map (·.1.describe)) = .ok (some "long") := by decide +kernel
  obtain ⟨s, hs, hlast⟩ : ∃ s, (initial.run sharedInside).shapeOf ⟨1⟩ = .ok s ∧
      (s.members.get? "x").map (·.1.describe) = some "long" := by
    cases hs : (initial.run sharedInside).shapeOf ⟨1⟩ with
    | error fault => simp [hs, Except.map] at hlast
    | ok s => exact ⟨s, rfl, by simpa [hs, Except.map] using hlast⟩
  have hfound := hspec s hs
  refine ⟨hm, hkind, hnames, hends hnames, hiff.mp ⟨s, hs⟩, s, hs, hfound, ?_, hlast⟩
  rw [hfound.keys]
  decide +kernel

end JavaSource.Model
