import JavaSource.Proofs.Declaration.LookValue
import JavaSource.Proofs.Renaming.Corresponding
import JavaSource.Proofs.Renaming.Events

/-!
# Shapes of corresponding annotations

Where the methods of annotation types correspond in two models, so do the shapes that are derived from them, and
an annotation takes corresponding values in both.
-/

namespace JavaSource

namespace MemberKind

theorem accepts_via_id : ∀ (k : MemberKind) (v : AnnotationValue), (k.via id).accepts v = k.accepts v
  | .array k, .array items => by
      have hall : (k.via id).accepts = k.accepts := funext (accepts_via_id k)
      simp [via, accepts, hall]
  | .array k, .bool _ | .array k, .int _ | .array k, .long _ | .array k, .float _ | .array k, .double _
  | .array k, .char _ | .array k, .string _ | .array k, .classLiteral _ | .array k, .enumConstant _ _
  | .array k, .nested _ _ => accepts_via_id k _
  | .nested _ _ _, v => by cases v <;> rfl
  | .bool, v | .int, v | .long, v | .float, v | .double, v | .char, v | .string, v | .classLiteral, v
  | .enum _, v => rfl

end MemberKind

/-- The members of two shapes take corresponding values and have corresponding defaults. -/
def AnnotationShape.Alike (f : ClassId → ClassId) (S : ClassId → Prop) :
    Option AnnotationShape → Option AnnotationShape → Prop
  | none, none => True
  | some s, some s' =>
    (∀ name, (s'.members.get? name).map (fun m ↦ (m.1.via id, m.2)) =
      (s.members.get? name).map fun m ↦ (m.1.via f, m.2.map (AnnotationValue.rename f))) ∧
      ∀ name m, s.members.get? name = some m → ∀ e ∈ m.1.enums, S e
  | _, _ => False

namespace AnnotationShape

variable {f : ClassId → ClassId} {S : ClassId → Prop}

theorem Alike.hint {shape shape' : Option AnnotationShape} (h : Alike f S shape shape') (name : String) :
    (AnnotationShape.hint shape' name).map (·.via id) = (AnnotationShape.hint shape name).map (·.via f) := by
  match shape, shape', h with
  | none, none, _ => rfl
  | some s, some s', h =>
      have hmember := congrArg (Option.map Prod.fst) (h.1 name)
      simpa [AnnotationShape.hint, Function.comp_def] using hmember

theorem Alike.within {shape shape' : Option AnnotationShape} (h : Alike f S shape shape') (name : String) :
    ∀ e ∈ MemberKind.enumsOf (AnnotationShape.hint shape name), S e := by
  match shape, shape', h with
  | none, none, _ => exact nofun
  | some s, some s', h =>
      intro e he
      cases hget : s.members.get? name with
      | none => simp [AnnotationShape.hint, MemberKind.enumsOf, hget] at he
      | some m => exact h.2 name m hget e (by simpa [AnnotationShape.hint, MemberKind.enumsOf, hget] using he)

theorem Alike.mono {P : ClassId → Prop} (hP : ∀ c, S c → P c) {shape shape' : Option AnnotationShape}
    (h : Alike f S shape shape') : Alike f P shape shape' := by
  match shape, shape', h with
  | none, none, _ => trivial
  | some s, some s', h => exact ⟨h.1, fun name m hm e he ↦ hP e (h.2 name m hm e he)⟩

theorem set_alike (hf : Function.Injective f) {s s' : AnnotationShape} (h : Alike f S (some s) (some s'))
    {u w w' : AnnotationUse} {name : String} {v : AnnotationValue} (hw : s.set u name v = .ok w)
    (hw' : s'.set (u.rename f) name (v.rename f) = .ok w') : w' = w.rename f := by
  have hmember := h.1 name
  unfold AnnotationShape.set AnnotationShape.member? at hw hw'
  cases hget : s.members.get? name with
  | none => simp [hget, bind, Except.bind] at hw
  | some m =>
      cases hget' : s'.members.get? name with
      | none => simp [hget', bind, Except.bind] at hw'
      | some m' =>
          simp only [hget, hget', Option.map_some, Option.some.injEq, Prod.mk.injEq] at hmember
          obtain ⟨hkind, hdefault⟩ := hmember
          have haccepts : m'.1.accepts (v.rename f) = m.1.accepts v := by
            rw [← MemberKind.accepts_via_id, hkind, MemberKind.accepts_via hf]
          have hsame : m'.2.any (·.same (v.rename f)) = m.2.any (·.same v) := by
            rw [hdefault]
            cases m.2 with
            | none => rfl
            | some d => exact AnnotationValue.same_rename hf d v
          simp only [hget, bind, Except.bind] at hw
          simp only [hget', bind, Except.bind, hsame, haccepts] at hw'
          split at hw
          · rename_i hleft
            rw [if_pos hleft] at hw'
            cases hw
            cases hw'
            rfl
          · rename_i hwritten
            rw [if_neg hwritten] at hw'
            split at hw
            · rename_i haccepted
              rw [if_pos haccepted] at hw'
              cases hw
              cases hw'
              exact AnnotationUse.set_rename u name v
            · cases hw

end AnnotationShape

theorem AnnotationUse.ofValues_alike {f : ClassId → ClassId} {S : ClassId → Prop} (hf : Function.Injective f)
    {c : ClassId} {shape shape' : Option AnnotationShape} (h : AnnotationShape.Alike f S shape shape')
    {values : List (String × AnnotationValue)} {u u' : AnnotationUse} (hu : ofValues c shape values = .ok u)
    (hu' : ofValues (f c) shape' (AnnotationValue.renameMembers f values) = .ok u') : u' = u.rename f := by
  have hempty : (⟨f c, {}⟩ : AnnotationUse) = AnnotationUse.rename f ⟨c, {}⟩ := rfl
  unfold ofValues at hu hu'
  rw [hempty] at hu'
  generalize (⟨c, {}⟩ : AnnotationUse) = start at hu hu'
  match shape, shape', h with
  | none, none, _ =>
      cases hu
      cases hu'
      induction values generalizing start with
      | nil => rfl
      | cons p values ih =>
          rw [AnnotationValue.renameMembers, List.foldl_cons, List.foldl_cons, AnnotationUse.set_rename]
          exact ih _
  | some s, some s', h =>
      induction values generalizing start with
      | nil =>
          cases hu
          cases hu'
          rfl
      | cons p values ih =>
          simp only [AnnotationValue.renameMembers, List.foldlM_cons, Except.bind_eq_ok] at hu hu'
          obtain ⟨w, hw, hu⟩ := hu
          obtain ⟨w', hw', hu'⟩ := hu'
          obtain rfl := AnnotationShape.set_alike hf h hw hw'
          exact ih w hu hu'

/-! ## Deriving shapes -/

/-- Two attempts fail both or succeed both, with related results. -/
def Except.Agree {ε ε' α β : Type} (R : α → β → Prop) : Except ε α → Except ε' β → Prop
  | .ok a, .ok b => R a b
  | .error _, .error _ => True
  | _, _ => False

theorem Except.Agree.cases {ε ε' α β : Type} {R : α → β → Prop} {a : Except ε α} {b : Except ε' β} (h : Agree R a b) :
    (∃ v w, a = .ok v ∧ b = .ok w ∧ R v w) ∨ ∃ e e', a = .error e ∧ b = .error e' :=
  match a, b, h with
  | .ok v, .ok w, h => Or.inl ⟨v, w, rfl, rfl, h⟩
  | .error e, .error e', _ => Or.inr ⟨e, e', rfl, rfl⟩

theorem Except.Agree.foldlM {ε ε' α α' β β' : Type} {R : β → β' → Prop} {Q : α → α' → Prop} {l : List α}
    {l' : List α'} (hl : List.Forall₂ Q l l') {g : β → α → Except ε β} {g' : β' → α' → Except ε' β'}
    (hstep : ∀ a a' b b', Q a a' → R b b' → Except.Agree R (g b a) (g' b' a')) {b : β} {b' : β'} (hb : R b b') :
    Except.Agree R (l.foldlM g b) (l'.foldlM g' b') := by
  induction hl generalizing b b' with
  | nil => exact hb
  | @cons a a' l l' ha _ ih =>
      rw [List.foldlM_cons, List.foldlM_cons]
      rcases (hstep a a' b b' ha hb).cases with ⟨c, c', hc, hc', hR⟩ | ⟨e, e', hc, hc'⟩
      · rw [hc, hc']
        exact ih hR
      · rw [hc, hc']
        trivial

theorem List.forall₂_of_map_eq {α β γ : Type} {g : α → γ} {h : β → γ} {as : List α} {bs : List β}
    (heq : bs.map h = as.map g) : List.Forall₂ (fun a b ↦ h b = g a) as bs := by
  rw [← List.forall₂_eq_eq_eq, List.forall₂_map_left_iff, List.forall₂_map_right_iff] at heq
  exact heq.flip

/-- The name and the type of a method with other handles. -/
def Method.renameSignature (f : ClassId → ClassId) (x : String × Option JavaType) : String × Option JavaType :=
  (x.1, x.2.map (JavaType.rename f))

/-- A method of an annotation type as far as its shape tells, but for the default. -/
structure Method.SameSignature (f : ClassId → ClassId) (S : ClassId → Prop) (m m' : Method) : Prop where
  name : m'.name = m.name
  returnType : m'.returnType = m.returnType.map (JavaType.rename f)
  within : ∀ t, m.returnType = some t → t.Within S

namespace Model

variable {m n : Model} {f : ClassId → ClassId} {S : ClassId → Prop} {c : ClassId}

/-- The kinds of a member in two models. -/
def KindsAlike (f : ClassId → ClassId) (S : ClassId → Prop) (k k' : MemberKind) : Prop :=
  k'.via id = k.via f ∧ ∀ e ∈ k.enums, S e

/-- The annotation types of two attempts to derive a shape. -/
def TypesAlike (f : ClassId → ClassId) (c : ClassId) (s s' : AnnotationShape) : Prop := s.type = c ∧ s'.type = f c

theorem memberKindWith_reference_agree (h : m.Corresponds n f S)
    {shape shape' : ClassId → Except ModelError AnnotationShape} (hc : S c)
    (hshape : Except.Agree (TypesAlike f c) (shape c) (shape' (f c))) :
    Except.Agree (KindsAlike f S) (m.memberKindWith shape (.reference c))
      (n.memberKindWith shape' (.reference (f c))) := by
  simp only [memberKindWith, h.fullName_eq hc, h.kind_eq c hc]
  split
  · exact ⟨rfl, List.forall_mem_nil _⟩
  · split
    · exact ⟨rfl, List.forall_mem_nil _⟩
    · split
      · exact ⟨rfl, List.forall_mem_singleton.mpr hc⟩
      · rcases hshape.cases with ⟨s, s', hs, hs', htype, htype'⟩ | ⟨e, e', hs, hs'⟩
        · rw [hs, hs']
          exact ⟨by simp [MemberKind.shape, MemberKind.via, htype, htype'], List.forall_mem_nil _⟩
        · rw [hs, hs']
          trivial
      · trivial
      · trivial

theorem memberKindWith_agree (h : m.Corresponds n f S) {shape shape' : ClassId → Except ModelError AnnotationShape}
    (hshape : ∀ c, S c → Except.Agree (TypesAlike f c) (shape c) (shape' (f c))) :
    ∀ t : JavaType, t.Within S →
      Except.Agree (KindsAlike f S) (m.memberKindWith shape t) (n.memberKindWith shape' (t.rename f))
  | .primitive p, _ => by cases p <;> first | exact ⟨rfl, nofun⟩ | trivial
  | .array t, ht => by
      simp only [memberKindWith, JavaType.rename]
      rcases (memberKindWith_agree h hshape t ht).cases with ⟨k, k', hk, hk', hvia, henums⟩ | ⟨e, e', hk, hk'⟩
      · rw [hk, hk']
        exact ⟨congrArg MemberKind.array hvia, henums⟩
      · rw [hk, hk']
        trivial
  | .reference c, hc => memberKindWith_reference_agree h hc (hshape c hc)
  | .narrowed c _, ht => memberKindWith_reference_agree h ht.1 (hshape c ht.1)
  | .var _ _, _ | .wildcard, _ | .wildcardExtends _, _ | .wildcardSuper _, _ => trivial

/-- Two derivations agree when the derivations inside agree and their results grow alike. -/
theorem shapeWithin_succ_agree (h : m.Corresponds n f S) {R : AnnotationShape → AnnotationShape → Prop}
    {D : Option AnnotationValue → Option AnnotationValue → Prop} (hempty : R (.empty m c) (.empty n (f c)))
    (hdeclare : ∀ s s' name k k' v v', R s s' → KindsAlike f S k k' → D v v' →
      R (s.declare name k v) (s'.declare name k' v'))
    (hmethods : (m.entry c).kind = .annotationType →
      List.Forall₂ (fun a a' ↦ Method.SameSignature f S a a' ∧ D a.defaultValue a'.defaultValue)
        (m.entry c).methods (n.entry (f c)).methods)
    {fuel fuel' : Nat} {inside : List ClassId} (hc : S c)
    (hinner : c ∉ inside → ∀ d, S d → Except.Agree (TypesAlike f d) (m.shapeWithin fuel (c :: inside) d)
      (n.shapeWithin fuel' ((c :: inside).map f) (f d))) :
    Except.Agree R (m.shapeWithin (fuel + 1) inside c) (n.shapeWithin (fuel' + 1) (inside.map f) (f c)) := by
  have hmap : f c ∈ inside.map f ↔ c ∈ inside := List.mem_map_of_injective h.injective
  simp only [shapeWithin, h.kind_eq c hc, hmap]
  split
  · trivial
  · rename_i hkind
    split
    · trivial
    · rename_i hfree
      refine Except.Agree.foldlM (hmethods (not_not.mp hkind)) (fun a a' s s' ha hs ↦ ?_) hempty
      obtain ⟨⟨hname, hreturn, hwithin⟩, hdefault⟩ := ha
      cases ht : a.returnType with
      | none =>
          rw [ht, Option.map_none] at hreturn
          rw [hreturn]
          exact hs
      | some t =>
          rw [ht, Option.map_some] at hreturn
          have hkinds := memberKindWith_agree h (hinner hfree) t (hwithin t ht)
          rw [List.map_cons] at hkinds
          rw [hreturn, hname]
          simp only
          rcases hkinds.cases with ⟨k, k', hk, hk', halike⟩ | ⟨e, e', hk, hk'⟩
          · rw [hk, hk']
            exact hdeclare s s' a.name k k' _ _ hs halike hdefault
          · rw [hk, hk']
            trivial

/-- The annotation types have methods with corresponding signatures. -/
def SameSignatures (m n : Model) (f : ClassId → ClassId) (S : ClassId → Prop) : Prop :=
  ∀ c, S c → (m.entry c).kind = .annotationType →
    (n.entry (f c)).signatures = (m.entry c).signatures.map (Method.renameSignature f) ∧
      ∀ x ∈ (m.entry c).signatures, ∀ t, x.2 = some t → t.Within S

theorem SameSignatures.forall₂ (h : m.SameSignatures n f S) (hc : S c) (hkind : (m.entry c).kind = .annotationType) :
    List.Forall₂ (Method.SameSignature f S) (m.entry c).methods (n.entry (f c)).methods := by
  obtain ⟨heq, hwithin⟩ := h c hc hkind
  rw [ClassEntry.signatures, ClassEntry.signatures, List.map_map] at heq
  have hmem : ∀ a ∈ (m.entry c).methods, ∀ t, a.returnType = some t → t.Within S := fun a ha ↦
    hwithin _ (List.mem_map_of_mem ha)
  refine ((List.forall₂_and_left _ _).mpr ⟨hmem, List.forall₂_of_map_eq heq⟩).imp fun a a' ha ↦ ?_
  exact ⟨congrArg Prod.fst ha.2, congrArg Prod.snd ha.2, ha.1⟩

/-- Shapes inside others are derived in both models or in neither. Defaults do not matter for that. -/
theorem shapeWithin_agree (h : m.Corresponds n f S) (hsame : m.SameSignatures n f S) {fuel fuel' : Nat}
    {inside : List ClassId} (hnodup : inside.Nodup) (hinside : ∀ d ∈ inside, S d)
    (hfuel : m.classes.length ≤ fuel + inside.length) (hfuel' : n.classes.length ≤ fuel' + inside.length) (hc : S c) :
    Except.Agree (TypesAlike f c) (m.shapeWithin fuel inside c) (n.shapeWithin fuel' (inside.map f) (f c)) := by
  induction fuel generalizing fuel' inside c with
  | zero =>
      -- all classes are inside already, so the other derivation fails as well
      have hmem := mem_path_of_length_le hnodup (fun d hd ↦ h.knows d (hinside d hd)) (by omega) (h.knows c hc)
      cases fuel' with
      | zero => trivial
      | succ fuel' =>
          simp only [shapeWithin, (List.mem_map_of_injective h.injective).mpr hmem, if_true]
          split <;> trivial
  | succ fuel ih =>
      cases fuel' with
      | zero =>
          have hmem := mem_path_of_length_le_map h.injective hnodup (fun d hd ↦ h.knows' d (hinside d hd)) (by omega)
            (h.knows' c hc)
          simp only [shapeWithin, hmem, if_true]
          split <;> trivial
      | succ fuel' =>
          refine shapeWithin_succ_agree h (D := fun _ _ ↦ True) ⟨rfl, rfl⟩ (fun _ _ _ _ _ _ _ hs _ _ ↦ hs)
            (fun hkind ↦ (hsame.forall₂ hc hkind).imp fun _ _ ha ↦ ⟨ha, trivial⟩) hc fun hfree d hd ↦ ?_
          refine ih (List.nodup_cons.mpr ⟨hfree, hnodup⟩) (List.forall_mem_cons.mpr ⟨hc, hinside⟩) ?_ ?_ hd
          · rw [List.length_cons]
            omega
          · rw [List.length_cons]
            omega

/-- Where the signatures of annotation types correspond and the defaults of one are related, its shapes are. -/
theorem declaredShape?_agree (h : m.Corresponds n f S) (hsame : m.SameSignatures n f S)
    {R : AnnotationShape → AnnotationShape → Prop} {D : Option AnnotationValue → Option AnnotationValue → Prop}
    (hempty : R (.empty m c) (.empty n (f c)))
    (hdeclare : ∀ s s' name k k' v v', R s s' → KindsAlike f S k k' → D v v' →
      R (s.declare name k v) (s'.declare name k' v')) (hc : S c)
    (hdefaults : (m.entry c).isDefined → List.Forall₂ D (m.entry c).defaults (n.entry (f c)).defaults) :
    Option.Rel R (m.declaredShape? c) (n.declaredShape? (f c)) := by
  have hdefined : (n.entry (f c)).isDefined = (m.entry c).isDefined := by
    simp only [ClassEntry.isDefined, h.origin_eq c hc]
  simp only [declaredShape?, hdefined, h.kind_eq c hc]
  split
  · rename_i hdeclared
    have hsigned := hsame.forall₂ hc hdeclared.2
    have hdefaults := hdefaults hdeclared.1
    rw [ClassEntry.defaults, ClassEntry.defaults, List.forall₂_map_left_iff, List.forall₂_map_right_iff] at hdefaults
    have hboth := List.forall₂_iff_zip.mpr ⟨hsigned.length_eq, fun {a a'} ha ↦
      And.intro (List.forall₂_zip hsigned ha) (List.forall₂_zip hdefaults ha)⟩
    have hagree : Except.Agree R (m.shapeWithin (m.classes.length + 1) [] c)
        (n.shapeWithin (n.classes.length + 1) (([] : List ClassId).map f) (f c)) := by
      refine shapeWithin_succ_agree h hempty hdeclare (fun _ ↦ hboth) hc fun _ d hd ↦ ?_
      refine shapeWithin_agree h hsame (List.nodup_singleton c) (List.forall_mem_singleton.mpr hc) ?_ ?_ hd
      · exact Nat.le_succ _
      · exact Nat.le_succ _
    rcases hagree.cases with ⟨s, s', hs, hs', hrelated⟩ | ⟨e, e', hs, hs'⟩
    · change m.shapeOf c = _ at hs
      change n.shapeOf (f c) = _ at hs'
      rw [hs, hs']
      exact .some hrelated
    · change m.shapeOf c = _ at hs
      change n.shapeOf (f c) = _ at hs'
      rw [hs, hs']
      exact .none
  · exact .none

/-- Where the signatures of annotation types correspond, so do the shapes of those whose defaults correspond. -/
theorem declaredShape?_alike (h : m.Corresponds n f S) (hsame : m.SameSignatures n f S) (hc : S c)
    (hdefaults : (n.entry (f c)).defaults = (m.entry c).defaults.map (Option.map (AnnotationValue.rename f))) :
    AnnotationShape.Alike f S (m.declaredShape? c) (n.declaredShape? (f c)) := by
  have hagree : Option.Rel (fun s s' ↦ AnnotationShape.Alike f S (some s) (some s')) (m.declaredShape? c)
      (n.declaredShape? (f c)) := by
    refine declaredShape?_agree h hsame (D := fun v v' ↦ v' = v.map (AnnotationValue.rename f))
      ⟨fun _ ↦ rfl, nofun⟩ ?_ hc fun _ ↦ ?_
    · intro s s' name k k' v v' hs hk hv
      refine ⟨fun other ↦ ?_, fun other member hget ↦ ?_⟩
      · simp only [AnnotationShape.declare, Table.get?_insert]
        split
        · simp [hk.1, hv]
        · exact hs.1 other
      · simp only [AnnotationShape.declare, Table.get?_insert] at hget
        split at hget
        · rw [← Option.some.inj hget]
          exact hk.2
        · exact hs.2 other member hget
    · exact List.forall₂_of_map_eq (h := id) (by rw [List.map_id, hdefaults])
  generalize m.declaredShape? c = shape at hagree
  generalize n.declaredShape? (f c) = shape' at hagree
  cases hagree with
  | some h => exact h
  | none => trivial

end Model
end JavaSource
