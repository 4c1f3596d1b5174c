import JavaSource.Proofs.Declaration.LookValue
import JavaSource.Proofs.Declaration.Placing

/-!
# The two policies for unresolved types

A policy has a say only where a type could not be resolved. Up to the first such type both policies do the same.
There the strict one fails with the name, and the other one makes a placeholder for every name it meets.
-/

namespace JavaSource

/-! ## What is written -/

namespace WrittenType

mutual

/-- The names in a written type that could not be resolved, in order. -/
def unresolvedNames : WrittenType → List String
  | .primitive _ | .typeVar _ | .wildcard none none => []
  | .declared _ args => allUnresolvedNames args
  | .array t => unresolvedNames t
  | .wildcard (some upper) none => unresolvedNames upper
  | .wildcard none (some lower) => unresolvedNames lower
  | .wildcard (some upper) (some lower) => unresolvedNames upper ++ unresolvedNames lower
  | .unresolved name => [name]

def allUnresolvedNames : List WrittenType → List String
  | [] => []
  | t :: ts => unresolvedNames t ++ allUnresolvedNames ts

end

mutual

/-- Whether all of a written type could be resolved. -/
def isResolved : WrittenType → Bool
  | .primitive _ | .typeVar _ | .wildcard none none => true
  | .declared _ args => areResolved args
  | .array t => isResolved t
  | .wildcard (some upper) none => isResolved upper
  | .wildcard none (some lower) => isResolved lower
  | .wildcard (some upper) (some lower) => isResolved upper && isResolved lower
  | .unresolved _ => false

def areResolved : List WrittenType → Bool
  | [] => true
  | t :: ts => isResolved t && areResolved ts

end

theorem allUnresolvedNames_eq (ts : List WrittenType) : allUnresolvedNames ts = ts.flatMap unresolvedNames := by
  induction ts with
  | nil => rfl
  | cons t ts ih => rw [allUnresolvedNames, ih, List.flatMap_cons]

mutual

theorem isResolved_iff : ∀ t : WrittenType, t.isResolved = true ↔ t.unresolvedNames = []
  | .primitive _ | .typeVar _ | .wildcard none none | .unresolved _ => by simp [isResolved, unresolvedNames]
  | .declared _ args => by simp [isResolved, unresolvedNames, areResolved_iff args]
  | .array t => by simp [isResolved, unresolvedNames, isResolved_iff t]
  | .wildcard (some upper) none => by simp [isResolved, unresolvedNames, isResolved_iff upper]
  | .wildcard none (some lower) => by simp [isResolved, unresolvedNames, isResolved_iff lower]
  | .wildcard (some upper) (some lower) => by
      simp [isResolved, unresolvedNames, isResolved_iff upper, isResolved_iff lower]

theorem areResolved_iff : ∀ ts : List WrittenType, areResolved ts = true ↔ allUnresolvedNames ts = []
  | [] => by simp [areResolved, allUnresolvedNames]
  | t :: ts => by simp [areResolved, allUnresolvedNames, isResolved_iff t, areResolved_iff ts]

end

end WrittenType

namespace WrittenValue

mutual

/-- The names in a written value that could not be resolved, in order. -/
def unresolvedNames : WrittenValue → List String
  | .classLiteral t => t.unresolvedNames
  | .array items => unresolvedInItems items
  | .nested _ values => unresolvedInMembers values
  | .bool _ | .int _ | .float _ | .string _ | .char _ | .long _ | .enumConstant _ _ => []

def unresolvedInItems : List WrittenValue → List String
  | [] => []
  | v :: vs => unresolvedNames v ++ unresolvedInItems vs

def unresolvedInMembers : List (String × WrittenValue) → List String
  | [] => []
  | (_, v) :: rest => unresolvedNames v ++ unresolvedInMembers rest

end

mutual

/-- Whether all types in a written value could be resolved. -/
def isResolved : WrittenValue → Bool
  | .classLiteral t => t.isResolved
  | .array items => itemsResolved items
  | .nested _ values => membersResolved values
  | .bool _ | .int _ | .float _ | .string _ | .char _ | .long _ | .enumConstant _ _ => true

def itemsResolved : List WrittenValue → Bool
  | [] => true
  | v :: vs => isResolved v && itemsResolved vs

def membersResolved : List (String × WrittenValue) → Bool
  | [] => true
  | (_, v) :: rest => isResolved v && membersResolved rest

end

mutual

theorem isResolved_iff : ∀ v : WrittenValue, v.isResolved = true ↔ v.unresolvedNames = []
  | .classLiteral t => by simp [isResolved, unresolvedNames, t.isResolved_iff]
  | .array items => by simp [isResolved, unresolvedNames, itemsResolved_iff items]
  | .nested _ values => by simp [isResolved, unresolvedNames, membersResolved_iff values]
  | .bool _ | .int _ | .float _ | .string _ | .char _ | .long _ | .enumConstant _ _ => by
      simp [isResolved, unresolvedNames]

theorem itemsResolved_iff : ∀ vs : List WrittenValue, itemsResolved vs = true ↔ unresolvedInItems vs = []
  | [] => by simp [itemsResolved, unresolvedInItems]
  | v :: vs => by simp [itemsResolved, unresolvedInItems, isResolved_iff v, itemsResolved_iff vs]

theorem membersResolved_iff : ∀ vs : List (String × WrittenValue),
    membersResolved vs = true ↔ unresolvedInMembers vs = []
  | [] => by simp [membersResolved, unresolvedInMembers]
  | (_, v) :: rest => by simp [membersResolved, unresolvedInMembers, isResolved_iff v, membersResolved_iff rest]

end

end WrittenValue

def WrittenAnnotation.unresolvedNames (a : WrittenAnnotation) : List String :=
  WrittenValue.unresolvedInMembers a.values

def WrittenAnnotation.isResolved (a : WrittenAnnotation) : Bool := WrittenValue.membersResolved a.values

namespace MethodDeclaration

/-- The types of a method, but for those in its annotations and in its default. -/
def types (d : MethodDeclaration) : List WrittenType :=
  d.typeParams.filterMap (·.bound) ++ d.returnType.toList ++ d.params.map (·.type) ++ d.throws

/-- The annotations of a method and of its parameters. -/
def allAnnotations (d : MethodDeclaration) : List WrittenAnnotation :=
  d.annotations ++ d.params.flatMap (·.annotations)

end MethodDeclaration

namespace TypeDeclaration

/-- The types of a declared type and of its members, but for those in annotations and in defaults. -/
def types (d : TypeDeclaration) : List WrittenType :=
  d.typeParams.filterMap (·.bound) ++ d.superclass.toList ++ d.interfaces ++ d.fields.map (·.type) ++
    d.methods.flatMap (·.types)

/-- The annotations of a declared type and of its members. -/
def allAnnotations (d : TypeDeclaration) : List WrittenAnnotation :=
  d.fields.flatMap (·.annotations) ++ d.methods.flatMap (·.allAnnotations) ++ d.annotations

def defaults (d : TypeDeclaration) : List WrittenValue := d.methods.filterMap (·.defaultValue)

/-- Whether every type that is written in a declared type could be resolved. -/
def isResolved (d : TypeDeclaration) : Bool :=
  d.types.all (·.isResolved) && d.defaults.all (·.isResolved) && d.allAnnotations.all (·.isResolved)

end TypeDeclaration

/-- Whether every type that is written in a declaration set could be resolved. -/
def Declarations.isResolved (d : Declarations) : Bool := d.elements.all (·.type.isResolved)

/-- The names that could not be resolved in the order in which they are met: first those among the types of all
declared types, then those in the defaults, and last those in the annotations. -/
def Declarations.unresolvedNames (d : Declarations) : List String :=
  d.elements.flatMap (·.type.types.flatMap (·.unresolvedNames)) ++
    d.elements.flatMap (·.type.defaults.flatMap (·.unresolvedNames)) ++
    d.elements.flatMap (·.type.allAnnotations.flatMap (·.unresolvedNames))

theorem Declarations.isResolved_iff (d : Declarations) : d.isResolved = true ↔ d.unresolvedNames = [] := by
  simp only [isResolved, TypeDeclaration.isResolved, List.all_eq_true, Bool.and_eq_true, unresolvedNames,
    List.append_eq_nil_iff, List.flatMap_eq_nil_iff, WrittenType.isResolved_iff, WrittenValue.isResolved_iff,
    WrittenAnnotation.isResolved, WrittenValue.membersResolved_iff, WrittenAnnotation.unresolvedNames]
  exact ⟨fun h ↦ ⟨⟨fun e he ↦ (h e he).1.1, fun e he ↦ (h e he).1.2⟩, fun e he ↦ (h e he).2⟩,
    fun h e he ↦ ⟨⟨h.1.1 e he, h.1.2 e he⟩, h.2 e he⟩⟩

/-! ## Strict steps -/

namespace Assemble

/-- The step `b` meets the unresolved names in order and makes a placeholder for each. The step `a` does the same
as long as no name is met, and fails at the first one. -/
structure Strict {α : Type} (s : Assembly) (a b : Assemble α) (names : List String) : Prop where
  follows : (a.exec s = b.exec s ∧ ∀ v t, b.Yields s v t → names = []) ∨
    ∃ name t, names.head? = some name ∧ a.exec s = (.error (.unresolvedType name), t)
  keys_eq : ∀ v t, b.Yields s v t →
    t.model.placeholders.keys = names.foldl addOnce s.model.placeholders.keys

namespace Strict

variable {α β : Type} {s : Assembly} {a b : Assemble α} {names others : List String}

theorem of_eq (h : Strict s a b names) (hnames : names = others) : Strict s a b others := hnames ▸ h

theorem refl (h : ∀ v t, a.Yields s v t → t.model.placeholders = s.model.placeholders) : Strict s a a [] :=
  ⟨.inl ⟨rfl, fun _ _ _ ↦ rfl⟩, fun v t hv ↦ by rw [h v t hv, List.foldl_nil]⟩

theorem throw (e : DeclarationError) (names : List String) :
    Strict s (throw e : Assemble α) (MonadExcept.throw e) names :=
  ⟨.inl ⟨rfl, fun _ _ h ↦ absurd h yields_throw⟩, fun _ _ h ↦ absurd h yields_throw⟩

theorem pure (v : α) : Strict s (Pure.pure v) (Pure.pure v) [] :=
  .refl fun _ _ h ↦ by rw [(yields_pure.mp h).2]

theorem ofExcept (x : Except ModelError α) : Strict s (Assemble.ofExcept x) (Assemble.ofExcept x) [] :=
  .refl fun _ _ h ↦ by rw [(yields_ofExcept.mp h).2]

theorem liftExcept (x : Except DeclarationError α) : Strict s (liftExcept x : Assemble α) (liftExcept x) [] :=
  .refl fun _ _ h ↦ by rw [(yields_liftExcept.mp h).2]

theorem model : Strict s Assemble.model Assemble.model [] :=
  .refl fun _ _ h ↦ by rw [(yields_model.mp h).2]

theorem build {b : Build α} (h : b.KeepsPlaceholders) : Strict s (Assemble.build b) (Assemble.build b) [] :=
  .refl fun v t hv ↦ by
    obtain ⟨m, hm, rfl⟩ := yields_build.mp hv
    have hkeep := h s.model
    rwa [hm] at hkeep

theorem update (c : ClassId) (f : ClassEntry → Except ModelError ClassEntry) :
    Strict s (Assemble.update c f) (Assemble.update c f) [] :=
  .refl fun _ _ h ↦ by
    obtain ⟨_, -, rfl⟩ := yields_update.mp h
    rfl

theorem modify (c : ClassId) (f : ClassEntry → ClassEntry) :
    Strict s (Assemble.modify c f) (Assemble.modify c f) [] := update c _

theorem bind (h : Strict s a b names) {f g : α → Assemble β}
    (hf : ∀ v t, b.Yields s v t → Strict t (f v) (g v) others) :
    Strict s (a >>= f) (b >>= g) (names ++ others) where
  follows := by
    rw [exec_bind, exec_bind]
    rcases h.follows with ⟨hsame, hnil⟩ | ⟨name, t, hname, hfails⟩
    · rw [hsame]
      rcases hb : b.exec s with ⟨e | v, t⟩
      · refine .inl ⟨rfl, fun w k hw ↦ ?_⟩
        obtain ⟨_, _, hyields, -⟩ := yields_bind.mp hw
        rw [Yields, hb] at hyields
        cases hyields
      · -- nothing was met before the second step
        rcases (hf v t hb).follows with ⟨hsame', hnil'⟩ | ⟨name, k, hname, hfails⟩
        · refine .inl ⟨hsame', fun w k hw ↦ ?_⟩
          obtain ⟨v', t', hv', hw'⟩ := yields_bind.mp hw
          obtain ⟨rfl, rfl⟩ : v = v' ∧ t = t' := by simpa [Yields, hb] using hv'
          rw [hnil v t hb, hnil' w k hw', List.nil_append]
        · refine .inr ⟨name, k, ?_, hfails⟩
          rwa [hnil v t hb, List.nil_append]
    · rw [hfails]
      refine .inr ⟨name, t, ?_, rfl⟩
      rw [List.head?_append, hname, Option.some_or]
  keys_eq w t hw := by
    obtain ⟨v, k, hv, hw⟩ := yields_bind.mp hw
    rw [(hf v k hv).keys_eq w t hw, h.keys_eq v k hv, List.foldl_append]

theorem map (h : Strict s a b names) (f : α → β) : Strict s (f <$> a) (f <$> b) names := by
  rw [map_eq_pure_bind, map_eq_pure_bind]
  exact (h.bind fun v _ _ ↦ pure (f v)).of_eq (List.append_nil _)

/-- Nothing comes after an error. -/
theorem throw_bind (e : DeclarationError) (names : List String) {f g : α → Assemble β} :
    Strict s ((MonadExcept.throw e : Assemble α) >>= f) ((MonadExcept.throw e : Assemble α) >>= g) names :=
  ((throw e names).bind fun _ _ h ↦ absurd h yields_throw).of_eq (List.append_nil names)

theorem forM {f g : α → Assemble PUnit} {names : α → List String} {P : Assembly → Prop} {l : List α} (hs : P s)
    (h : ∀ a ∈ l, ∀ s, P s → Strict s (f a) (g a) (names a) ∧ ∀ t, (g a).Yields s ⟨⟩ t → P t) :
    Strict s (l.forM f) (l.forM g) (l.flatMap names) := by
  induction l generalizing s with
  | nil => exact pure PUnit.unit
  | cons a l ih =>
      obtain ⟨hhead, hkeep⟩ := h a (List.mem_cons_self ..) s hs
      exact hhead.bind fun _ t ht ↦ ih (hkeep t ht) fun b hb ↦ h b (List.mem_cons_of_mem _ hb)

/-- Steps that are strict everywhere, one for each item. -/
theorem each {f g : α → Assemble PUnit} {names : α → List String} (h : ∀ a s, Strict s (f a) (g a) (names a))
    (l : List α) : Strict s (l.forM f) (l.forM g) (l.flatMap names) :=
  forM (P := fun _ ↦ True) trivial fun a _ s _ ↦ ⟨h a s, fun _ _ ↦ trivial⟩

theorem mapM {f g : α → Assemble β} {names : α → List String} (h : ∀ a s, Strict s (f a) (g a) (names a))
    (l : List α) : Strict s (l.mapM f) (l.mapM g) (l.flatMap names) := by
  induction l generalizing s with
  | nil =>
      rw [List.mapM_nil, List.mapM_nil]
      exact pure []
  | cons a l ih =>
      rw [List.mapM_cons, List.mapM_cons]
      refine ((h a s).bind fun v _ _ ↦ ih.bind fun vs _ _ ↦ pure (v :: vs)).of_eq ?_
      rw [List.append_nil, List.flatMap_cons]

end Strict
end Assemble

/-! ## Looking things up -/

namespace Context

open Assemble

variable (names : Table ClassId) {s : Assembly}

theorem strict_shape? (c : ClassId) : Strict s (shape? c) (shape? c) [] :=
  .refl fun v t h ↦ by
    rcases Assembly.yields_shape?.mp h with ⟨-, rfl⟩ | ⟨-, -, rfl⟩ <;> rfl

theorem strict_classOf (name : String) :
    Strict s (classOf ⟨.fail, names⟩ name) (classOf ⟨.keep, names⟩ name) [] := by
  have hsame : classOf ⟨.fail, names⟩ name = classOf ⟨.keep, names⟩ name := rfl
  rw [hsame, classOf]
  split
  · exact .pure _
  · exact .build (Model.keepsPlaceholders_reference name)

/-- The two policies part at a type that could not be resolved. -/
theorem strict_unresolved (scope : Scope) (name : String) :
    Strict s (typeOf ⟨.fail, names⟩ scope (.unresolved name)) (typeOf ⟨.keep, names⟩ scope (.unresolved name))
      [name] := by
  rw [typeOf, typeOf]
  refine ⟨.inr ⟨name, s, rfl, rfl⟩, fun v t h ↦ ?_⟩
  obtain ⟨c, h, -⟩ := yields_map.mp h
  obtain ⟨m, hm, rfl⟩ := yields_build.mp h
  have hkeys := Model.keys_placeholders_of_placeholder (m := s.model) name
  rwa [hm] at hkeys

mutual

theorem strict_typeOf (scope : Scope) : ∀ (w : WrittenType) (s : Assembly),
    Strict s (typeOf ⟨.fail, names⟩ scope w) (typeOf ⟨.keep, names⟩ scope w) w.unresolvedNames
  | .primitive name, s => by
      rw [typeOf, typeOf]
      split
      · exact .pure _
      · exact .throw _ _
  | .declared name args, s => by
      rw [typeOf, typeOf]
      refine (strict_classOf names name).bind fun c t _ ↦ ?_
      cases args with
      | nil => exact .pure _
      | cons w ws =>
          refine ((strict_typesOf scope (w :: ws) t).bind fun ts _ _ ↦ .ofExcept _).of_eq ?_
          rw [List.append_nil]
  | .array w, s => by
      rw [typeOf, typeOf]
      exact ((strict_typeOf scope w s).bind fun t _ _ ↦ .ofExcept _).of_eq (List.append_nil _)
  | .typeVar name, s => by
      rw [typeOf, typeOf]
      split
      · exact .pure _
      · exact .throw _ _
  | .wildcard none none, s => by
      rw [typeOf, typeOf]
      exact .pure _
  | .wildcard (some upper) none, s => by
      rw [typeOf, typeOf]
      exact (strict_typeOf scope upper s).map _
  | .wildcard none (some lower), s => by
      rw [typeOf, typeOf]
      exact (strict_typeOf scope lower s).map _
  | .wildcard (some _) (some _), s => by
      rw [typeOf, typeOf]
      exact .throw _ _
  | .unresolved name, s => strict_unresolved names scope name

theorem strict_typesOf (scope : Scope) : ∀ (ws : List WrittenType) (s : Assembly),
    Strict s (typesOf ⟨.fail, names⟩ scope ws) (typesOf ⟨.keep, names⟩ scope ws)
      (WrittenType.allUnresolvedNames ws)
  | [], s => by
      rw [typesOf, typesOf]
      exact .pure _
  | w :: ws, s => by
      rw [typesOf, typesOf]
      refine ((strict_typeOf scope w s).bind fun _ t _ ↦ (strict_typesOf scope ws t).bind fun _ _ _ ↦
        .pure _).of_eq ?_
      rw [List.append_nil, WrittenType.allUnresolvedNames]

end

theorem strict_typeOf? (scope : Scope) (w : Option WrittenType) :
    Strict s (typeOf? ⟨.fail, names⟩ scope w) (typeOf? ⟨.keep, names⟩ scope w)
      (w.toList.flatMap (·.unresolvedNames)) := by
  cases w with
  | none => exact .pure none
  | some w => exact ((strict_typeOf names scope w s).map some).of_eq (List.append_nil _).symm

mutual

theorem strict_valueOf (member : String) : ∀ (hint : Option MemberKind) (w : WrittenValue) (s : Assembly),
    Strict s (valueOf ⟨.fail, names⟩ member hint w) (valueOf ⟨.keep, names⟩ member hint w) w.unresolvedNames
  | hint, .bool _, s | hint, .int _, s | hint, .float _, s | hint, .char _, s | hint, .long _, s => by
      rw [valueOf, valueOf]
      exact .pure _
  | hint, .string text, s => by
      rw [valueOf, valueOf]
      split
      · exact .pure _
      · exact .throw _ _
  | hint, .array items, s => by
      rw [valueOf, valueOf]
      exact (strict_itemsOf member _ items s).map _
  | hint, .classLiteral t, s => by
      rw [valueOf, valueOf]
      exact (strict_typeOf names _ t s).map _
  | hint, .enumConstant type constant, s => by
      rw [valueOf, valueOf]
      exact (strict_classOf names type).bind fun c _ _ ↦ .pure _
  | hint, .nested type values, s => by
      rw [valueOf, valueOf]
      refine ((strict_classOf names type).bind fun c _ _ ↦ (strict_shape? c).bind fun shape t _ ↦
        (strict_valuesOf shape values t).bind fun vs _ _ ↦ (Strict.ofExcept _).map _).of_eq ?_
      rw [List.nil_append, List.nil_append, List.append_nil, WrittenValue.unresolvedNames]

theorem strict_itemsOf (member : String) : ∀ (hint : Option MemberKind) (ws : List WrittenValue) (s : Assembly),
    Strict s (itemsOf ⟨.fail, names⟩ member hint ws) (itemsOf ⟨.keep, names⟩ member hint ws)
      (WrittenValue.unresolvedInItems ws)
  | hint, [], s => by
      rw [itemsOf, itemsOf]
      exact .pure _
  | hint, w :: ws, s => by
      rw [itemsOf, itemsOf]
      split
      · exact .throw_bind _ _
      · refine ((strict_valueOf member hint w s).bind fun _ t _ ↦
          (strict_itemsOf member hint ws t).bind fun _ _ _ ↦ .pure _).of_eq ?_
        rw [List.append_nil, WrittenValue.unresolvedInItems]

theorem strict_valuesOf (shape : Option AnnotationShape) : ∀ (ws : List (String × WrittenValue)) (s : Assembly),
    Strict s (valuesOf ⟨.fail, names⟩ shape ws) (valuesOf ⟨.keep, names⟩ shape ws)
      (WrittenValue.unresolvedInMembers ws)
  | [], s => by
      rw [valuesOf, valuesOf]
      exact .pure _
  | (name, w) :: ws, s => by
      rw [valuesOf, valuesOf]
      refine ((strict_valueOf name _ w s).bind fun _ t _ ↦ (strict_valuesOf shape ws t).bind fun _ _ _ ↦
        .pure _).of_eq ?_
      rw [List.append_nil, WrittenValue.unresolvedInMembers]

end

theorem strict_useOf (a : WrittenAnnotation) :
    Strict s (useOf ⟨.fail, names⟩ a) (useOf ⟨.keep, names⟩ a) a.unresolvedNames := by
  unfold useOf
  refine ((strict_classOf names a.type).bind fun c _ _ ↦ (strict_shape? c).bind fun shape t _ ↦
    (strict_valuesOf names shape a.values t).bind fun vs _ _ ↦ .ofExcept _).of_eq ?_
  rw [List.nil_append, List.nil_append, List.append_nil, WrittenAnnotation.unresolvedNames]

/-! ## Working on classes -/

theorem strict_typeParam (scope : Scope) (d : TypeParamDeclaration) :
    Strict s (typeParam ⟨.fail, names⟩ scope d) (typeParam ⟨.keep, names⟩ scope d)
      (d.bound.toList.flatMap (·.unresolvedNames)) :=
  ((strict_typeOf? names scope d.bound).bind fun _ _ _ ↦ .pure _).of_eq (List.append_nil _)

theorem strict_typedParam (scope : Scope) (d : ParamDeclaration) :
    Strict s (typedParam ⟨.fail, names⟩ scope d) (typedParam ⟨.keep, names⟩ scope d) d.type.unresolvedNames :=
  ((strict_typeOf names scope d.type s).bind fun _ _ _ ↦ .pure _).of_eq (List.append_nil _)

theorem strict_setSuperclass (scope : Scope) (c : ClassId) (w : WrittenType) :
    Strict s (setSuperclass ⟨.fail, names⟩ scope c w) (setSuperclass ⟨.keep, names⟩ scope c w)
      w.unresolvedNames := by
  refine ((strict_typeOf names scope w s).bind fun t k _ ↦ ?_).of_eq (List.append_nil _)
  refine Strict.model.bind fun m j _ ↦ ?_
  split
  · exact .update _ _
  · exact .pure _

theorem strict_superclass (scope : Scope) (c : ClassId) (w : Option WrittenType) :
    Strict s (w.forM (setSuperclass ⟨.fail, names⟩ scope c)) (w.forM (setSuperclass ⟨.keep, names⟩ scope c))
      (w.toList.flatMap (·.unresolvedNames)) := by
  cases w with
  | none => exact .pure PUnit.unit
  | some w => exact (strict_setSuperclass names scope c w).of_eq (List.append_nil _).symm

theorem strict_addField (scope : Scope) (c : ClassId) (d : FieldDeclaration) :
    Strict s (addField ⟨.fail, names⟩ scope c d) (addField ⟨.keep, names⟩ scope c d) d.type.unresolvedNames :=
  ((strict_typeOf names scope d.type s).bind fun _ _ _ ↦ (Strict.update _ _).bind fun _ _ _ ↦
    .modify _ _).of_eq (List.append_nil _)

theorem strict_addParams (c : ClassId) (i : Nat) (hasVarargs : Bool) : ∀ (ps : List TypedParam) (s : Assembly),
    Strict s (addParams c i hasVarargs ps) (addParams c i hasVarargs ps) []
  | [], _ => .pure _
  | [_], _ => .update _ _
  | _ :: p :: ps, _ => (Strict.update c _).bind fun _ t _ ↦ strict_addParams c i hasVarargs (p :: ps) t

theorem strict_addSignature (c : ClassId) (d : MethodDeclaration) (returnType : JavaType) :
    Strict s (addSignature c d returnType) (addSignature c d returnType) [] := by
  unfold addSignature
  dsimp only
  split
  · exact .modify _ _
  · exact .update _ _

theorem strict_updates (c : ClassId) (f : TypeVar → ClassEntry → Except ModelError ClassEntry) (vs : List TypeVar) :
    Strict s (vs.forM fun v ↦ update c (f v)) (vs.forM fun v ↦ update c (f v)) [] :=
  (Strict.each (fun v _ ↦ .update c (f v)) vs).of_eq (by simp)

theorem strict_addMethod (outer : Scope) (c : ClassId) (d : MethodDeclaration) :
    Strict s (addMethod ⟨.fail, names⟩ outer c d) (addMethod ⟨.keep, names⟩ outer c d)
      (d.types.flatMap (·.unresolvedNames)) := by
  refine (Strict.model.bind fun m _ _ ↦ (Strict.mapM (fun p _ ↦ strict_typeParam names _ p) d.typeParams).bind
    fun vs _ _ ↦ (strict_typeOf? names _ d.returnType).bind fun r _ _ ↦
    (Strict.mapM (fun p _ ↦ strict_typedParam names _ p) d.params).bind fun ps _ _ ↦
    (strict_typesOf names _ d.throws _).bind fun ts _ _ ↦ (strict_addSignature _ _ _).bind fun _ _ _ ↦
    (strict_updates _ _ vs).bind fun _ _ _ ↦ (strict_addParams _ _ _ _ _).bind fun _ _ _ ↦ .modify _ _).of_eq ?_
  simp only [MethodDeclaration.types, WrittenType.allUnresolvedNames_eq, List.flatMap_append, List.append_assoc,
    List.nil_append, List.append_nil, List.flatMap_map, List.filterMap_eq_flatMap_toList, List.flatMap_assoc]

theorem strict_fill (p : Placed) :
    Strict s (fill ⟨.fail, names⟩ p) (fill ⟨.keep, names⟩ p) (p.type.types.flatMap (·.unresolvedNames)) := by
  have hupdate : ∀ (d : TypeParamDeclaration) (s : Assembly),
      Strict s (typeParam ⟨.fail, names⟩ p.scope d >>= fun v ↦ update p.id (·.generify v))
        (typeParam ⟨.keep, names⟩ p.scope d >>= fun v ↦ update p.id (·.generify v))
        (d.bound.toList.flatMap (·.unresolvedNames)) := fun d _ ↦
    ((strict_typeParam names p.scope d).bind fun _ _ _ ↦ .update _ _).of_eq (List.append_nil _)
  have hinterface : ∀ (w : WrittenType) (s : Assembly),
      Strict s (typeOf ⟨.fail, names⟩ p.scope w >>= fun t ↦ update p.id (·.addInterface t))
        (typeOf ⟨.keep, names⟩ p.scope w >>= fun t ↦ update p.id (·.addInterface t)) w.unresolvedNames :=
    fun w s ↦ ((strict_typeOf names p.scope w s).bind fun _ _ _ ↦ .update _ _).of_eq (List.append_nil _)
  refine ((Strict.each hupdate p.type.typeParams).bind
    fun _ _ _ ↦ (strict_superclass names p.scope p.id p.type.superclass).bind fun _ _ _ ↦
    (Strict.each hinterface p.type.interfaces).bind fun _ _ _ ↦ (Strict.modify _ _).bind fun _ _ _ ↦
    (Strict.each (fun name _ ↦ .update _ _) p.type.constants).bind fun _ _ _ ↦
    (Strict.each (fun d _ ↦ strict_addField names p.scope p.id d) p.type.fields).bind fun _ _ _ ↦
    Strict.each (fun d _ ↦ strict_addMethod names p.scope p.id d) p.type.methods).of_eq ?_
  simp [TypeDeclaration.types, List.filterMap_eq_flatMap_toList, List.flatMap_assoc, List.flatMap_map]

theorem strict_annotate (a : DeferredAnnotation) :
    Strict s (annotate ⟨.fail, names⟩ a) (annotate ⟨.keep, names⟩ a) a.written.unresolvedNames :=
  ((strict_useOf names a.written).bind fun _ _ _ ↦ .modify _ _).of_eq (List.append_nil _)

/-- A default is looked up if there is a method for it. -/
theorem strict_setDefault {d : DeferredDefault} (hd : d.method < (s.model.entry d.id).methods.length) :
    Strict s (setDefault ⟨.fail, names⟩ d) (setDefault ⟨.keep, names⟩ d) d.value.unresolvedNames := by
  unfold setDefault
  refine Strict.model.bind fun m t hm ↦ ?_
  obtain ⟨rfl, rfl⟩ := yields_model.mp hm
  rw [List.getElem?_eq_getElem hd]
  exact ((strict_valueOf names _ _ d.value s).bind fun _ _ _ ↦ .modify _ _).of_eq (List.append_nil _)

end Context

/-! ## Declaration sets -/

namespace TypeDeclaration

open Assemble

variable {s : Assembly}

theorem strict_define (owner : Model.Owner) (t : TypeDeclaration) :
    Strict s (t.define owner) (t.define owner) [] :=
  (Strict.liftExcept t.classKind).bind fun kind _ _ ↦ .build (Model.keepsPlaceholders_defineClass owner _ t.name kind)

theorem strict_placeAll (owner : Model.Owner) (outer : Scope) (ts : List TypeDeclaration) :
    Strict s (placeAll owner outer ts) (placeAll owner outer ts) [] := by
  induction ts using list_induction generalizing owner outer s with
  | nil => exact .pure _
  | cons t ts ihn ih =>
      rw [placeAll, place_eq]
      refine (Strict.bind ?_ fun first _ _ ↦ (ih owner outer).bind fun others _ _ ↦ .pure _).of_eq
        (List.nil_append [])
      exact (t.strict_define owner).bind fun c _ _ ↦ (ihn _ _).bind fun others _ _ ↦ .pure _

end TypeDeclaration

namespace Declarations

open Assemble

variable {s : Assembly}

theorem strict_place (d : Declarations) : Strict s d.place d.place [] := by
  have hpackage : ∀ (p : PackageDeclaration) (s : Assembly), Strict s p.place p.place [] := fun p s ↦
    (Strict.build (Model.keepsPlaceholders_package p.name)).bind fun _ _ _ ↦
      TypeDeclaration.strict_placeAll _ _ p.types
  exact ((Strict.mapM hpackage d.packages).bind fun _ _ _ ↦ .pure _).of_eq (by simp)

end Declarations
end JavaSource
