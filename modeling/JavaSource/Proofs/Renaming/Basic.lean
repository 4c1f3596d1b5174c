import Mathlib.Data.List.Basic
import JavaSource.Declaration.Values
import JavaSource.Proofs.Rendering.Mention

/-!
# Other handles for classes

A handle only tells classes apart. Types, annotations and members can be given other handles throughout, and as
long as different classes get different ones, whatever compares types and values comes out the same.
-/

namespace JavaSource

variable {f : ClassId → ClassId}

/-! ## Types -/

namespace JavaType

mutual

/-- The type with other handles. -/
def rename (f : ClassId → ClassId) : JavaType → JavaType
  | .primitive p => .primitive p
  | .reference c => .reference (f c)
  | .array t => .array (rename f t)
  | .narrowed c args => .narrowed (f c) (renameEach f args)
  | .var name bound => .var name (renameOption f bound)
  | .wildcard => .wildcard
  | .wildcardExtends t => .wildcardExtends (rename f t)
  | .wildcardSuper t => .wildcardSuper (rename f t)
  | .anonymous c => .anonymous (f c)

def renameEach (f : ClassId → ClassId) : List JavaType → List JavaType
  | [] => []
  | t :: ts => rename f t :: renameEach f ts

def renameOption (f : ClassId → ClassId) : Option JavaType → Option JavaType
  | none => none
  | some t => some (rename f t)

end

theorem renameEach_eq_map (ts : List JavaType) : renameEach f ts = ts.map (rename f) := by
  induction ts with
  | nil => rfl
  | cons t ts ih => rw [renameEach, ih, List.map_cons]

mutual

theorem rename_inj (hf : Function.Injective f) : ∀ {s t : JavaType}, s.rename f = t.rename f → s = t
  | .primitive _, t, h | .wildcard, t, h => by
      cases t <;> simp_all [rename]
  | .reference _, t, h | .anonymous _, t, h => by
      cases t <;> simp_all [rename, hf.eq_iff]
  | .array s, t, h | .wildcardExtends s, t, h | .wildcardSuper s, t, h => by
      cases t <;> simp only [rename, reduceCtorEq, array.injEq, wildcardExtends.injEq, wildcardSuper.injEq] at h
      rw [rename_inj hf h]
  | .narrowed c args, t, h => by
      cases t <;> simp only [rename, reduceCtorEq, narrowed.injEq] at h
      rw [hf h.1, renameEach_inj hf h.2]
  | .var name bound, t, h => by
      cases t <;> simp only [rename, reduceCtorEq, var.injEq] at h
      rw [h.1, renameOption_inj hf h.2]

theorem renameEach_inj (hf : Function.Injective f) : ∀ {ss ts : List JavaType},
    renameEach f ss = renameEach f ts → ss = ts
  | [], [], _ => rfl
  | [], _ :: _, h => by simp [renameEach] at h
  | _ :: _, [], h => by simp [renameEach] at h
  | s :: ss, t :: ts, h => by
      simp only [renameEach, List.cons.injEq] at h
      rw [rename_inj hf h.1, renameEach_inj hf h.2]

theorem renameOption_inj (hf : Function.Injective f) : ∀ {s t : Option JavaType},
    renameOption f s = renameOption f t → s = t
  | none, none, _ => rfl
  | none, some _, h => by simp [renameOption] at h
  | some _, none, h => by simp [renameOption] at h
  | some s, some t, h => by
      simp only [renameOption, Option.some.injEq] at h
      rw [rename_inj hf h]

end

theorem rename_injective (hf : Function.Injective f) : Function.Injective (rename f) := fun _ _ ↦ rename_inj hf

@[simp] theorem raw_rename (t : JavaType) : (t.rename f).raw = t.raw.rename f := by
  cases t <;> rfl

@[simp] theorem classId?_rename (t : JavaType) : (t.rename f).classId? = t.classId?.map f := by
  cases t <;> rfl

@[simp] theorem component?_rename (t : JavaType) : (t.rename f).component? = t.component?.map (rename f) := by
  cases t <;> rfl

end JavaType

namespace ClassType

def rename (f : ClassId → ClassId) (t : ClassType) : ClassType := ⟨f t.basis, t.args.map (·.map (JavaType.rename f))⟩

@[simp] theorem toType_rename (t : ClassType) : (t.rename f).toType = t.toType.rename f := by
  obtain ⟨c, _ | args⟩ := t <;> simp [rename, toType, JavaType.rename, JavaType.renameEach_eq_map]

theorem ofType?_rename (t : JavaType) : ofType? (t.rename f) = (ofType? t).map (rename f) := by
  cases t with
  | narrowed c args => simp [JavaType.rename, JavaType.renameEach_eq_map, ofType?, rename]
  | _ => rfl

theorem rename_injective (hf : Function.Injective f) : Function.Injective (rename f) := by
  intro s t h
  have htype : s.toType.rename f = t.toType.rename f := by rw [← toType_rename, h, toType_rename]
  have hsome : some s = some t := by
    rw [← ofType?_toType s, JavaType.rename_inj hf htype, ofType?_toType]
  exact Option.some.inj hsome

end ClassType

def TypeVar.rename (f : ClassId → ClassId) (v : TypeVar) : TypeVar := ⟨v.name, v.bound.map (JavaType.rename f)⟩

theorem addOnce_map {α β : Type} [DecidableEq α] [DecidableEq β] {g : α → β} (hg : Function.Injective g)
    (l : List α) (a : α) : addOnce (l.map g) (g a) = (addOnce l a).map g := by
  unfold addOnce
  simp only [List.mem_map_of_injective hg]
  split <;> simp

theorem foldl_addOnce_map {α β : Type} [DecidableEq α] [DecidableEq β] {g : α → β} (hg : Function.Injective g)
    (as l : List α) : (as.map g).foldl addOnce (l.map g) = (as.foldl addOnce l).map g := by
  induction as generalizing l with
  | nil => rfl
  | cons a as ih => rw [List.map_cons, List.foldl_cons, List.foldl_cons, addOnce_map hg, ih]

/-! ## Annotations -/

namespace Table

variable {α β : Type}

theorem find_map (g : α → β) (name : String) (l : List (String × α)) :
    find name (l.map fun x ↦ (x.1, g x.2)) = (find name l).map g := by
  induction l with
  | nil => rfl
  | cons x l ih =>
      rw [List.map_cons, find, find]
      split
      · rfl
      · exact ih

theorem put_map (g : α → β) (name : String) (a : α) (l : List (String × α)) :
    put name (g a) (l.map fun x ↦ (x.1, g x.2)) = (put name a l).map fun x ↦ (x.1, g x.2) := by
  induction l with
  | nil => rfl
  | cons x l ih =>
      rw [List.map_cons, put, put]
      split
      · rfl
      · rw [ih, List.map_cons]

/-- The table with other values under the same names. -/
def map (g : α → β) (t : Table α) : Table β := ⟨t.entries.map fun x ↦ (x.1, g x.2)⟩

@[simp] theorem get?_map (g : α → β) (t : Table α) (name : String) : (t.map g).get? name = (t.get? name).map g :=
  find_map g name t.entries

@[simp] theorem insert_map (g : α → β) (t : Table α) (name : String) (a : α) :
    (t.map g).insert name (g a) = (t.insert name a).map g :=
  congrArg mk (put_map g name a t.entries)

@[simp] theorem values_map (g : α → β) (t : Table α) : (t.map g).values = t.values.map g := by
  simp [values, map, Function.comp_def]

end Table

namespace AnnotationValue

mutual

def rename (f : ClassId → ClassId) : AnnotationValue → AnnotationValue
  | .bool b => .bool b
  | .int n => .int n
  | .long n => .long n
  | .float x => .float x
  | .double x => .double x
  | .char c => .char c
  | .string s => .string s
  | .classLiteral t => .classLiteral (t.rename f)
  | .enumConstant c constant => .enumConstant (f c) constant
  | .nested c members => .nested (f c) (renameMembers f members)
  | .array items => .array (renameEach f items)

def renameMembers (f : ClassId → ClassId) : List (String × AnnotationValue) → List (String × AnnotationValue)
  | [] => []
  | (name, v) :: rest => (name, rename f v) :: renameMembers f rest

def renameEach (f : ClassId → ClassId) : List AnnotationValue → List AnnotationValue
  | [] => []
  | v :: vs => rename f v :: renameEach f vs

end

theorem renameMembers_eq_map (members : List (String × AnnotationValue)) :
    renameMembers f members = members.map fun x ↦ (x.1, x.2.rename f) := by
  induction members with
  | nil => rfl
  | cons x rest ih => rw [renameMembers, ih, List.map_cons]

theorem renameEach_eq_map (vs : List AnnotationValue) : renameEach f vs = vs.map (rename f) := by
  induction vs with
  | nil => rfl
  | cons v vs ih => rw [renameEach, ih, List.map_cons]

mutual

theorem same_rename (hf : Function.Injective f) : ∀ a b : AnnotationValue,
    (a.rename f).same (b.rename f) = a.same b
  | .bool _, b | .int _, b | .long _, b | .float _, b | .double _, b | .char _, b | .string _, b => by
      cases b <;> rfl
  | .classLiteral s, b => by
      cases b with
      | classLiteral t => simp [rename, same, (JavaType.rename_injective hf).eq_iff]
      | _ => rfl
  | .enumConstant c s, b => by
      cases b with
      | enumConstant d t => simp [rename, same, hf.eq_iff]
      | _ => rfl
  | .nested c xs, b => by
      cases b with
      | nested d ys =>
          have hlength : ∀ zs : List (String × AnnotationValue), (renameMembers f zs).length = zs.length :=
            fun zs ↦ by rw [renameMembers_eq_map, List.length_map]
          simp [rename, same, hf.eq_iff, hlength, sameMembers_rename hf xs ys]
      | _ => rfl
  | .array xs, b => by
      cases b with
      | array ys => simp [rename, same, sameItems_rename hf xs ys]
      | _ => rfl

theorem sameMembers_rename (hf : Function.Injective f) : ∀ xs ys : List (String × AnnotationValue),
    sameMembers (renameMembers f xs) (renameMembers f ys) = sameMembers xs ys
  | [], _ => rfl
  | (name, x) :: xs, ys => by
      rw [renameMembers, sameMembers, sameMembers, sameMembers_rename hf xs ys, renameMembers_eq_map ys,
        Table.find_map]
      cases Table.find name ys with
      | none => rfl
      | some y => simp only [Option.map_some, same_rename hf x y]

theorem sameItems_rename (hf : Function.Injective f) : ∀ xs ys : List AnnotationValue,
    sameItems (renameEach f xs) (renameEach f ys) = sameItems xs ys
  | [], [] | [], _ :: _ | _ :: _, [] => rfl
  | x :: xs, y :: ys => by
      rw [renameEach, renameEach, sameItems, sameItems]
      simp only [same_rename hf x y, sameItems_rename hf xs ys]

end

end AnnotationValue

namespace AnnotationUse

def rename (f : ClassId → ClassId) (u : AnnotationUse) : AnnotationUse :=
  ⟨f u.type, u.members.map (AnnotationValue.rename f)⟩

theorem set_rename (u : AnnotationUse) (name : String) (v : AnnotationValue) :
    (u.rename f).set name (v.rename f) = (u.set name v).rename f := by
  simp [rename, set]

theorem use_rename (u : AnnotationUse) : AnnotationValue.use (u.rename f) = (AnnotationValue.use u).rename f := by
  simp [AnnotationValue.use, rename, AnnotationValue.rename, AnnotationValue.renameMembers_eq_map, Table.map]

end AnnotationUse

namespace MemberKind

/-- The kind with other handles, without what is inside an annotation. Whether a member takes a value does not
depend on that. -/
def via (f : ClassId → ClassId) : MemberKind → MemberKind
  | .enum c => .enum (f c)
  | .nested c _ _ => .nested (f c) "" []
  | .array k => .array (via f k)
  | k => k

theorem acceptsSingle_via (hf : Function.Injective f) (k : MemberKind) (v : AnnotationValue) :
    (k.via f).acceptsSingle (v.rename f) = k.acceptsSingle v := by
  cases k <;> cases v <;> simp [via, acceptsSingle, AnnotationValue.rename, hf.eq_iff]

theorem accepts_via (hf : Function.Injective f) : ∀ (k : MemberKind) (v : AnnotationValue),
    (k.via f).accepts (v.rename f) = k.accepts v
  | .array k, .array items => by
      simp [via, accepts, AnnotationValue.rename, AnnotationValue.renameEach_eq_map, List.all_map, Function.comp_def,
        accepts_via hf k]
  | .array k, .bool _ | .array k, .int _ | .array k, .long _ | .array k, .float _ | .array k, .double _
  | .array k, .char _ | .array k, .string _ | .array k, .classLiteral _ | .array k, .enumConstant _ _
  | .array k, .nested _ _ => accepts_via hf k _
  | .bool, v | .int, v | .long, v | .float, v | .double, v | .char, v | .string, v | .classLiteral, v
  | .enum _, v | .nested _ _ _, v => acceptsSingle_via hf _ v

@[simp] theorem itemKind_via (k : MemberKind) : (k.via f).itemKind = k.itemKind.via f := by
  cases k <;> rfl

end MemberKind

/-! ## Members and classes -/

def Field.rename (f : ClassId → ClassId) (x : Field) : Field :=
  { x with type := x.type.rename f, annotations := x.annotations.map (AnnotationUse.rename f) }

def Param.rename (f : ClassId → ClassId) (p : Param) : Param :=
  { p with type := p.type.rename f, annotations := p.annotations.map (AnnotationUse.rename f) }

def Method.rename (f : ClassId → ClassId) (m : Method) : Method :=
  { m with
    owner := f m.owner
    returnType := m.returnType.map (JavaType.rename f)
    typeParams := m.typeParams.map (TypeVar.rename f)
    params := m.params.map (Param.rename f)
    varargs := m.varargs.map (Param.rename f)
    throws := m.throws.map (JavaType.rename f)
    annotations := m.annotations.map (AnnotationUse.rename f)
    defaultValue := m.defaultValue.map (AnnotationValue.rename f) }

namespace ClassEntry

/-- What the entry declares, with other handles. The handles of its place in the model stay, and so does code. -/
def rename (f : ClassId → ClassId) (e : ClassEntry) : ClassEntry :=
  { e with
    superclass := e.superclass.map (ClassType.rename f)
    interfaces := e.interfaces.map (ClassType.rename f)
    typeParams := e.typeParams.map (TypeVar.rename f)
    fields := e.fields.map (Field.rename f)
    methods := e.methods.map (Method.rename f)
    annotations := e.annotations.map (AnnotationUse.rename f) }

/-- The second entry declares what the first does, with other handles, maybe elsewhere. -/
def Copies (f : ClassId → ClassId) (e e' : ClassEntry) : Prop :=
  e' = { e.rename f with id := e'.id, package := e'.package, outer := e'.outer, nested := e'.nested }

end ClassEntry
end JavaSource
