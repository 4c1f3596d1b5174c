import JavaSource.Proofs.Declaration.Annotating
import JavaSource.Proofs.Declaration.Strict

/-!
# Declaration sets with unresolved types

Under the strict policy a declaration set gives a model exactly if it does under the other one and every type
that is written in it could be resolved. The model is the same, and there is no placeholder in it. Otherwise the
strict policy fails with the name of the first placeholder that the other one makes.
-/

namespace JavaSource

namespace Placed

theorem map_value_defaults (p : Placed) : p.defaults.map (·.value) = p.type.defaults := by
  unfold defaults TypeDeclaration.defaults
  rw [List.map_filterMap]
  conv_rhs => rw [← List.zipIdx_map_fst 0 p.type.methods, List.filterMap_map]
  refine List.filterMap_congr fun ⟨w, i⟩ _ ↦ ?_
  simp only [Function.comp_apply, Option.map_map, Function.comp_def, Option.map_id']

theorem map_written_deferred (p : Placed) : p.deferred.map (·.written) = p.type.allAnnotations := by
  have hmethod : ∀ (d : MethodDeclaration) (i : Nat), (d.deferred p.id i).map (·.written) = d.allAnnotations := by
    intro d i
    simp only [MethodDeclaration.deferred, MethodDeclaration.allAnnotations, List.map_append, List.map_map,
      List.map_flatMap, Function.comp_def, List.map_id']
    conv_rhs => rw [← List.zipIdx_map_fst 0 d.params, List.flatMap_map]
  simp only [deferred, TypeDeclaration.allAnnotations, List.map_append, List.map_map, List.map_flatMap,
    Function.comp_def, List.map_id', hmethod]
  conv_rhs => rw [← List.zipIdx_map_fst 0 p.type.methods, List.flatMap_map]

end Placed

/-- The first of the names is the first one when each is taken once. -/
theorem head?_foldl_addOnce (names : List String) (l : List String) :
    (names.foldl addOnce l).head? = l.head?.or names.head? := by
  induction names generalizing l with
  | nil => simp
  | cons name names ih =>
      have hadd : (addOnce l name).head? = l.head?.or (some name) := by
        unfold addOnce
        cases l with
        | nil => rfl
        | cons a l => split <;> rfl
      rw [List.foldl_cons, ih, hadd, List.head?_cons]
      cases l.head? <;> rfl

namespace Context

open Assemble

/-- The defaults are all looked up, as every method of a declared type was added. -/
theorem strict_defaults (names : Table ClassId) {s : Assembly} {ps : List Placed}
    (hs : ∀ p ∈ ps, s.Ready ⟨.keep, names⟩ p.id ∧
      (s.model.entry p.id).methods.length = p.type.methods.length) :
    Strict s (ps.forM fun p ↦ p.defaults.forM (setDefault ⟨.fail, names⟩))
      (ps.forM fun p ↦ p.defaults.forM (setDefault ⟨.keep, names⟩))
      (ps.flatMap fun p ↦ p.type.defaults.flatMap (·.unresolvedNames)) := by
  let Full (k : Assembly) : Prop := ∀ p ∈ ps, k.Ready ⟨.keep, names⟩ p.id ∧
    (k.model.entry p.id).methods.length = p.type.methods.length
  refine Strict.forM (P := Full) hs fun p hp k hk ↦ ⟨?_, fun l hl ↦ ?_⟩
  · rw [← p.map_value_defaults, List.flatMap_map]
    refine Strict.forM (P := Full) hk fun w hw j hj ↦ ⟨?_, fun l hl ↦ ready_of_setDefault hj hp hw hl⟩
    obtain ⟨hid, hlt⟩ := Placed.of_mem_defaults hw
    refine strict_setDefault names ?_
    rw [hid, (hj p hp).2]
    exact hlt
  · exact forM_induction (fun w hw i j hi hj ↦ ready_of_setDefault hi hp hw hj) hk hl

theorem strict_annotations (names : Table ClassId) {s : Assembly} (ps : List Placed) :
    Strict s (ps.forM fun p ↦ p.deferred.forM (annotate ⟨.fail, names⟩))
      (ps.forM fun p ↦ p.deferred.forM (annotate ⟨.keep, names⟩))
      (ps.flatMap fun p ↦ p.type.allAnnotations.flatMap (·.unresolvedNames)) := by
  refine (Strict.each (fun p s ↦ Strict.each (fun a s ↦ strict_annotate names a) p.deferred) ps).of_eq ?_
  refine List.flatMap_congr fun p _ ↦ ?_
  rw [← p.map_written_deferred, List.flatMap_map]

end Context

namespace Declarations

open Assemble Assembly

variable {d : Declarations}

/-- The policies do the same up to the first type that could not be resolved. -/
theorem strict_assemble (d : Declarations) :
    Strict ⟨.initial, []⟩ (d.assemble .fail) (d.assemble .keep) d.unresolvedNames := by
  refine (d.strict_place.bind fun ps s hplace ↦ ?_).of_eq (List.nil_append _)
  have hnames : d.unresolvedNames = ps.flatMap (fun p ↦ p.type.types.flatMap (·.unresolvedNames)) ++
      (ps.flatMap (fun p ↦ p.type.defaults.flatMap (·.unresolvedNames)) ++
        ps.flatMap fun p ↦ p.type.allAnnotations.flatMap (·.unresolvedNames)) := by
    have htypes : ∀ f : TypeDeclaration → List String, _ := (enters_of_place sound_initial hplace).flatMap_type
    rw [htypes fun t ↦ t.types.flatMap _, htypes fun t ↦ t.defaults.flatMap _,
      htypes fun t ↦ t.allAnnotations.flatMap _, ← List.append_assoc, unresolvedNames]
  rw [hnames]
  refine (Strict.each (fun p _ ↦ Context.strict_fill (Placed.table ps) p) ps).bind fun _ s₁ hfill ↦ ?_
  -- every method was added before the defaults are looked up
  obtain ⟨-, hready, hsound, hdev, hfilled⟩ := filled_of_place hplace hfill
  have hfull : ∀ p ∈ ps, s₁.Ready ⟨.keep, Placed.table ps⟩ p.id ∧
      (s₁.model.entry p.id).methods.length = p.type.methods.length := fun p hp ↦
    ⟨(hready p hp).later hsound hdev.later, (hfilled p hp).methods.length_eq.symm⟩
  refine ((Context.strict_defaults _ hfull).bind fun _ _ _ ↦
    (Context.strict_annotations _ ps).bind fun _ _ _ ↦ .pure _).of_eq ?_
  rw [List.append_nil]

theorem build_of_exec {policy : UnresolvedPolicy} {r : Except DeclarationError (List ClassId)} {t : Assembly}
    (h : (d.assemble policy).exec ⟨.initial, []⟩ = (r, t)) :
    d.build policy = r.map fun classes ↦ (t.model, classes) := by
  have hinto : d.buildInto policy .initial = (r, t.model) := congrArg (fun x ↦ (x.1, x.2.model)) h
  rw [build, hinto]
  cases r <;> rfl

/-- The strict policy gives a model exactly if the other one does and all is resolved, and the models are the
same. -/
theorem build_fail_eq_ok_iff {m : Model} {classes : List ClassId} :
    d.build .fail = .ok (m, classes) ↔ d.build .keep = .ok (m, classes) ∧ d.isResolved = true := by
  rw [isResolved_iff]
  rcases d.strict_assemble.follows with ⟨hsame, hnil⟩ | ⟨name, t, hname, hfails⟩
  · rw [build_of_exec hsame, ← build_of_exec rfl]
    refine ⟨fun h ↦ ⟨h, ?_⟩, And.left⟩
    obtain ⟨t, hyields, -⟩ := yields_of_build h
    exact hnil classes t hyields
  · rw [build_of_exec hfails]
    refine ⟨nofun, fun ⟨_, hnil⟩ ↦ ?_⟩
    rw [hnil] at hname
    cases hname

/-- At the first type that could not be resolved the strict policy fails. -/
theorem build_fail_eq_error {m : Model} {classes : List ClassId} (h : d.build .keep = .ok (m, classes)) {name : String}
    (hname : d.unresolvedNames.head? = some name) : d.build .fail = .error (.unresolvedType name) := by
  rcases d.strict_assemble.follows with ⟨-, hnil⟩ | ⟨other, t, hother, hfails⟩
  · obtain ⟨t, hyields, -⟩ := yields_of_build h
    rw [hnil classes t hyields] at hname
    cases hname
  · obtain rfl : other = name := Option.some.inj (hother.symm.trans hname)
    exact build_of_exec hfails

/-- Placeholders are made for the names that could not be resolved, in the order in which they are met. -/
theorem keys_placeholders_of_build {m : Model} {classes : List ClassId} (h : d.build .keep = .ok (m, classes)) :
    m.placeholders.keys = d.unresolvedNames.foldl addOnce [] := by
  obtain ⟨t, hyields, rfl⟩ := yields_of_build h
  exact d.strict_assemble.keys_eq classes t hyields

theorem exists_firstPlaceholder_of_build {m : Model} {classes : List ClassId} (h : d.build .keep = .ok (m, classes))
    {name : String} (hname : d.unresolvedNames.head? = some name) :
    ∃ c, m.FirstPlaceholder c ∧ (m.entry c).name = name := by
  obtain ⟨t, ps, hassembled, rfl, -⟩ := assembled_of_build h
  refine hassembled.sound.reachable.exists_firstPlaceholder ?_
  rw [keys_placeholders_of_build h, head?_foldl_addOnce, hname]
  rfl

theorem isPlaceholder_of_isResolved {m : Model} {classes : List ClassId} (h : d.build .keep = .ok (m, classes))
    (hresolved : d.isResolved = true) (c : ClassId) : (m.entry c).isPlaceholder = false := by
  obtain ⟨t, ps, hassembled, rfl, -⟩ := assembled_of_build h
  refine Bool.eq_false_iff.mpr fun hc ↦ ?_
  have hmem := Table.mem_entries_of_get? (hassembled.sound.reachable.get?_placeholders_name hc)
  have hkeys := keys_placeholders_of_build h
  rw [d.isResolved_iff.mp hresolved, List.foldl_nil, Table.keys, List.map_eq_nil_iff] at hkeys
  rw [hkeys] at hmem
  cases hmem

theorem isPlaceholder_of_build_fail {m : Model} {classes : List ClassId} (h : d.build .fail = .ok (m, classes))
    (c : ClassId) : (m.entry c).isPlaceholder = false := by
  obtain ⟨hkeep, hresolved⟩ := build_fail_eq_ok_iff.mp h
  exact isPlaceholder_of_isResolved hkeep hresolved c

theorem exists_head?_unresolvedNames (h : ¬ d.isResolved = true) : ∃ name, d.unresolvedNames.head? = some name := by
  rw [isResolved_iff, ← List.head?_eq_none_iff] at h
  exact Option.ne_none_iff_exists'.mp h

/-- Both policies give the same as long as no placeholder was made. Where one was, the strict policy fails with the
name of the first, which is the first name that could not be resolved. -/
theorem policies_part_at_placeholders (d : Declarations) :
    (∀ m classes, d.build .fail = .ok (m, classes) ↔
      d.build .keep = .ok (m, classes) ∧ ∀ c, (m.entry c).isPlaceholder = false) ∧
    ∀ m classes, d.build .keep = .ok (m, classes) → (∃ c, (m.entry c).isPlaceholder = true) →
      ∃ c, m.FirstPlaceholder c ∧ d.unresolvedNames.head? = some (m.entry c).name ∧
        d.build .fail = .error (.unresolvedType (m.entry c).name) := by
  constructor
  · intro m classes
    rw [build_fail_eq_ok_iff]
    refine and_congr_right fun h ↦ ⟨isPlaceholder_of_isResolved h, fun hnone ↦ ?_⟩
    by_contra hunresolved
    obtain ⟨name, hname⟩ := exists_head?_unresolvedNames hunresolved
    obtain ⟨c, hfirst, -⟩ := exists_firstPlaceholder_of_build h hname
    exact Bool.eq_false_iff.mp (hnone c) hfirst.isPlaceholder
  · rintro m classes h ⟨c, hc⟩
    have hunresolved : ¬ d.isResolved = true := fun hresolved ↦
      Bool.eq_false_iff.mp (isPlaceholder_of_isResolved h hresolved c) hc
    obtain ⟨name, hname⟩ := exists_head?_unresolvedNames hunresolved
    obtain ⟨first, hfirst, rfl⟩ := exists_firstPlaceholder_of_build h hname
    exact ⟨first, hfirst, hname, build_fail_eq_error h hname⟩

/-- Types that could not be resolved in a default, in an annotation, and inside the type of a parameter. -/
def strays : Declarations where
  packages :=
    [{ name := "p"
       types :=
        [{ name := "Mark", kind := .supported .annotationType
           methods :=
            [{ name := "type", returnType := some (.declared "java.lang.Class" [])
               defaultValue := some (.classLiteral (.unresolved "Dangling")) }] },
         { name := "Holder", kind := .supported .plain
           annotations := [⟨"p.Mark", [("type", .classLiteral (.unresolved "Lost"))]⟩]
           methods :=
            [{ name := "put", returnType := some (.primitive "void")
               params :=
                [{ name := "items", type := .declared "java.util.List" [.array (.unresolved "Missing")] }] }] }] }]

theorem policies_part_at_placeholders_strays :
    ∃ m classes c, strays.build .keep = .ok (m, classes) ∧ m.FirstPlaceholder c ∧ (m.entry c).name = "Missing" ∧
      strays.build .fail = .error (.unresolvedType "Missing") := by
  have hplaceholder : ((strays.build .keep).toOption.any fun r ↦ (r.1.entry ⟨5⟩).isPlaceholder) = true := by
    decide +kernel
  have hhead : strays.unresolvedNames.head? = some "Missing" := by decide +kernel
  have hok : (strays.build .keep).isOk = true := by decide +kernel
  obtain ⟨m, classes, h⟩ := exists_build_eq_ok hok
  rw [h] at hplaceholder
  obtain ⟨c, hfirst, hname, hfail⟩ := (policies_part_at_placeholders strays).2 m classes h ⟨⟨5⟩, hplaceholder⟩
  have hc : (m.entry c).name = "Missing" := Option.some.inj (hname.symm.trans hhead)
  exact ⟨m, classes, c, h, hfirst, hc, hc ▸ hfail⟩

end Declarations

theorem Model.unresolvedTypes_eq_nil {m : Model} (h : ∀ c, (m.entry c).isPlaceholder = false) (c : ClassId) :
    m.unresolvedTypes c = [] := by
  unfold unresolvedTypes placeholderNames
  generalize m.declarationEvents c = events
  induction events with
  | nil => rfl
  | cons e events ih =>
      cases e <;> simpa [h] using ih

end JavaSource
