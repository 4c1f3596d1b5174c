import JavaSource.Proofs.Declaration.Look
import JavaSource.Proofs.Renaming.Corresponding
import JavaSource.Proofs.Renaming.Events

/-!
# Finding the same in two models

Two models were made of the same names, and a name leads to corresponding classes in both. Then a type that is
written stands for the same in both, but for the handles.
-/

namespace JavaSource

open Assembly

/-- Two states in which written names lead to corresponding classes. -/
structure Twins (x x' : Context) (s s' : Assembly) (f : ClassId → ClassId) (S : ClassId → Prop) : Prop where
  sound : s.Sound
  sound' : s'.Sound
  known : x.KnownTo s.model
  known' : x'.KnownTo s'.model
  policy_eq : x'.policy = x.policy
  corresponds : s.model.Corresponds s'.model f S
  classOf : ∀ name c c', (x.classOf name).Yields s c s → (x'.classOf name).Yields s' c' s' → c' = f c ∧ S c
  placeholder : ∀ name c c', (Assemble.build (Model.placeholder name)).Yields s c s →
    (Assemble.build (Model.placeholder name)).Yields s' c' s' → c' = f c ∧ S c

namespace Context

variable {x x' : Context} {s s' k : Assembly} {f : ClassId → ClassId} {S : ClassId → Prop}

theorem settled_typesOf_cons (hs : s.Sound) (hx : x.KnownTo s.model) {scope : Scope} {w : WrittenType}
    {ws : List WrittenType} {ts : List JavaType} (h : (x.typesOf scope (w :: ws)).Yields s ts s) :
    ∃ t us, (x.typeOf scope w).Yields s t s ∧ (x.typesOf scope ws).Yields s us s ∧ ts = t :: us := by
  simp only [typesOf, Assemble.yields_bind, Assemble.yields_pure] at h
  obtain ⟨t, k, ht, us, _, hus, rfl, rfl⟩ := h
  have hsaw := looks_typeOf scope w hs hx t k ht
  have hrest := looks_typesOf scope ws hsaw.sound (hx.later hsaw.looked.grown) us _ hus
  obtain rfl := hsaw.looked.antisymm hrest.looked
  exact ⟨t, us, ht, hus, rfl⟩

theorem settled_declared (hs : s.Sound) (hx : x.KnownTo s.model) {scope : Scope} {name : String}
    {args : List WrittenType} {t : JavaType} (h : (x.typeOf scope (.declared name args)).Yields s t s) :
    ∃ c, (x.classOf name).Yields s c s ∧ ((args.isEmpty ∧ t = .reference c) ∨
      ¬ args.isEmpty ∧ ∃ ts, (x.typesOf scope args).Yields s ts s ∧ t = .narrowed c ts) := by
  simp only [typeOf, Assemble.yields_bind] at h
  obtain ⟨c, k, hc, h⟩ := h
  have hsaw := looks_classOf hs hx name c k hc
  split at h
  · rename_i hempty
    obtain ⟨rfl, rfl⟩ := Assemble.yields_pure.mp h
    exact ⟨c, hc, Or.inl ⟨hempty, rfl⟩⟩
  · rename_i hempty
    simp only [Assemble.yields_bind, Assemble.yields_ofExcept] at h
    obtain ⟨ts, _, hts, hnarrow, rfl⟩ := h
    have hrest := looks_typesOf scope args hsaw.sound (hx.later hsaw.looked.grown) ts _ hts
    obtain rfl := hsaw.looked.antisymm hrest.looked
    refine ⟨c, hc, Or.inr ⟨hempty, ts, hts, ?_⟩⟩
    unfold JavaType.narrow at hnarrow
    split at hnarrow <;> cases hnarrow
    rfl

theorem settled_array {scope : Scope} {w : WrittenType} {t : JavaType}
    (h : (x.typeOf scope (.array w)).Yields s t s) :
    ∃ u, (x.typeOf scope w).Yields s u s ∧ t = .array u.raw := by
  simp only [typeOf, Assemble.yields_bind, Assemble.yields_ofExcept] at h
  obtain ⟨u, _, hu, harray, rfl⟩ := h
  exact ⟨u, hu, (JavaType.arrayOf_eq_ok_iff.mp harray).2⟩

end Context

namespace Twins

variable {x x' : Context} {s s' : Assembly} {f : ClassId → ClassId} {S : ClassId → Prop}

mutual

theorem typeOf (h : Twins x x' s s' f S) (scope : Scope) : ∀ (w : WrittenType) {t t' : JavaType},
    (x.typeOf scope w).Yields s t s → (x'.typeOf scope w).Yields s' t' s' →
      t' = t.rename f ∧ t.Within S
  | .primitive name, t, t', ht, ht' => by
      rw [Context.typeOf] at ht ht'
      split at ht
      · rename_i p hp
        simp only [hp] at ht'
        obtain ⟨rfl, -⟩ := Assemble.yields_pure.mp ht
        obtain ⟨rfl, -⟩ := Assemble.yields_pure.mp ht'
        exact ⟨rfl, trivial⟩
      · exact absurd ht Assemble.yields_throw
  | .declared name args, t, t', ht, ht' => by
      obtain ⟨c, hc, hargs⟩ := Context.settled_declared h.sound h.known ht
      obtain ⟨c', hc', hargs'⟩ := Context.settled_declared h.sound' h.known' ht'
      obtain ⟨rfl, hS⟩ := h.classOf name c c' hc hc'
      rcases hargs with ⟨hempty, rfl⟩ | ⟨hempty, ts, hts, rfl⟩
      · obtain ⟨-, rfl⟩ := hargs'.resolve_right fun hfull ↦ hfull.1 hempty
        exact ⟨rfl, hS⟩
      · obtain ⟨-, ts', hts', rfl⟩ := hargs'.resolve_left fun hnone ↦ hempty hnone.1
        obtain ⟨rfl, hwithin⟩ := typesOf h scope args hts hts'
        exact ⟨rfl, hS, hwithin⟩
  | .array w, t, t', ht, ht' => by
      obtain ⟨u, hu, rfl⟩ := Context.settled_array ht
      obtain ⟨u', hu', rfl⟩ := Context.settled_array ht'
      obtain ⟨rfl, hwithin⟩ := typeOf h scope w hu hu'
      exact ⟨by rw [JavaType.raw_rename, JavaType.rename], hwithin.raw⟩
  | .typeVar name, t, t', ht, ht' => by
      rw [Context.typeOf] at ht ht'
      split at ht
      · rename_i hvar
        rw [if_pos hvar] at ht'
        obtain ⟨rfl, -⟩ := Assemble.yields_pure.mp ht
        obtain ⟨rfl, -⟩ := Assemble.yields_pure.mp ht'
        exact ⟨rfl, trivial⟩
      · exact absurd ht Assemble.yields_throw
  | .wildcard none none, t, t', ht, ht' => by
      rw [Context.typeOf] at ht ht'
      obtain ⟨rfl, -⟩ := Assemble.yields_pure.mp ht
      obtain ⟨rfl, -⟩ := Assemble.yields_pure.mp ht'
      exact ⟨rfl, trivial⟩
  | .wildcard (some upper) none, t, t', ht, ht' => by
      rw [Context.typeOf] at ht ht'
      obtain ⟨u, hu, rfl⟩ := Assemble.yields_map.mp ht
      obtain ⟨u', hu', rfl⟩ := Assemble.yields_map.mp ht'
      obtain ⟨rfl, hwithin⟩ := typeOf h scope upper hu hu'
      exact ⟨rfl, hwithin⟩
  | .wildcard none (some lower), t, t', ht, ht' => by
      rw [Context.typeOf] at ht ht'
      obtain ⟨u, hu, rfl⟩ := Assemble.yields_map.mp ht
      obtain ⟨u', hu', rfl⟩ := Assemble.yields_map.mp ht'
      obtain ⟨rfl, hwithin⟩ := typeOf h scope lower hu hu'
      exact ⟨rfl, hwithin⟩
  | .wildcard (some _) (some _), t, t', ht, _ => by
      rw [Context.typeOf] at ht
      exact absurd ht Assemble.yields_throw
  | .unresolved name, t, t', ht, ht' => by
      rw [Context.typeOf] at ht ht'
      rw [h.policy_eq] at ht'
      split at ht
      · exact absurd ht Assemble.yields_throw
      · rename_i hkeep
        simp only [hkeep] at ht'
        obtain ⟨c, hc, rfl⟩ := Assemble.yields_map.mp ht
        obtain ⟨c', hc', rfl⟩ := Assemble.yields_map.mp ht'
        obtain ⟨rfl, hS⟩ := h.placeholder name c c' hc hc'
        exact ⟨rfl, hS⟩

theorem typesOf (h : Twins x x' s s' f S) (scope : Scope) : ∀ (ws : List WrittenType) {ts ts' : List JavaType},
    (x.typesOf scope ws).Yields s ts s → (x'.typesOf scope ws).Yields s' ts' s' →
      ts' = JavaType.renameEach f ts ∧ JavaType.WithinEach S ts
  | [], ts, ts', hts, hts' => by
      rw [Context.typesOf] at hts hts'
      obtain ⟨rfl, -⟩ := Assemble.yields_pure.mp hts
      obtain ⟨rfl, -⟩ := Assemble.yields_pure.mp hts'
      exact ⟨rfl, trivial⟩
  | w :: ws, ts, ts', hts, hts' => by
      obtain ⟨t, us, ht, hus, rfl⟩ := Context.settled_typesOf_cons h.sound h.known hts
      obtain ⟨t', us', ht', hus', rfl⟩ := Context.settled_typesOf_cons h.sound' h.known' hts'
      obtain ⟨rfl, hwithin⟩ := typeOf h scope w ht ht'
      obtain ⟨rfl, hwithin'⟩ := typesOf h scope ws hus hus'
      exact ⟨rfl, hwithin, hwithin'⟩

end

theorem typeOf? (h : Twins x x' s s' f S) {scope : Scope} {w : Option WrittenType} {t t' : Option JavaType}
    (ht : (x.typeOf? scope w).Yields s t s) (ht' : (x'.typeOf? scope w).Yields s' t' s') :
    t' = t.map (JavaType.rename f) ∧ ∀ u, t = some u → u.Within S := by
  cases w with
  | none =>
      obtain ⟨rfl, -⟩ := Assemble.yields_pure.mp ht
      obtain ⟨rfl, -⟩ := Assemble.yields_pure.mp ht'
      exact ⟨rfl, nofun⟩
  | some w =>
      obtain ⟨u, hu, rfl⟩ := Assemble.yields_map.mp ht
      obtain ⟨u', hu', rfl⟩ := Assemble.yields_map.mp ht'
      obtain ⟨rfl, hwithin⟩ := h.typeOf scope w hu hu'
      exact ⟨rfl, fun _ hv ↦ Option.some.inj hv ▸ hwithin⟩

end Twins

end JavaSource
