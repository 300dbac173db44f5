import DdlCatalog.Build.Routine
import DdlCatalog.Proofs.Catalog.Relinked
import Mathlib.Data.List.Nodup

/-! # Well-formed catalogs
All objects stand under their own names, names are not used twice, and the columns of a primary key
admit no nulls. -/

namespace DdlCatalog

structure Relation.WellFormed (r : Relation) : Prop where
  columns_nodup : (r.columns.map (·.name)).Nodup
  names_nodup : (r.constraints.map (·.name) ++ r.indexes.map (·.name)).Nodup
  one_key : (r.constraints.filter (·.kind = .primaryKey)).length ≤ 1
  key_notNull : ∀ k ∈ r.constraints, k.kind = .primaryKey → ∀ c ∈ r.columns, c.name ∈ k.columns →
    c.nullable = false
  view_constraints : r.isView = true → r.constraints = []

namespace Relation

theorem wellFormed_unlinked (r : Relation) : r.unlinked.WellFormed ↔ r.WellFormed := by
  have hkeys : (r.constraints.map Constraint.unlinked).filter (·.kind = .primaryKey) =
      (r.constraints.filter (·.kind = .primaryKey)).map Constraint.unlinked := by
    rw [List.filter_map]
    congr 2
    funext k
    simp [Constraint.unlinked, Constraint.modifyForeignKey_kind_eq_primaryKey]
  constructor
  · intro h
    refine ⟨h.columns_nodup, ?_, ?_, ?_, ?_⟩
    · rw [← r.map_name_unlinked]
      exact h.names_nodup
    · rw [← List.length_map Constraint.unlinked, ← hkeys]
      exact h.one_key
    · intro k hk hkind c hc hm
      refine h.key_notNull k.unlinked (List.mem_map_of_mem hk) ?_ c hc ?_
      · exact (k.modifyForeignKey_kind_eq_primaryKey).2 hkind
      · simpa [Constraint.unlinked] using hm
    · exact fun hv => List.map_eq_nil_iff.1 (h.view_constraints hv)
  · intro h
    refine ⟨h.columns_nodup, ?_, ?_, ?_, ?_⟩
    · rw [r.map_name_unlinked]
      exact h.names_nodup
    · show ((r.constraints.map Constraint.unlinked).filter (·.kind = .primaryKey)).length ≤ 1
      rw [hkeys, List.length_map]
      exact h.one_key
    · rintro _ hm hkind c hc hn
      obtain ⟨k, hk, rfl⟩ := List.mem_map.1 hm
      refine h.key_notNull k hk ?_ c hc ?_
      · exact (k.modifyForeignKey_kind_eq_primaryKey).1 hkind
      · simpa [Constraint.unlinked] using hn
    · exact fun hv => List.map_eq_nil_iff.2 (h.view_constraints hv)

theorem WellFormed.relink {r r' : Relation} (h : r.WellFormed) (hr : r'.unlinked = r.unlinked) :
    r'.WellFormed := by
  rw [← wellFormed_unlinked, hr, wellFormed_unlinked]
  exact h

end Relation

/-- The overloads of one name. -/
structure Overloads {α : Type} (routine : α → Routine) (name : QualifiedName) (as : List α) :
    Prop where
  nonempty : as ≠ []
  name_eq : ∀ a ∈ as, (routine a).name = name
  distinct : as.Pairwise fun a b => (routine a).sameSignature (routine b) = false

section Overloads

variable {α : Type} {routine : α → Routine} {name : QualifiedName} {a b : α} {as : List α}

theorem Routine.sameSignature_iff (r r' : Routine) :
    r.sameSignature r' = true ↔ r.overloadKey = r'.overloadKey := by
  simp [sameSignature]

/-- Overloads differ in signature exactly if no key of theirs occurs twice. -/
theorem distinct_iff_nodup :
    (as.Pairwise fun a b => (routine a).sameSignature (routine b) = false) ↔
      (as.map fun a => (routine a).overloadKey).Nodup := by
  rw [List.Nodup, List.pairwise_map]
  simp [Routine.sameSignature]

/-- A routine takes the place of the one with its signature, or comes last. -/
theorem map_putOverload :
    (Schema.putOverload (fun b => (routine b).sameSignature (routine a)) a as).map
        (fun b => (routine b).overloadKey) =
      if (routine a).overloadKey ∈ as.map fun b => (routine b).overloadKey then
        as.map fun b => (routine b).overloadKey
      else (as.map fun b => (routine b).overloadKey) ++ [(routine a).overloadKey] := by
  induction as with
  | nil => simp [Schema.putOverload]
  | cons b as ih =>
    unfold Schema.putOverload
    split
    · next h => simp [(Routine.sameSignature_iff _ _).1 h]
    · next h =>
      have hne : (routine a).overloadKey ≠ (routine b).overloadKey :=
        fun he => h ((Routine.sameSignature_iff _ _).2 he.symm)
      simp only [List.map_cons, ih, List.mem_cons, hne, false_or]
      split <;> rfl

theorem mem_putOverload {same : α → Bool} (h : b ∈ Schema.putOverload same a as) :
    b = a ∨ b ∈ as := by
  induction as with
  | nil => simpa [Schema.putOverload] using h
  | cons c as ih =>
    unfold Schema.putOverload at h
    split at h
    · rcases List.mem_cons.1 h with rfl | hm
      · exact .inl rfl
      · exact .inr (List.mem_cons_of_mem _ hm)
    · rcases List.mem_cons.1 h with rfl | hm
      · exact .inr (List.mem_cons_self ..)
      · exact (ih hm).imp_right (List.mem_cons_of_mem _)

/-- Overloads stay overloads when one is put among them. -/
theorem overloads_putOverload (h : as = [] ∨ Overloads routine name as)
    (ha : (routine a).name = name) :
    Overloads routine name
      (Schema.putOverload (fun b => (routine b).sameSignature (routine a)) a as) where
  nonempty := by
    cases as with
    | nil => simp [Schema.putOverload]
    | cons b as =>
      unfold Schema.putOverload
      split <;> simp
  name_eq := by
    intro b hb
    rcases mem_putOverload hb with rfl | hm
    · exact ha
    · rcases h with rfl | h
      · cases hm
      · exact h.name_eq b hm
  distinct := by
    have hnodup : (as.map fun b => (routine b).overloadKey).Nodup := by
      rcases h with rfl | h
      · simp
      · exact distinct_iff_nodup.1 h.distinct
    rw [distinct_iff_nodup, map_putOverload]
    split
    · exact hnodup
    · next hfree =>
      rw [← List.concat_eq_append]
      exact hnodup.concat hfree

end Overloads

/-- Everything in a schema stands under its own name. Tables and views share their names with enums,
functions their signatures with procedures. -/
structure Schema.WellFormed (s : Schema) (name : String) : Prop where
  name_eq : s.name = name
  enum_name : ∀ n e, s.enums.get? n = some e → e.name = ⟨name, n⟩
  relation_name : ∀ n r, s.relations.get? n = some r → r.name = ⟨name, n⟩
  prepared_name : ∀ n p, s.prepared.get? n = some p → p.name = ⟨name, n⟩
  relations : ∀ n r, s.relations.get? n = some r → r.WellFormed
  functions : ∀ n fs, s.functions.get? n = some fs → Overloads (·.routine) ⟨name, n⟩ fs
  procedures : ∀ n ps, s.procedures.get? n = some ps → Overloads (·.routine) ⟨name, n⟩ ps
  enum_or_relation : ∀ n, s.enums.get? n = none ∨ s.relations.get? n = none
  function_or_procedure : ∀ n, ∀ f ∈ s.functionsNamed n, ∀ p ∈ s.proceduresNamed n,
    f.routine.sameSignature p.routine = false

namespace Schema.WellFormed

variable {s : Schema} {name : String}

theorem ofName (name : String) : (Schema.ofName name).WellFormed name where
  name_eq := rfl
  enum_name _ _ h := nomatch h
  relation_name _ _ h := nomatch h
  prepared_name _ _ h := nomatch h
  relations _ _ h := nomatch h
  functions _ _ h := nomatch h
  procedures _ _ h := nomatch h
  enum_or_relation _ := .inl rfl
  function_or_procedure _ _ h := nomatch h

theorem insertEnum (h : s.WellFormed name) {e : EnumType} (he : e.name.schema = name)
    (hfree : s.relations.get? e.name.name = none) : (s.insertEnum e).WellFormed name := by
  refine { h with enum_name := ?_, enum_or_relation := ?_ }
  · intro n e' he'
    rw [Schema.get?_enums_insertEnum] at he'
    split at he'
    · next hn =>
      cases he'
      rw [← he, ← hn]
    · exact h.enum_name n e' he'
  · intro n
    rw [Schema.get?_enums_insertEnum]
    split
    · next hn => exact .inr (hn ▸ hfree)
    · exact h.enum_or_relation n

theorem insertRelation (h : s.WellFormed name) {r : Relation} (hname : r.name.schema = name)
    (hr : r.WellFormed) (hfree : s.enums.get? r.name.name = none) :
    (s.insertRelation r).WellFormed name := by
  refine { h with relation_name := ?_, relations := ?_, enum_or_relation := ?_ }
  · intro n r' hr'
    rw [Schema.get?_relations_insertRelation] at hr'
    split at hr'
    · next hn =>
      cases hr'
      rw [← hname, ← hn]
    · exact h.relation_name n r' hr'
  · intro n r' hr'
    rw [Schema.get?_relations_insertRelation] at hr'
    split at hr'
    · cases hr'
      exact hr
    · exact h.relations n r' hr'
  · intro n
    rw [Schema.get?_relations_insertRelation]
    split
    · next hn => exact .inl (hn ▸ hfree)
    · exact h.enum_or_relation n

theorem insertPrepared (h : s.WellFormed name) {p : PreparedStatement}
    (hp : p.name.schema = name) : (s.insertPrepared p).WellFormed name := by
  refine { h with prepared_name := ?_ }
  intro n p' hp'
  rw [Schema.get?_prepared_insertPrepared] at hp'
  split at hp'
  · next hn =>
    cases hp'
    rw [← hp, ← hn]
  · exact h.prepared_name n p' hp'

/-- The overloads of a name that is stored, or none. -/
theorem functionsNamed (h : s.WellFormed name) (n : String) :
    s.functionsNamed n = [] ∨ Overloads (·.routine) ⟨name, n⟩ (s.functionsNamed n) := by
  unfold Schema.functionsNamed
  cases hf : s.functions.get? n with
  | none => exact .inl rfl
  | some fs => exact .inr (h.functions n fs hf)

theorem proceduresNamed (h : s.WellFormed name) (n : String) :
    s.proceduresNamed n = [] ∨ Overloads (·.routine) ⟨name, n⟩ (s.proceduresNamed n) := by
  unfold Schema.proceduresNamed
  cases hp : s.procedures.get? n with
  | none => exact .inl rfl
  | some ps => exact .inr (h.procedures n ps hp)

theorem insertFunction (h : s.WellFormed name) {f : StoredFunction}
    (hname : f.routine.name.schema = name)
    (hfree : ∀ p ∈ s.proceduresNamed f.routine.name.name,
      f.routine.sameSignature p.routine = false) : (s.insertFunction f).WellFormed name := by
  refine { h with functions := ?_, function_or_procedure := ?_ }
  · intro n fs hfs
    rw [Schema.get?_functions_insertFunction] at hfs
    split at hfs
    · next hn =>
      cases hfs
      exact overloads_putOverload (h.functionsNamed n) (by rw [← hname, ← hn])
    · exact h.functions n fs hfs
  · intro n g hg p hp
    rw [Schema.functionsNamed_insertFunction] at hg
    split at hg
    · next hn =>
      subst hn
      rcases mem_putOverload hg with rfl | hm
      · exact hfree p hp
      · exact h.function_or_procedure _ g hm p hp
    · exact h.function_or_procedure n g hg p hp

theorem insertProcedure (h : s.WellFormed name) {p : StoredProcedure}
    (hname : p.routine.name.schema = name)
    (hfree : ∀ f ∈ s.functionsNamed p.routine.name.name,
      f.routine.sameSignature p.routine = false) : (s.insertProcedure p).WellFormed name := by
  refine { h with procedures := ?_, function_or_procedure := ?_ }
  · intro n ps hps
    rw [Schema.get?_procedures_insertProcedure] at hps
    split at hps
    · next hn =>
      cases hps
      exact overloads_putOverload (h.proceduresNamed n) (by rw [← hname, ← hn])
    · exact h.procedures n ps hps
  · intro n f hf q hq
    rw [Schema.proceduresNamed_insertProcedure] at hq
    split at hq
    · next hn =>
      subst hn
      rcases mem_putOverload hq with rfl | hm
      · exact hfree f hf
      · exact h.function_or_procedure _ f hf q hm
    · exact h.function_or_procedure n f hf q hq

/-- Where a function may be stored, no procedure has its signature. -/
theorem procedures_differ (h : s.WellFormed name) {r : Routine}
    (ha : s.routineKind? r = none ∨ s.routineKind? r = some .function) :
    ∀ p ∈ s.proceduresNamed r.name.name, r.sameSignature p.routine = false := by
  intro p hp
  unfold Schema.routineKind? at ha
  split at ha
  · next hf =>
    obtain ⟨f, hf, hsame⟩ := List.any_eq_true.1 hf
    have hdiffer := h.function_or_procedure _ f hf p hp
    simp only [Routine.sameSignature, decide_eq_true_eq, decide_eq_false_iff_not] at hsame hdiffer ⊢
    rwa [← hsame]
  · split at ha
    · simp at ha
    · next hnone =>
      have hdiffer := fun hsame => hnone (List.any_eq_true.2 ⟨p, hp, hsame⟩)
      simp only [Routine.sameSignature, decide_eq_true_eq, decide_eq_false_iff_not] at hdiffer ⊢
      exact fun he => hdiffer he.symm

/-- Where a procedure may be stored, no function has its signature. -/
theorem functions_differ {r : Routine}
    (ha : s.routineKind? r = none ∨ s.routineKind? r = some .procedure) :
    ∀ f ∈ s.functionsNamed r.name.name, f.routine.sameSignature r = false := by
  intro f hf
  unfold Schema.routineKind? at ha
  split at ha
  · simp at ha
  · next hnone =>
    have hdiffer := fun hsame => hnone (List.any_eq_true.2 ⟨f, hf, hsame⟩)
    simpa using hdiffer

end Schema.WellFormed

/-- Schemas stand under their names, and the order of relations lists each of them once. -/
structure Catalog.WellFormed (c : Catalog) : Prop where
  schemas : ∀ n s, c.schema? n = some s → s.WellFormed n
  order_nodup : c.relationOrder.Nodup
  mem_order : ∀ q, q ∈ c.relationOrder ↔ (c.relation? q).isSome = true

namespace Catalog.WellFormed

variable {c c' : Catalog}

theorem ofDefaultSchema (name : String) : (Catalog.ofDefaultSchema name).WellFormed where
  schemas _ _ h := nomatch h
  order_nodup := List.nodup_nil
  mem_order q := by
    rw [Catalog.relation?_eq_bind]
    simp [Catalog.ofDefaultSchema, Catalog.schema?, EmptyCollection.emptyCollection]

theorem relation (h : c.WellFormed) {q : QualifiedName} {r : Relation}
    (hq : c.relation? q = some r) : r.name = q ∧ r.WellFormed := by
  rw [Catalog.relation?_eq_bind] at hq
  obtain ⟨s, hs, hr⟩ := Option.bind_eq_some_iff.1 hq
  exact ⟨(h.schemas _ s hs).relation_name _ r hr, (h.schemas _ s hs).relations _ r hr⟩

theorem constraint_names_nodup (h : c.WellFormed) {q : QualifiedName} {r : Relation}
    (hq : c.relation? q = some r) : (r.constraints.map (·.name)).Nodup :=
  (List.nodup_append.1 (h.relation hq).2.names_nodup).1

theorem enum?_eq_none (h : c.WellFormed) {q : QualifiedName} {r : Relation}
    (hq : c.relation? q = some r) : c.enum? q = none := by
  rw [Catalog.relation?_eq_bind] at hq
  obtain ⟨s, hs, hr⟩ := Option.bind_eq_some_iff.1 hq
  rw [Catalog.enum?_eq_bind, hs, Option.bind_some]
  refine ((h.schemas _ s hs).enum_or_relation q.name).resolve_right fun hnone => ?_
  rw [hnone] at hr
  cases hr

/-- The relations in order are those that can be looked up. -/
theorem mem_relations (h : c.WellFormed) (r : Relation) :
    r ∈ c.relations ↔ c.relation? r.name = some r := by
  unfold Catalog.relations
  rw [List.mem_filterMap]
  constructor
  · rintro ⟨q, -, hq⟩
    rwa [(h.relation hq).1]
  · intro hr
    exact ⟨r.name, (h.mem_order _).2 (by rw [hr]; rfl), hr⟩

theorem map_name_relations (h : c.WellFormed) : c.relations.map (·.name) = c.relationOrder := by
  unfold Catalog.relations
  have hall : ∀ q ∈ c.relationOrder, (c.relation? q).map (·.name) = some q := by
    intro q hq
    obtain ⟨r, hr⟩ := Option.isSome_iff_exists.1 ((h.mem_order q).1 hq)
    rw [hr, Option.map_some, (h.relation hr).1]
  rw [List.map_filterMap]
  exact (List.filterMap_congr hall).trans List.filterMap_some

theorem relations_nodup (h : c.WellFormed) : c.relations.Nodup := by
  have hnodup := h.order_nodup
  rw [← h.map_name_relations] at hnodup
  exact hnodup.of_map _

theorem schemaOrNew (h : c.WellFormed) (n : String) :
    ((c.schema? n).getD (Schema.ofName n)).WellFormed n := by
  cases hs : c.schema? n with
  | none => exact .ofName n
  | some s => exact h.schemas n s hs

theorem ensureSchema (h : c.WellFormed) (name : String) : (c.ensureSchema name).WellFormed where
  schemas n s hs := by
    rw [Catalog.schema?_ensureSchema] at hs
    split at hs
    · next hn =>
      cases hs
      exact hn ▸ h.schemaOrNew name
    · exact h.schemas n s hs
  order_nodup := by
    rw [Catalog.relationOrder_ensureSchema]
    exact h.order_nodup
  mem_order q := by
    rw [Catalog.relationOrder_ensureSchema, Catalog.relation?_ensureSchema]
    exact h.mem_order q

/-- A change of a schema that leaves its relations alone. -/
theorem modifySchema (h : c.WellFormed) {n : String} {f : Schema → Schema}
    (hf : (f ((c.schema? n).getD (Schema.ofName n))).WellFormed n)
    (hrelations : ∀ s, (f s).relations = s.relations) : (c.modifySchema n f).WellFormed where
  schemas m s hs := by
    rw [Catalog.schema?_modifySchema] at hs
    split at hs
    · next hm =>
      cases hs
      exact hm ▸ hf
    · exact h.schemas m s hs
  order_nodup := h.order_nodup
  mem_order q := by
    rw [Catalog.relation?_modifySchema c hrelations]
    exact h.mem_order q

theorem insertEnum (h : c.WellFormed) {e : EnumType} (hfree : c.relation? e.name = none) :
    (c.modifySchema e.name.schema (·.insertEnum e)).WellFormed := by
  refine h.modifySchema ((h.schemaOrNew _).insertEnum rfl ?_) fun _ => rfl
  rw [Catalog.get?_relations_schemaOrNew]
  exact hfree

theorem insertPrepared (h : c.WellFormed) {p : PreparedStatement} :
    (c.modifySchema p.name.schema (·.insertPrepared p)).WellFormed :=
  h.modifySchema ((h.schemaOrNew _).insertPrepared rfl) fun _ => rfl

theorem insertRelation (h : c.WellFormed) {r : Relation} (hr : r.WellFormed)
    (hfree : c.enum? r.name = none) : (c.insertRelation r).WellFormed where
  schemas n s hs := by
    rw [Catalog.schema?_insertRelation] at hs
    split at hs
    · next hn =>
      cases hs
      apply (h.schemaOrNew n).insertRelation hn hr
      rw [← hn, Catalog.get?_enums_schemaOrNew]
      exact hfree
    · exact h.schemas n s hs
  order_nodup := by
    rw [Catalog.relationOrder_insertRelation]
    split
    · exact h.order_nodup
    · next hnew =>
      rw [← List.concat_eq_append]
      exact h.order_nodup.concat fun hm => hnew ((h.mem_order _).1 hm)
  mem_order q := by
    rw [Catalog.relationOrder_insertRelation, Catalog.relation?_insertRelation]
    by_cases hq : r.name = q
    · subst hq
      split
      · next hold => simpa using (h.mem_order _).2 hold
      · simp
    · rw [if_neg hq, ← h.mem_order q]
      split
      · rfl
      · simp [Ne.symm hq]

theorem modifyRelation (h : c.WellFormed) {q : QualifiedName} {r : Relation} {f : Relation → Relation}
    (hq : c.relation? q = some r) (hname : (f r).name = r.name) (hr : (f r).WellFormed) :
    (c.modifyRelation q f).WellFormed where
  schemas n s hs := by
    rw [Catalog.schema?_modifyRelation] at hs
    split at hs
    · next hn =>
      obtain ⟨t, ht, rfl⟩ := Option.map_eq_some_iff.1 hs
      have hget : t.relations.get? q.name = some r := by
        rw [Catalog.relation?_eq_bind, hn, ht] at hq
        exact hq
      have hwf := h.schemas n t ht
      refine { hwf with relation_name := ?_, relations := ?_, enum_or_relation := ?_ }
      · intro m r' hr'
        rw [Schema.get?_relations_modifyRelation] at hr'
        split at hr'
        · next hm =>
          subst hm
          rw [hget] at hr'
          cases hr'
          exact hname.trans (hwf.relation_name _ r hget)
        · exact hwf.relation_name m r' hr'
      · intro m r' hr'
        rw [Schema.get?_relations_modifyRelation] at hr'
        split at hr'
        · rw [hget] at hr'
          cases hr'
          exact hr
        · exact hwf.relations m r' hr'
      · intro m
        rw [Schema.get?_relations_modifyRelation]
        split
        · next hm =>
          subst hm
          refine (hwf.enum_or_relation q.name).imp_right fun hnone => ?_
          rw [hnone, Option.map_none]
        · exact hwf.enum_or_relation m
    · exact h.schemas n s hs
  order_nodup := h.order_nodup
  mem_order q' := by
    rw [Catalog.relation?_modifyRelation, Catalog.relationOrder_modifyRelation, h.mem_order q']
    split <;> simp

/-- The state of the keys does not matter. -/
theorem relink (h : c.WellFormed) (hc : c.Relinked c') : c'.WellFormed where
  schemas n s' hs' := by
    have hbare := hc.schemas n
    rw [hs'] at hbare
    obtain ⟨s, hs, hss⟩ := Option.map_eq_some_iff.1 hbare.symm
    have hwf := h.schemas n s hs
    have hget (m : String) : (s'.relations.get? m).map Relation.unlinked =
        (s.relations.get? m).map Relation.unlinked := by
      have hr := hc.relations ⟨n, m⟩
      rw [Catalog.relation?_eq_bind, Catalog.relation?_eq_bind, hs, hs'] at hr
      exact hr
    rcases s with ⟨_, _, _, _, _, _⟩
    rcases s' with ⟨_, _, _, _, _, _⟩
    cases hss
    refine { hwf with relation_name := ?_, relations := ?_, enum_or_relation := ?_ }
    · intro m r' hr'
      obtain ⟨r, hr, hrr⟩ := Option.map_eq_some_iff.1 (by rw [← hget m, hr']; rfl)
      exact (congrArg Relation.name hrr).symm.trans (hwf.relation_name m r hr)
    · intro m r' hr'
      obtain ⟨r, hr, hrr⟩ := Option.map_eq_some_iff.1 (by rw [← hget m, hr']; rfl)
      exact (hwf.relations m r hr).relink hrr.symm
    · intro m
      refine (hwf.enum_or_relation m).imp_right fun hnone => ?_
      have := hget m
      rw [hnone] at this
      simpa using this
  order_nodup := by
    rw [hc.order_eq]
    exact h.order_nodup
  mem_order q := by
    rw [hc.order_eq, h.mem_order q, ← Option.isSome_map (f := Relation.unlinked),
      ← hc.relations q, Option.isSome_map]

end Catalog.WellFormed

end DdlCatalog
