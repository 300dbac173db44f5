import DdlCatalog.Proofs.Catalog.Keys

/-! # Catalogs that differ in order
The order of declarations decides the order of schemas and relations and which keys are added later.
No key is checked for any of these. -/

namespace DdlCatalog

/-- A key without the mark that it is added later. -/
def ForeignKey.withoutAlter (key : ForeignKey) : ForeignKey := { key with useAlter := false }

namespace Constraint

def withoutAlter (k : Constraint) : Constraint := k.modifyForeignKey ForeignKey.withoutAlter

variable (k : Constraint)

theorem withoutAlter_modifyForeignKey {f : ForeignKey → ForeignKey}
    (hf : ∀ key, (f key).withoutAlter = key.withoutAlter) :
    (k.modifyForeignKey f).withoutAlter = k.withoutAlter := by
  unfold withoutAlter
  rw [modifyForeignKey_modifyForeignKey]
  exact modifyForeignKey_congr k fun key _ => hf key

theorem unlinked_withoutAlter : k.withoutAlter.unlinked = k.unlinked :=
  k.unlinked_modifyForeignKey fun _ => rfl

end Constraint

namespace Relation

def withoutAlter (r : Relation) : Relation :=
  { r with constraints := r.constraints.map Constraint.withoutAlter }

theorem unlinked_withoutAlter (r : Relation) : r.withoutAlter.unlinked = r.unlinked := by
  unfold unlinked withoutAlter
  simp [Function.comp_def, Constraint.unlinked_withoutAlter]

theorem unlinked_of_withoutAlter {r r' : Relation} (h : r'.withoutAlter = r.withoutAlter) :
    r'.unlinked = r.unlinked := by
  rw [← unlinked_withoutAlter r', h, unlinked_withoutAlter]

/-- Relations that differ in the state of their links differ in nothing else. -/
theorem withoutAlter_eq_of_unlinked {r r' : Relation} (h : r'.unlinked = r.unlinked) :
    r'.withoutAlter = { r with constraints := r'.constraints.map Constraint.withoutAlter } := by
  cases r
  cases r'
  simp only [unlinked, Relation.mk.injEq] at h
  simp [withoutAlter, h]

end Relation

namespace Catalog

/-- The catalogs hold the same but for its order and for the keys that are added later. -/
structure Alike (c c' : Catalog) : Prop extends SameUpTo Relation.withoutAlter c c' where
  order_perm : c'.relationOrder.Perm c.relationOrder

namespace Alike

variable {c c' c'' : Catalog}

theorem refl (c : Catalog) : Alike c c := ⟨.refl c, .refl _⟩

theorem trans (h : Alike c c') (h' : Alike c' c'') : Alike c c'' :=
  ⟨h.toSameUpTo.trans h'.toSameUpTo, h'.order_perm.trans h.order_perm⟩

theorem insertRelation (h : Alike c c') (r : Relation) :
    Alike (c.insertRelation r) (c'.insertRelation r) where
  toSameUpTo := h.toSameUpTo.insertRelation r
  order_perm := by
    rw [relationOrder_insertRelation, relationOrder_insertRelation, h.isSome_relation?]
    split
    · exact h.order_perm
    · exact h.order_perm.append_right _

theorem checkReference_eq (h : Alike c c') (key : ForeignKey) (columns : List String)
    (l : Text.Location) : c'.checkReference key columns l = c.checkReference key columns l := by
  cases hr : c.relation? key.referencedTable with
  | none => rw [checkReference_of_none hr, checkReference_of_none (h.relation?_eq_none hr)]
  | some r =>
    obtain ⟨r', hr', hrr⟩ := h.exists_relation? hr
    apply checkReference_of_sameTarget hr hr'
    exact Relation.sameTarget_of_unlinked (Relation.unlinked_of_withoutAlter hrr)

end Alike

/-- Relations of different names may be inserted in either order. -/
theorem alike_insertRelation_comm (c : Catalog) {r r' : Relation} (h : r.name ≠ r'.name) :
    Alike ((c.insertRelation r).insertRelation r') ((c.insertRelation r').insertRelation r) where
  default_eq := by simp only [defaultSchema_insertRelation]
  schemas n := by
    simp only [bare_schema?_insertRelation]
    by_cases hr : r.name.schema = n
    · by_cases hr' : r'.name.schema = n <;> simp [hr, hr']
    · simp [hr]
  relations q := by
    simp only [relation?_insertRelation]
    by_cases hr : r.name = q
    · subst hr
      simp [Ne.symm h]
    · simp [hr]
  order_perm := by
    simp only [relationOrder_insertRelation, relation?_insertRelation, if_neg h, if_neg (Ne.symm h)]
    by_cases hr : (c.relation? r.name).isSome = true
    · simp [hr]
    · by_cases hr' : (c.relation? r'.name).isSome = true
      · simp [hr, hr']
      · simp only [if_neg hr, if_neg hr', List.append_assoc]
        exact List.perm_append_comm.append_left _

variable {c c' : Catalog}

theorem referenceIssues_withoutAlter (c : Catalog) (k : Constraint) :
    c.referenceIssues k.withoutAlter = c.referenceIssues k :=
  referenceIssues_modifyForeignKey fun _ _ => rfl

theorem Alike.referenceIssues_eq (h : Alike c c') {k k' : Constraint}
    (hk : k'.withoutAlter = k.withoutAlter) : c'.referenceIssues k' = c.referenceIssues k := by
  rw [← referenceIssues_withoutAlter c' k', hk, ← referenceIssues_withoutAlter c k]
  unfold referenceIssues
  simp only [h.checkReference_eq]

/-- The keys of both have the same issues. -/
theorem Alike.allKeyIssues_perm (h : Alike c c') : c'.allKeyIssues.Perm c.allKeyIssues := by
  have hrelation (r : Relation) (c : Catalog) : r.constraints.flatMap c.referenceIssues =
      r.withoutAlter.constraints.flatMap c.referenceIssues := by
    unfold Relation.withoutAlter
    rw [List.flatMap_map]
    simp only [referenceIssues_withoutAlter]
  have hsame (q : QualifiedName) :
      ((c'.relation? q).toList.flatMap fun r => r.constraints.flatMap c'.referenceIssues) =
        (c.relation? q).toList.flatMap fun r => r.constraints.flatMap c.referenceIssues := by
    have hq := h.relations q
    cases hr : c.relation? q with
    | none =>
      rw [hr] at hq
      rw [Option.map_eq_none_iff.1 hq]
      rfl
    | some r =>
      obtain ⟨r', hr', hrr⟩ := h.exists_relation? hr
      rw [hr']
      simp only [Option.toList_some, List.flatMap_cons, List.flatMap_nil, List.append_nil]
      rw [hrelation r', hrr, hrelation r]
      exact List.flatMap_congr fun k _ => h.referenceIssues_eq rfl
  rw [allKeyIssues_eq, allKeyIssues_eq, funext hsame]
  exact h.order_perm.flatMap_right _

end Catalog

end DdlCatalog
