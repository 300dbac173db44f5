import DdlCatalog.Proofs.Catalog.Relinked

/-! # References between relations
What the check of a key answers depends on little of its target. It is not changed by linking, nor by
what is declared later. -/

namespace DdlCatalog

open Text (Location)

/-- The relations look the same to a key that refers to them. -/
structure Relation.SameTarget (r r' : Relation) : Prop where
  view_eq : r'.isView = r.isView
  columns_eq : r.isView = false → r'.columns.map (·.name) = r.columns.map (·.name)
  key_eq : r.isView = false → r'.primaryKeyColumns = r.primaryKeyColumns

namespace Relation

theorem SameTarget.refl (r : Relation) : r.SameTarget r := ⟨rfl, fun _ => rfl, fun _ => rfl⟩

theorem sameTarget_of_unlinked {r r' : Relation} (h : r'.unlinked = r.unlinked) :
    r.SameTarget r' where
  view_eq := (congrArg Relation.isView h :)
  columns_eq _ := (congrArg (fun r => r.columns.map (·.name)) h :)
  key_eq _ := by rw [← primaryKeyColumns_unlinked, h, primaryKeyColumns_unlinked]

theorem hasColumn_iff (r : Relation) (name : String) :
    r.hasColumn name = true ↔ name ∈ r.columns.map (·.name) := by
  simp [hasColumn, column?]

end Relation

namespace Catalog

variable {c c' c'' : Catalog} {key : ForeignKey} {columns referenced : List String} {l : Location}

theorem referencedColumns_eq_ok_iff {target : Relation} :
    referencedColumns target key columns l = .ok referenced ↔
      (key.referencedColumns = [] ∧ target.primaryKeyColumns = referenced ∧ referenced ≠ [] ∧
        referenced.length = columns.length) ∨
      (key.referencedColumns ≠ [] ∧ key.referencedColumns = referenced) := by
  unfold referencedColumns
  dsimp only
  split
  · next hk =>
    rw [List.isEmpty_iff] at hk
    split
    · next hp =>
      rw [List.isEmpty_iff] at hp
      simp +contextual [hk, hp, eq_comm]
    · next hp =>
      rw [List.isEmpty_iff] at hp
      split
      · next hl =>
        simp only [hk, reduceCtorEq, false_iff]
        rintro (⟨-, rfl, -, heq⟩ | ⟨hne, -⟩)
        · exact hl heq
        · exact hne rfl
      · next hl =>
        have hl : target.primaryKeyColumns.length = columns.length := by omega
        simp only [hk, Except.ok.injEq, ne_eq, not_true_eq_false, false_and, or_false, true_and]
        constructor
        · rintro rfl
          exact ⟨rfl, hp, hl⟩
        · exact And.left
  · next hk =>
    rw [List.isEmpty_iff] at hk
    simp [hk]

theorem checkReference_eq_ok_iff :
    c.checkReference key columns l = .ok referenced ↔
      ∃ target, c.relation? key.referencedTable = some target ∧ target.isView = false ∧
        referencedColumns target key columns l = .ok referenced ∧
        ∀ name ∈ referenced, target.hasColumn name = true := by
  unfold checkReference
  cases ht : c.relation? key.referencedTable with
  | none => simp
  | some target =>
    cases hv : target.isView with
    | true => simp [hv]
    | false =>
      cases hr : referencedColumns target key columns l with
      | error e => simp [hv, hr]
      | ok found =>
        have hfound : (∀ name ∈ found, target.hasColumn name = true) ↔
            found.filter (!target.hasColumn ·) = [] := by simp
        simp only [hv, hr, Bool.false_eq_true, if_false]
        cases hm : found.filter (!target.hasColumn ·) with
        | nil =>
          rw [hm] at hfound
          constructor
          · intro h
            cases h
            exact ⟨target, rfl, hv, hr, hfound.2 rfl⟩
          · rintro ⟨target', ht', -, hr', -⟩
            cases ht'
            rw [hr] at hr'
            cases hr'
            rfl
        | cons first rest =>
          rw [hm] at hfound
          constructor
          · intro h
            cases h
          · rintro ⟨target', ht', -, hr', hall⟩
            cases ht'
            rw [hr] at hr'
            cases hr'
            cases hfound.1 hall

theorem checkReference_error_ne_nil {issues : List Error}
    (h : c.checkReference key columns l = .error issues) : issues ≠ [] := by
  unfold checkReference at h
  cases ht : c.relation? key.referencedTable with
  | none =>
    rw [ht] at h
    cases h
    exact List.cons_ne_nil _ _
  | some target =>
    simp only [ht] at h
    split at h
    · cases h
      exact List.cons_ne_nil _ _
    · cases hr : referencedColumns target key columns l with
      | error e =>
        simp only [hr] at h
        cases h
        exact List.cons_ne_nil _ _
      | ok found =>
        simp only [hr] at h
        cases hm : found.filter (!target.hasColumn ·) with
        | nil =>
          rw [hm] at h
          cases h
        | cons first rest =>
          rw [hm] at h
          cases h
          exact List.cons_ne_nil _ _

/-- Keys see no more of their target than `SameTarget` compares. -/
theorem checkReference_of_sameTarget {r r' : Relation} (hr : c.relation? key.referencedTable = some r)
    (hr' : c'.relation? key.referencedTable = some r') (h : r.SameTarget r') :
    c'.checkReference key columns l = c.checkReference key columns l := by
  unfold checkReference
  rw [hr, hr']
  dsimp only
  rw [h.view_eq]
  cases hv : r.isView with
  | true => rfl
  | false =>
    have hcolumn (name : String) : r'.hasColumn name = r.hasColumn name := by
      rw [Bool.eq_iff_iff, Relation.hasColumn_iff, Relation.hasColumn_iff, h.columns_eq hv]
    have hreferenced : referencedColumns r' key columns l = referencedColumns r key columns l := by
      unfold referencedColumns
      rw [h.key_eq hv]
    rw [hreferenced]
    simp only [hcolumn]

theorem checkReference_of_none (h : c.relation? key.referencedTable = none) :
    c.checkReference key columns l =
      .error [.unresolvedReference l (toString key.referencedTable) none] := by
  unfold checkReference
  rw [h]

theorem checkReference_relink (h : c.Relinked c') :
    c'.checkReference key columns l = c.checkReference key columns l := by
  cases hr : c.relation? key.referencedTable with
  | none => rw [checkReference_of_none hr, checkReference_of_none (h.relation?_eq_none hr)]
  | some r =>
    obtain ⟨r', hr', hrr⟩ := h.exists_relation? hr
    exact checkReference_of_sameTarget hr hr' (Relation.sameTarget_of_unlinked hrr)

/-- Relations may come but not go, and those that are there look the same to keys. -/
def Grows (c c' : Catalog) : Prop :=
  ∀ q r, c.relation? q = some r → ∃ r', c'.relation? q = some r' ∧ r.SameTarget r'

/-- A key whose target is known is checked in the same way ever after. -/
theorem Grows.checkReference_eq (h : c.Grows c')
    (ht : (c.relation? key.referencedTable).isSome = true) :
    c'.checkReference key columns l = c.checkReference key columns l := by
  obtain ⟨r, hr⟩ := Option.isSome_iff_exists.1 ht
  obtain ⟨r', hr', hs⟩ := h _ _ hr
  exact checkReference_of_sameTarget hr hr' hs

/-- Where relations stay as they are, so do targets. -/
theorem grows_of_relation?_eq (h : ∀ q, c'.relation? q = c.relation? q) : c.Grows c' :=
  fun q r hr => ⟨r, (h q).trans hr, .refl r⟩

/-- What a relation replaces is a view, and so is the relation. -/
def ReplacesView (c : Catalog) (r : Relation) : Prop :=
  ∀ r₀, c.relation? r.name = some r₀ → r₀.isView = true ∧ r.isView = true ∧ r.constraints = []

theorem grows_insertRelation {r : Relation} (h : c.ReplacesView r) : c.Grows (c.insertRelation r) := by
  intro q r₀ hr₀
  rw [relation?_insertRelation]
  split
  · next hq =>
    subst hq
    obtain ⟨hv₀, hv, -⟩ := h r₀ hr₀
    refine ⟨r, rfl, hv.trans hv₀.symm, fun hv => ?_, fun hv => ?_⟩
    · rw [hv₀] at hv
      cases hv
    · rw [hv₀] at hv
      cases hv
  · exact ⟨r₀, hr₀, .refl r₀⟩

end Catalog

end DdlCatalog
