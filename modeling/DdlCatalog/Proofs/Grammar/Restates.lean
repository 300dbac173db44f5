import DdlCatalog.Proofs.Grammar.InlineTable
import DdlCatalog.Proofs.Statement.Relocated

/-! # Tables that declare the same
A key at the table and the same key in its column give tables that differ in where the key is written, as
long as no two columns have the same name. -/

namespace DdlCatalog.Grammar

open Text (Location)

theorem markNotNull_append_of_mem {columns : List ColumnDef} {name : String}
    (h : name ∈ columns.map (·.column.name)) (more : List ColumnDef) :
    markNotNull (columns ++ more) name = markNotNull columns name ++ more := by
  induction columns with
  | nil => cases h
  | cons d columns ih =>
    unfold markNotNull at ih ⊢
    rw [List.cons_append, Relation.modifyFirst, Relation.modifyFirst]
    split
    · rfl
    · next hd =>
      rcases List.mem_cons.1 h with rfl | hm
      · simp at hd
      · rw [ih hm, List.cons_append]

theorem markNotNull_append_of_not_mem {columns : List ColumnDef} {name : String}
    (h : name ∉ columns.map (·.column.name)) (more : List ColumnDef) :
    markNotNull (columns ++ more) name = columns ++ markNotNull more name := by
  induction columns with
  | nil => rfl
  | cons d columns ih =>
    rw [List.map_cons, List.mem_cons, not_or] at h
    unfold markNotNull at ih ⊢
    rw [List.cons_append, Relation.modifyFirst, if_neg (by simpa using Ne.symm h.1), ih h.2,
      List.cons_append]

theorem completeCheck_congr {columns columns' : List ColumnDef}
    (h : columns'.map (·.column.name) = columns.map (·.column.name)) (k : TableConstraint) :
    completeCheck columns' k = completeCheck columns k := by
  have hany (name : String) : (columns'.any (·.column.name = name)) = columns.any (·.column.name = name) := by
    have hmap (cs : List ColumnDef) : (cs.any (·.column.name = name)) =
        (cs.map (·.column.name)).any (· = name) := by rw [List.any_map]; rfl
    rw [hmap, hmap, h]
  unfold completeCheck
  simp only [hany]

variable {n : ObjectName} {es : List TableElement} {d : ColumnDraft} {l l' : Location} {k : TableConstraint}

/-- The column of the key, whichever way the key is written. -/
def keyColumn (d : ColumnDraft) (kind : ConstraintDef) : Column :=
  if kind = .primaryKey then d.column.notNull else d.column

theorem keyColumn_name (d : ColumnDraft) (kind : ConstraintDef) :
    (keyColumn d kind).name = d.column.name := by
  unfold keyColumn
  split <;> rfl

theorem columns_keyAtTable : (keyAtTable es d l k).flatMap Prod.fst = es.flatMap Prod.fst ++ [⟨d.column, l⟩] := by
  simp [keyAtTable]

theorem constraints_keyAtTable :
    (keyAtTable es d l k).flatMap Prod.snd = es.flatMap Prod.snd ++ d.constraints ++ [k] := by
  simp [keyAtTable]

theorem columns_keyInColumn :
    (keyInColumn es d l k l').flatMap Prod.fst = es.flatMap Prod.fst ++ [⟨keyColumn d k.kind, l⟩] := by
  simp only [keyInColumn, ColumnDraft.withKey, keyColumn, List.flatMap_append, List.flatMap_singleton]
  split <;> rfl

theorem constraints_keyInColumn :
    (keyInColumn es d l k l').flatMap Prod.snd = es.flatMap Prod.snd ++ d.constraints ++
      [⟨k.name, [d.column.name], k.kind, true, l'⟩] := by
  simp only [keyInColumn, ColumnDraft.withKey, List.flatMap_append, List.flatMap_singleton,
    List.append_assoc]
  split <;> rfl

theorem length_primaryKeys (es : List TableElement) (d : ColumnDraft) (l l' : Location) (k : TableConstraint) :
    (primaryKeys (keyInColumn es d l k l')).length = (primaryKeys (keyAtTable es d l k)).length := by
  unfold primaryKeys
  rw [constraints_keyAtTable, constraints_keyInColumn]
  generalize es.flatMap Prod.snd ++ d.constraints = ks
  rw [List.filter_append, List.filter_append, List.length_append, List.length_append]
  by_cases hk : k.kind = .primaryKey <;> simp [TableConstraint.isPrimaryKey, hk]

/-- A key in its column marks the same columns as the key at the table. -/
theorem columns_tableOf (hcolumns : k.columns = [d.column.name])
    (hkeys : (primaryKeys (keyAtTable es d l k)).length ≤ 1) :
    (tableOf n (keyInColumn es d l k l')).columns = (tableOf n (keyAtTable es d l k)).columns ∨
      ((tableOf n (keyInColumn es d l k l')).columns.map (·.relaxed) =
          (tableOf n (keyAtTable es d l k)).columns.map (·.relaxed) ∧
        ¬ ((tableOf n (keyAtTable es d l k)).columns.map (·.column.name)).Nodup) := by
  unfold tableOf
  dsimp only
  rw [columns_keyAtTable, constraints_keyAtTable, columns_keyInColumn, constraints_keyInColumn]
  unfold primaryKeys at hkeys
  rw [constraints_keyAtTable] at hkeys
  generalize es.flatMap Prod.fst = columns
  generalize es.flatMap Prod.snd ++ d.constraints = ks at hkeys ⊢
  by_cases hk : k.kind = .primaryKey
  · have hself (k' : TableConstraint) (hkind : k'.kind = .primaryKey) :
        [k'].filter (·.isPrimaryKey) = [k'] := by
      simp [TableConstraint.isPrimaryKey, hkind]
    -- no other key marks a column
    have hnone : ks.filter (·.isPrimaryKey) = [] := by
      rw [List.filter_append, List.length_append, hself k hk, List.length_singleton] at hkeys
      exact List.length_eq_zero_iff.1 (by omega)
    have hmark (k' : TableConstraint) (hkind : k'.kind = .primaryKey)
        (hcolumns : k'.columns = [d.column.name]) (cs : List ColumnDef) :
        markKeys cs (ks ++ [k']) = markNotNull cs d.column.name := by
      unfold markKeys
      rw [List.filter_append, hnone, hself k' hkind, List.nil_append, List.flatMap_singleton, hcolumns]
      rfl
    rw [hmark k hk hcolumns, hmark ⟨k.name, [d.column.name], k.kind, true, l'⟩ hk rfl, keyColumn, if_pos hk]
    by_cases hmem : d.column.name ∈ columns.map (·.column.name)
    · right
      rw [markNotNull_append_of_mem hmem, markNotNull_append_of_mem hmem]
      refine ⟨by simp [ColumnDef.relaxed, Column.notNull], ?_⟩
      rw [List.map_append, markNotNull_names]
      exact fun hnodup => (List.nodup_append.1 hnodup).2.2 _ hmem _ (List.mem_singleton_self _) rfl
    · left
      rw [markNotNull_append_of_not_mem hmem, markNotNull_append_of_not_mem hmem]
      simp [markNotNull, Relation.modifyFirst, Column.notNull]
  · left
    have hfilter (name : Option String) (inColumn : Bool) (l : Location) (names : List String) :
        (ks ++ [(⟨name, names, k.kind, inColumn, l⟩ : TableConstraint)]).filter (·.isPrimaryKey) =
          ks.filter (·.isPrimaryKey) := by
      simp [List.filter_append, TableConstraint.isPrimaryKey, hk]
    unfold markKeys
    rw [hfilter, show k = ⟨k.name, k.columns, k.kind, k.inColumn, k.location⟩ from rfl, hfilter, keyColumn,
      if_neg hk]

/-- A key in its column gives the table of the key at the table. -/
theorem restates_tableOf (hcolumns : k.columns = [d.column.name]) (hcheck : ∀ e, k.kind ≠ .check e)
    (hkeys : (primaryKeys (keyAtTable es d l k)).length ≤ 1) :
    (tableOf n (keyAtTable es d l k)).Restates (tableOf n (keyInColumn es d l k l')) where
  others := rfl
  columns_eq := columns_tableOf hcolumns hkeys
  constraints_eq := by
    unfold tableOf
    dsimp only
    have hnames : (markKeys ((keyInColumn es d l k l').flatMap Prod.fst)
          ((keyInColumn es d l k l').flatMap Prod.snd)).map (·.column.name) =
        (markKeys ((keyAtTable es d l k).flatMap Prod.fst)
          ((keyAtTable es d l k).flatMap Prod.snd)).map (·.column.name) := by
      rw [markKeys_names, markKeys_names, columns_keyAtTable, columns_keyInColumn]
      simp [keyColumn_name]
    rw [funext (completeCheck_congr hnames), constraints_keyAtTable, constraints_keyInColumn]
    generalize markKeys _ (es.flatMap Prod.snd ++ d.constraints ++ [k]) = columns
    generalize es.flatMap Prod.snd ++ d.constraints = ks
    have hplaced : completeCheck columns ⟨k.name, [d.column.name], k.kind, true, l'⟩ =
        ⟨k.name, [d.column.name], k.kind, true, l'⟩ := completeCheck_of_not_check hcheck
    simp only [List.map_append, List.map_singleton, hplaced, completeCheck_of_not_check hcheck,
      TableConstraint.unplaced, hcolumns]

end DdlCatalog.Grammar
