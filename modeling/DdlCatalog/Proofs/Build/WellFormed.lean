import DdlCatalog.Proofs.Build.ForeignKey
import DdlCatalog.Proofs.Build.Reachable
import DdlCatalog.Proofs.Catalog.WellFormed

/-! # Catalogs under construction are well formed
Each statement keeps the catalog well formed, and a source that fails leaves it as it was. -/

namespace DdlCatalog

open Text (Location)

variable {config : Config} {c : Catalog} {q : QualifiedName}

theorem Declares.isPrimaryKey_iff {table : QualifiedName} {d : TableConstraint} {k : Constraint}
    (h : Declares config table d k) : k.kind = .primaryKey ↔ d.isPrimaryKey = true := by
  have hkind := h.kind_eq
  generalize k.kind = kind at hkind ⊢
  unfold DraftM.constraintKind at hkind
  unfold TableConstraint.isPrimaryKey
  cases hd : d.kind with
  | foreignKey r =>
    simp only [hd] at hkind
    split at hkind
    · cases hkind
    · cases hkind
      simp
  | _ =>
    simp only [hd] at hkind
    cases hkind
    simp

theorem Drawn.length_primaryKeys {s : CreateTable} {t : Relation} (h : Drawn config c q s t) :
    (t.constraints.filter (·.kind = .primaryKey)).length =
      (s.constraints.filter (·.isPrimaryKey)).length := by
  have hfilter := List.rel_filter (p := (·.isPrimaryKey)) (q := fun k => k.kind = .primaryKey)
    (fun _ _ hd => by simpa using (Declares.isPrimaryKey_iff hd).symm) h.declares
  exact hfilter.length_eq.symm

theorem Drawn.wellFormed {s : CreateTable} {t : Relation} (h : Drawn config c q s t)
    (hs : s.WellWritten) : t.WellFormed where
  columns_nodup := h.columns_nodup
  names_nodup := by
    rw [h.indexes_eq, List.map_nil, List.append_nil]
    exact h.names_nodup
  one_key := by
    rw [h.length_primaryKeys]
    exact hs.one_key
  key_notNull := by
    intro k hk hkind col hcol hname
    obtain ⟨d, hd, hdeclares⟩ := h.exists_declares hk
    have hcolumns := h.columns_nodup
    rw [h.columns_eq] at hcolumns hcol
    obtain ⟨cd, hcd, rfl⟩ := List.mem_map.1 hcol
    rw [List.map_map] at hcolumns
    rw [hdeclares.columns_eq, Catalog.resolvedColumn_name] at hname
    rw [Catalog.resolvedColumn_nullable]
    have hnodup : (s.columns.map (·.column.name)).Nodup := by
      simpa [Function.comp_def] using hcolumns
    exact hs.key_notNull d hd (hdeclares.isPrimaryKey_iff.1 hkind) _ hname cd
      (Relation.find?_of_nodup hnodup hcd)
  view_constraints := by
    intro hv
    simp [Relation.isView, h.kind_eq] at hv

theorem CreateView.wellFormed_view {s : CreateView} (hs : s.columns.Nodup) (q : QualifiedName)
    (ddl : String) (l : Location) : (s.view q ddl l).WellFormed where
  columns_nodup := by simpa [CreateView.view, Column.named, Function.comp_def] using hs
  names_nodup := List.nodup_nil
  one_key := Nat.zero_le 1
  key_notNull _ hk := nomatch hk
  view_constraints _ := rfl

theorem Relation.WellFormed.addIndex {r : Relation} (h : r.WellFormed) {i : Index}
    (hfree : i.name ∉ DraftM.takenIndexNames r) :
    Relation.WellFormed { r with indexes := r.indexes ++ [i] } := by
  refine { h with names_nodup := ?_ }
  rw [List.map_append, List.map_singleton, ← List.append_assoc, ← List.concat_eq_append]
  refine h.names_nodup.concat fun hm => hfree ?_
  unfold DraftM.takenIndexNames
  rw [List.mem_append] at hm ⊢
  exact hm.symm

theorem Catalog.routineKind?_schemaOrNew (c : Catalog) (r : Routine) :
    ((c.schema? r.name.schema).getD (Schema.ofName r.name.schema)).routineKind? r =
      c.routineKind? r := by
  unfold Catalog.routineKind?
  cases c.schema? r.name.schema <;> rfl

theorem Catalog.WellFormed.insertFunction (h : c.WellFormed) {f : StoredFunction}
    (ha : c.Admits f.routine .function) :
    (c.modifySchema f.routine.name.schema (·.insertFunction f)).WellFormed := by
  have hs := h.schemaOrNew f.routine.name.schema
  refine h.modifySchema (hs.insertFunction rfl (hs.procedures_differ ?_)) fun _ => rfl
  rw [c.routineKind?_schemaOrNew]
  exact ha.imp_right And.left

theorem Catalog.WellFormed.insertProcedure (h : c.WellFormed) {p : StoredProcedure}
    (ha : c.Admits p.routine .procedure) :
    (c.modifySchema p.routine.name.schema (·.insertProcedure p)).WellFormed := by
  have hs := h.schemaOrNew p.routine.name.schema
  refine h.modifySchema (hs.insertProcedure rfl (Schema.WellFormed.functions_differ ?_)) fun _ => rfl
  rw [c.routineKind?_schemaOrNew]
  exact ha.imp_right And.left

theorem Step.wellFormed {p : ParsedStatement} {scope scope' : Scope} {d d' : Draft}
    {found : NewTable} (hp : Grammar.Parsed p) (step : Step config p scope d scope' found d') (h : d.catalog.WellFormed) :
    d'.catalog.WellFormed := by
  cases step with
  | schema => exact h.ensureSchema _
  | @enum s q _ _ _ free =>
    exact (h.ensureSchema q.schema).insertEnum (e := ⟨q, s.labels, s.pragma, p.location⟩)
      ((Catalog.relationKind?_eq_none_iff _ q).1 free).2
  | tableSkipped => exact h.ensureSchema _
  | table said placed free drawn =>
    apply (h.ensureSchema _).insertRelation (drawn.wellFormed (hp.wellWritten said))
    rw [drawn.name_eq]
    exact ((Catalog.relationKind?_eq_none_iff _ _).1 free).1
  | viewSkipped => exact h.ensureSchema _
  | @view s q _ _ _ free distinct =>
    have hc := h.ensureSchema q.schema
    apply hc.insertRelation (CreateView.wellFormed_view distinct q _ _)
    rcases free with hnone | ⟨hview, -⟩
    · exact ((Catalog.relationKind?_eq_none_iff _ q).1 hnone).1
    · obtain ⟨r, hr, -⟩ := Catalog.relation?_of_relationKind?_view _ hview
      exact hc.enum?_eq_none hr
  | indexUnplaced => exact h
  | indexSkipped => exact h
  | index _ known _ free =>
    exact h.modifyRelation known rfl ((h.relation known).2.addIndex free)
  | function _ _ admitted => exact (h.ensureSchema _).insertFunction admitted
  | procedure _ _ admitted => exact (h.ensureSchema _).insertProcedure admitted
  | @prepared s q =>
    exact (h.ensureSchema q.schema).insertPrepared
      (p := ⟨q, s.parameterTypes, s.parameters, s.body, p.location⟩)

namespace Builder

theorem Traced.wellFormed {b : Builder} {trace : Trace} (h : Traced config b trace) :
    b.draft.catalog.WellFormed :=
  h.invariant (P := fun d => d.catalog.WellFormed) (Catalog.WellFormed.ofDefaultSchema _)
    (fun h => h) Step.wellFormed fun found hd =>
      hd.relink (Draft.advances_registerDeclared _ found).toRelinked

/-- The catalog of every builder is well formed, and its relations in order are those that can be looked
up, each once. -/
theorem wellFormed_of_reachable {b : Builder} (h : Reachable config b) :
    b.draft.catalog.WellFormed ∧ b.draft.catalog.relations.Nodup ∧
      ∀ r, r ∈ b.draft.catalog.relations ↔ b.draft.catalog.relation? r.name = some r := by
  obtain ⟨trace, ht⟩ := exists_traced h
  have hc := ht.wellFormed
  exact ⟨hc, hc.relations_nodup, hc.mem_relations⟩

/-- A source whose table exists already is rejected after one that was accepted. -/
def repeatedBuilder : Builder :=
  (((Builder.ofConfig Config.default).addSource "a.sql" "create table a (b int)").2.addSource "b.sql"
    "create view c as select 1; create table a (b int)").2

theorem wellFormed_repeatedBuilder :
    repeatedBuilder.draft.catalog.relationOrder = [⟨"public", "a"⟩] ∧
      repeatedBuilder.draft.catalog.WellFormed ∧ repeatedBuilder.draft.catalog.relations.Nodup ∧
      ∀ r, r ∈ repeatedBuilder.draft.catalog.relations ↔
        repeatedBuilder.draft.catalog.relation? r.name = some r :=
  ⟨by decide +kernel, wellFormed_of_reachable (.addSource (.addSource .start _ _) _ _)⟩

end Builder

end DdlCatalog
