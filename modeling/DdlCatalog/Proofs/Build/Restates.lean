import DdlCatalog.Proofs.Build.Reachable
import DdlCatalog.Proofs.Build.Unplaced

/-! # Adding tables that declare the same
Tables that differ in where their constraints are written are both accepted or both refused, and leave the
same but for texts and places. -/

namespace DdlCatalog

open Text (Location)

namespace DraftM

variable {config : Config} {s s' : CreateTable} {ddl ddl' : String} {l : Location}

theorem unplaced_run_buildTable (h : s.Restates s') {name : QualifiedName} (d : Draft) :
    unplaced Relation.unplaced ((buildTable config name s' ddl' l).run.run d) =
      unplaced Relation.unplaced ((buildTable config name s ddl l).run.run d) := by
  obtain ⟨columns, constraints, rfl⟩ :
      ∃ columns constraints, s' = { s with columns, constraints } := ⟨_, _, h.others⟩
  have hconstraints : constraints.map (·.unplaced) = s.constraints.map (·.unplaced) := h.constraints_eq
  unfold buildTable
  dsimp only
  rcases h.columns_eq with hcolumns | ⟨hcolumns, hnodup⟩
  · obtain rfl : columns = s.columns := hcolumns
    rw [run_bind, run_bind]
    rcases (s.columns.foldlM (addColumn config name) []).run.run d with ⟨e | columns, mid⟩
    · rfl
    · refine unplaced_run_bind (unplaced_run_constraints hconstraints mid) fun ks ks' e e' hks he => ?_
      refine Prod.ext (congrArg Except.ok ?_) he
      dsimp only [Relation.unplaced]
      rw [hks]
  · have hfails : ∃ e mid, (s.columns.foldlM (addColumn config name) []).run.run d = (.error e, mid) ∧
        (columns.foldlM (addColumn config name) []).run.run d = (.error e, mid) := by
      apply exists_run_columns_error hcolumns rfl
      · exact List.nodup_nil
      · exact hnodup
    obtain ⟨e, mid, hrun, hrun'⟩ := hfails
    rw [run_bind, run_bind, hrun, hrun']

/-- A table is inserted and its keys are taken care of. -/
theorem run_insertTable (t : Relation) (name : QualifiedName) (d : Draft) :
    (do change (·.insertRelation t); registerForeignKeys name t.constraints : DraftM Unit).run.run d =
      (.ok (), t.constraints.foldl (Draft.register name)
        { d with catalog := d.catalog.insertRelation t }) :=
  runs_bind.2 ⟨(), _, runs_change.2 rfl, runs_registerForeignKeys.2 rfl⟩

theorem unplaced_run_createTable (h : s.Restates s') {scope : Scope} (d : Draft) :
    unplaced id ((createTable config scope s' ddl' l).run.run d) =
      unplaced id ((createTable config scope s ddl l).run.run d) := by
  have hname : s'.name = s.name := by rw [h.others]
  have hskip : s'.ifNotExists = s.ifNotExists := by rw [h.others]
  unfold createTable
  rw [hname, hskip, run_bind, run_bind]
  rcases (place config scope s.name l).run.run d with ⟨e | name, mid⟩
  · rfl
  dsimp only
  rw [run_bind, run_bind]
  have hcatalog : catalog.run.run mid = (.ok mid.catalog, mid) := rfl
  rw [hcatalog]
  dsimp only
  cases mid.catalog.relationKind? name with
  | some kind => rfl
  | none =>
    refine unplaced_run_bind (unplaced_run_buildTable h mid) fun t t' e e' ht he => ?_
    rw [run_insertTable, run_insertTable]
    refine Prod.ext rfl ?_
    have hks : t'.constraints.map (·.unplaced) = t.constraints.map (·.unplaced) :=
      congrArg Relation.constraints ht
    show Draft.unplaced _ = Draft.unplaced _
    rw [Draft.unplaced_registerAll, Draft.unplaced_registerAll, Draft.unplaced_insert, Draft.unplaced_insert,
      hks, ht, he]

end DraftM

/-- The statements declare the same table. -/
structure ParsedStatement.Restates (p p' : ParsedStatement) : Prop where
  location_eq : p'.location = p.location
  tables : ∃ s s', p.statement = .createTable s ∧ p'.statement = .createTable s' ∧ s.Restates s'

namespace DraftM

variable {p p' : ParsedStatement}

theorem unplaced_run_accumulateAll (h : p.Restates p') (config : Config) (d : Draft) :
    unplaced id ((accumulateAll config [p']).run.run d) =
      unplaced id ((accumulateAll config [p]).run.run d) := by
  obtain ⟨hl, s, s', hs, hs', hrestates⟩ := h
  have hall (p : ParsedStatement) : accumulateAll config [p] =
      accumulate config none p >>= fun _ => (pure () : DraftM Unit) := by
    have hone : [p].foldlM (accumulate config) none = accumulate config none p := bind_pure _
    unfold accumulateAll
    rw [hone]
    exact map_eq_pure_bind (fun _ => ()) (accumulate config none p)
  have hstep : unplaced id ((accumulate config none p').run.run d) =
      unplaced id ((accumulate config none p).run.run d) := by
    unfold accumulate
    rw [hs, hs', hl, run_bind, run_bind]
    refine unplaced_run_bind (unplaced_run_createTable hrestates _) fun _ _ e e' _ he => ?_
    exact Prod.ext rfl he
  rw [hall, hall]
  exact unplaced_run_bind hstep fun _ _ e e' _ he => Prod.ext rfl he

end DraftM

namespace Draft

variable {p p' : ParsedStatement}

/-- A source of one table is accepted or fails like one that declares the same. -/
theorem unplaced_addStatements (h : p.Restates p') (config : Config) (source : String) (d : Draft) :
    DraftM.unplaced id (d.addStatements config source [p']) =
      DraftM.unplaced id (d.addStatements config source [p]) := by
  have hrun := DraftM.unplaced_run_accumulateAll h config
    { d with log := d.log ++ [.accumulate source 1] }
  unfold addStatements
  dsimp only [List.length_singleton]
  generalize (DraftM.accumulateAll config [p]).run.run { d with log := _ } = o at hrun ⊢
  generalize (DraftM.accumulateAll config [p']).run.run { d with log := _ } = o' at hrun ⊢
  obtain ⟨result, added⟩ := o
  obtain ⟨result', added'⟩ := o'
  obtain ⟨hresult, hdraft⟩ := Prod.mk.inj hrun
  cases result with
  | ok _ =>
    cases result' with
    | ok _ => exact Prod.ext rfl hdraft
    | error _ => cases hresult
  | error e =>
    cases result' with
    | ok _ => cases hresult
    | error e' =>
      have he : e'.unplaced = e.unplaced := Except.error.inj hresult
      refine Prod.ext (congrArg Except.error he) ?_
      show Draft.unplaced _ = Draft.unplaced _
      unfold restore unplaced
      have hissues : added'.issues.map (·.unplaced) = added.issues.map (·.unplaced) :=
        congrArg Draft.issues hdraft
      have hlog : added'.log.map (·.unplaced) = added.log.map (·.unplaced) := congrArg Draft.log hdraft
      have hlast : (Event.rollback e').unplaced = (Event.rollback e).unplaced :=
        congrArg Event.rollback he
      simp only [List.map_take, List.map_append, hissues, hlog, List.map_singleton, hlast]

end Draft

end DdlCatalog
