import DdlCatalog.Proofs.Build.ForeignKey
import DdlCatalog.Proofs.Build.Table
import DdlCatalog.Proofs.Catalog.Unplaced
import DdlCatalog.Proofs.Statement.Relocated

/-! # Building without texts and places
Where a constraint is written decides where its issues are and nothing else. Tables that differ in where
their constraints are written leave drafts that differ in texts and places only, and these are finished
alike. -/

namespace DdlCatalog

open Text (Location)

def Event.unplaced : Event → Event
  | rollback e => rollback e.unplaced
  | issue e => issue e.unplaced
  | e => e

def PendingReference.unplaced (r : PendingReference) : PendingReference := { r with location := default }

namespace Draft

/-- A draft without the texts of its relations, the places of its constraints and the places of issues. -/
def unplaced (d : Draft) : Draft where
  catalog := d.catalog.unplaced
  pending := d.pending.mapValues (·.map (·.unplaced))
  issues := d.issues.map (·.unplaced)
  log := d.log.map (·.unplaced)

variable (d : Draft)

theorem isSome_relation?_unplaced (q : QualifiedName) :
    (d.unplaced.catalog.relation? q).isSome = (d.catalog.relation? q).isSome :=
  (congrArg Option.isSome (d.catalog.relation?_unplaced q)).trans Option.isSome_map

theorem unplaced_link (id : KeyId) : (d.link id).unplaced = d.unplaced.link id := by
  unfold link unplaced
  simp only [Catalog.unplaced_linkKey, Catalog.keyIssues_unplaced, List.map_append]

theorem unplaced_suspend (owner : QualifiedName) (k : Constraint) (target : QualifiedName) :
    (d.suspend owner k target).unplaced = d.unplaced.suspend owner k.unplaced target := by
  have hpending : (d.pending.alter target fun rs => rs.getD [] ++ [⟨owner, k.name, k.location⟩]).mapValues
        (·.map (·.unplaced)) =
      (d.pending.mapValues (·.map (·.unplaced))).alter target fun rs =>
        rs.getD [] ++ [⟨owner, k.name, default⟩] := by
    refine OrderedMap.mapValues_alter _ fun rs => ?_
    cases rs with
    | none => rfl
    | some rs => exact List.map_append ..
  unfold suspend unplaced
  simp only [hpending, Catalog.unplaced_modifyForeignKey, List.map_append]
  rfl

theorem unplaced_register (owner : QualifiedName) (k : Constraint) :
    (d.register owner k).unplaced = d.unplaced.register owner k.unplaced := by
  unfold register
  rw [k.foreignKey?_unplaced]
  cases k.foreignKey? with
  | none => rfl
  | some key =>
    dsimp only
    rw [isSome_relation?_unplaced]
    split
    · exact d.unplaced_link _
    · exact d.unplaced_suspend owner k _

theorem unplaced_registerAll (owner : QualifiedName) (ks : List Constraint) :
    (ks.foldl (register owner) d).unplaced = (ks.map (·.unplaced)).foldl (register owner) d.unplaced := by
  induction ks generalizing d with
  | nil => rfl
  | cons k ks ih => rw [List.foldl_cons, ih, unplaced_register, List.map_cons, List.foldl_cons]

theorem unplaced_insert (t : Relation) :
    ({ d with catalog := d.catalog.insertRelation t } : Draft).unplaced =
      { d.unplaced with catalog := d.unplaced.catalog.insertRelation t.unplaced } :=
  congrArg (fun catalog => { d.unplaced with catalog }) (d.catalog.unplaced_insertRelation t)

theorem unplaced_resolve (w : QualifiedName × PendingReference) :
    (d.resolve w).unplaced = d.unplaced.resolve (w.1, w.2.unplaced) := by
  unfold resolve
  dsimp only
  rw [isSome_relation?_unplaced]
  split
  · exact d.unplaced_link _
  · exact congrArg (fun issues => { d.unplaced with issues }) List.map_append

theorem pendingReferences_unplaced :
    d.unplaced.pendingReferences = d.pendingReferences.map fun w => (w.1, w.2.unplaced) := by
  unfold pendingReferences unplaced OrderedMap.mapValues
  simp [List.flatMap_map, List.map_flatMap, Function.comp_def]

theorem unplaced_settle : d.settle.unplaced = d.unplaced.settle := by
  have hall (ws : List (QualifiedName × PendingReference)) (d : Draft) :
      (ws.foldl resolve d).unplaced = (ws.map fun w => (w.1, w.2.unplaced)).foldl resolve d.unplaced := by
    induction ws generalizing d with
    | nil => rfl
    | cons w ws ih => rw [List.foldl_cons, ih, unplaced_resolve, List.map_cons, List.foldl_cons]
  rw [settle_eq, settle_eq, hall, pendingReferences_unplaced, List.length_map]
  congr 1
  unfold unplaced
  simp only [List.map_append]
  rfl

/-- What a draft is finished as does not depend on texts and places. -/
theorem finish_unplaced :
    d.unplaced.finish.1 = (d.finish.1.mapError Error.unplaced).map Catalog.unplaced := by
  have hissues : d.settle.unplaced.issues = d.settle.issues.map (·.unplaced) := rfl
  unfold finish
  dsimp only
  rw [← unplaced_settle, hissues]
  cases d.settle.issues with
  | nil => rfl
  | cons e issues =>
    show Except.error (Error.finalize _) = Except.error (Error.unplaced (.finalize _))
    rw [Error.unplaced, Error.allUnplaced_eq]

end Draft

namespace DraftM

variable {α β γ σ : Type} {config : Config}

/-- What a step comes to, without texts and places. -/
def unplaced (f : α → β) (o : Except Error α × Draft) : Except Error β × Draft :=
  ((o.1.mapError Error.unplaced).map f, o.2.unplaced)

theorem unplaced_id_eq_iff {o o' : Except Error α × Draft} :
    unplaced id o' = unplaced id o ↔
      o'.1.mapError Error.unplaced = o.1.mapError Error.unplaced ∧ o'.2.unplaced = o.2.unplaced := by
  unfold unplaced
  rw [Prod.mk.injEq, Except.map_id]
  rfl

/-- Steps that come to the same, followed by steps that come to the same. -/
theorem unplaced_run_bind {m m' : DraftM α} {k k' : α → DraftM γ} {f : α → β} {g : γ → σ} {d d' : Draft}
    (h : unplaced f (m'.run.run d') = unplaced f (m.run.run d))
    (hk : ∀ a a' e e', f a' = f a → e'.unplaced = e.unplaced →
      unplaced g ((k' a').run.run e') = unplaced g ((k a).run.run e)) :
    unplaced g ((m' >>= k').run.run d') = unplaced g ((m >>= k).run.run d) := by
  rw [run_bind, run_bind]
  generalize m.run.run d = o at h ⊢
  generalize m'.run.run d' = o' at h ⊢
  obtain ⟨result, e⟩ := o
  obtain ⟨result', e'⟩ := o'
  obtain ⟨hresult, hdraft⟩ := Prod.mk.inj h
  cases result with
  | error x =>
    cases result' with
    | error x' => exact Prod.ext (congrArg Except.error (Except.error.inj hresult)) hdraft
    | ok a' => cases hresult
  | ok a =>
    cases result' with
    | error x' => cases hresult
    | ok a' => exact hk a a' e e' (Except.ok.inj hresult) hdraft

theorem run_lift (x : Except Error α) (d : Draft) : (liftM x : DraftM α).run.run d = (x, d) := by
  cases x <;> rfl

/-- Elements taken one after another, each with and without texts and places. -/
theorem run_foldlM_unplaced {step : β → α → DraftM β} {f : β → β} {g : α → α}
    (h : ∀ b a d, (step (f b) (g a)).run.run d.unplaced = unplaced f ((step b a).run.run d))
    (as : List α) (b : β) (d : Draft) :
    ((as.map g).foldlM step (f b)).run.run d.unplaced = unplaced f ((as.foldlM step b).run.run d) := by
  induction as generalizing b d with
  | nil => rfl
  | cons a as ih =>
    rw [List.map_cons, List.foldlM_cons, List.foldlM_cons, run_bind, run_bind, h]
    rcases (step b a).run.run d with ⟨e | b', mid⟩
    · rfl
    · exact ih b' mid

theorem constraintKind_unplaced (table : QualifiedName) (cd : TableConstraint) :
    constraintKind config table cd.unplaced =
      (constraintKind config table cd).mapError Error.unplaced := by
  obtain ⟨name, columns, kind, inColumn, l⟩ := cd
  cases kind with
  | foreignKey r =>
    unfold constraintKind TableConstraint.unplaced
    dsimp only
    split <;> rfl
  | _ => rfl

theorem constraintName_unplaced (table : QualifiedName) (ks : List Constraint) (cd : TableConstraint)
    (kind : ConstraintKind) : constraintName config table (ks.map (·.unplaced)) cd.unplaced kind =
      (constraintName config table ks cd kind).mapError Error.unplaced := by
  have hnames : (ks.map (·.unplaced)).map (·.name) = ks.map (·.name) := by
    rw [List.map_map]
    rfl
  unfold constraintName
  rw [hnames]
  obtain ⟨name, columns, kind, inColumn, l⟩ := cd
  cases name with
  | none => rfl
  | some name =>
    unfold TableConstraint.unplaced
    dsimp only
    split <;> rfl

theorem run_addConstraint {table : QualifiedName} {columns : List Column} {ks : List Constraint}
    {cd : TableConstraint} (d : Draft) : (addConstraint config table columns ks cd).run.run d =
      ((constraintKind config table cd).bind fun kind =>
        (constraintName config table ks cd kind).map fun name =>
          ks ++ [⟨name, cd.name.isSome, cd.columns, kind, cd.location⟩],
        { d with issues := d.issues ++ constraintIssues table columns cd }) := by
  have hissues : ((missingColumns columns cd).forM fun name =>
      report (.unresolvedReference cd.location (toString table) (some name))).run.run d =
        (.ok (), { d with issues := d.issues ++ constraintIssues table columns cd }) :=
    runs_forM_report.2 rfl
  unfold addConstraint
  rw [run_bind, hissues]
  dsimp only
  rw [run_bind, run_lift]
  cases constraintKind config table cd with
  | error e => rfl
  | ok kind =>
    dsimp only
    rw [run_bind, run_lift]
    dsimp only [Except.bind]
    cases constraintName config table ks cd kind <;> rfl

theorem run_addConstraint_unplaced (table : QualifiedName) (columns : List Column)
    (ks : List Constraint) (cd : TableConstraint) (d : Draft) :
    (addConstraint config table columns (ks.map (·.unplaced)) cd.unplaced).run.run d.unplaced =
      unplaced (·.map (·.unplaced)) ((addConstraint config table columns ks cd).run.run d) := by
  have hissues : constraintIssues table columns cd.unplaced =
      (constraintIssues table columns cd).map (·.unplaced) := by
    unfold constraintIssues
    rw [List.map_map]
    rfl
  rw [run_addConstraint, run_addConstraint, constraintKind_unplaced, hissues]
  refine Prod.ext ?_ (congrArg (fun issues => { d.unplaced with issues }) List.map_append.symm)
  cases constraintKind config table cd with
  | error e => rfl
  | ok kind =>
    dsimp only [Except.mapError, Except.bind, unplaced]
    rw [constraintName_unplaced]
    cases constraintName config table ks cd kind with
    | error e => rfl
    | ok name =>
      refine congrArg Except.ok ?_
      dsimp only
      rw [List.map_append]
      rfl

/-- Constraints that differ in where they are written. -/
theorem unplaced_run_constraints {table : QualifiedName} {columns : List Column}
    {defs defs' : List TableConstraint} (h : defs'.map (·.unplaced) = defs.map (·.unplaced)) (d : Draft) :
    unplaced (·.map (·.unplaced)) ((defs'.foldlM (addConstraint config table columns) []).run.run d) =
      unplaced (·.map (·.unplaced)) ((defs.foldlM (addConstraint config table columns) []).run.run d) := by
  have hall (defs : List TableConstraint) :
      ((defs.map (·.unplaced)).foldlM (addConstraint config table columns) []).run.run d.unplaced =
        unplaced (·.map (·.unplaced)) ((defs.foldlM (addConstraint config table columns) []).run.run d) :=
    run_foldlM_unplaced (run_addConstraint_unplaced table columns) defs [] d
  rw [← hall defs', ← hall defs, h]

/-- Columns of one name are refused, whether they admit nulls or not. -/
theorem exists_run_columns_error {table : QualifiedName} {defs defs' : List ColumnDef}
    {columns columns' : List Column} (hdefs : defs'.map (·.relaxed) = defs.map (·.relaxed))
    (hcolumns : columns'.map (·.name) = columns.map (·.name)) (hnodup : (columns.map (·.name)).Nodup)
    (hrepeated : ¬ (columns.map (·.name) ++ defs.map (·.column.name)).Nodup) (d : Draft) :
    ∃ e mid, (defs.foldlM (addColumn config table) columns).run.run d = (.error e, mid) ∧
      (defs'.foldlM (addColumn config table) columns').run.run d = (.error e, mid) := by
  induction defs generalizing defs' columns columns' d with
  | nil =>
    rw [List.map_nil, List.append_nil] at hrepeated
    exact absurd hnodup hrepeated
  | cons cd defs ih =>
    obtain ⟨cd', defs', rfl, hcd, hdefs⟩ := List.map_eq_cons_iff.1 hdefs
    have hname : cd'.column.name = cd.column.name := congrArg (·.column.name) hcd
    have hlocation : cd'.location = cd.location := congrArg (·.location) hcd
    have hmem (cs : List Column) : cs.any (·.name = cd.column.name) = true ↔
        cd.column.name ∈ cs.map (·.name) := by simp
    rw [List.foldlM_cons, List.foldlM_cons, run_bind, run_bind]
    by_cases htaken : cd.column.name ∈ columns.map (·.name)
    · refine ⟨.duplicateDefinition cd.location .column s!"{table}.{cd.column.name}", d, ?_, ?_⟩
      · rw [addColumn, if_pos ((hmem columns).2 htaken)]
        rfl
      · rw [addColumn, hname, hlocation, if_pos ((hmem columns').2 (hcolumns ▸ htaken))]
        rfl
    · have hrun : Runs (addColumn config table columns cd) d _ _ :=
        runs_addColumn.2 ⟨htaken, rfl, rfl⟩
      have hrun' : Runs (addColumn config table columns' cd') d _ _ :=
        runs_addColumn.2 ⟨by rwa [hname, hcolumns], rfl, rfl⟩
      have hissues : d.catalog.columnIssues config table.schema cd' =
          d.catalog.columnIssues config table.schema cd := by
        have htype : cd'.column.dataType = cd.column.dataType := congrArg (·.column.dataType) hcd
        unfold Catalog.columnIssues
        rw [htype, hlocation]
      rw [hrun, hrun', hissues]
      refine ih hdefs ?_ ?_ ?_ _
      · simp [hcolumns, hname]
      · rw [List.map_append, List.map_singleton, Catalog.resolvedColumn_name, ← List.concat_eq_append]
        exact hnodup.concat htaken
      · simpa using hrepeated

end DraftM

end DdlCatalog
