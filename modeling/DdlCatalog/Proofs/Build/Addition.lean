import DdlCatalog.Proofs.Build.Step

/-! # What a table adds
The table of a statement whose columns have base types is the same wherever its name is free. So are
its issues. -/

namespace DdlCatalog

open Text (Location)

/-- The type is built in or configured. -/
def TypeRef.IsBase (config : Config) (t : TypeRef) : Prop :=
  (∀ schema ∈ t.schema, schema = "pg_catalog") ∧ isBuiltinType t.name = true ∨
    ∃ extra ∈ config.extraTypes, extra = t.name ∨ extra = t.written

instance (config : Config) (t : TypeRef) : Decidable (t.IsBase config) :=
  inferInstanceAs (Decidable (_ ∨ _))

/-- All columns have base types. -/
def CreateTable.HasBaseTypes (config : Config) (s : CreateTable) : Prop :=
  ∀ d ∈ s.columns, ∀ t ∈ d.column.dataType, t.IsBase config

instance (config : Config) (s : CreateTable) : Decidable (s.HasBaseTypes config) :=
  inferInstanceAs (Decidable (∀ d ∈ s.columns, _))

namespace ParsedStatement

def table? (p : ParsedStatement) : Option CreateTable :=
  match p.statement with
  | .createTable s => some s
  | _ => none

def tableName? (config : Config) (p : ParsedStatement) : Option QualifiedName :=
  p.table?.map fun s => s.name.qualify config.defaultSchema

variable {p : ParsedStatement} {s : CreateTable}

theorem table?_eq_some_iff : p.table? = some s ↔ p.statement = .createTable s := by
  unfold table?
  cases p.statement <;> simp

theorem tableName?_of_table? {config : Config} (h : p.table? = some s) :
    p.tableName? config = some (s.name.qualify config.defaultSchema) := by
  unfold tableName?
  rw [h, Option.map_some]

end ParsedStatement

namespace Catalog

variable {config : Config} {schema : String}

/-- Base types need no catalog. -/
theorem typeMeaning_of_isBase (c : Catalog) {t : TypeRef} (h : t.IsBase config) :
    c.typeMeaning config schema t = .base := by
  unfold typeMeaning
  dsimp only
  split
  · rfl
  · next hbuiltin =>
    rw [if_pos]
    rcases h with ⟨hschema, hname⟩ | ⟨extra, hmem, hextra⟩
    · refine absurd ?_ hbuiltin
      cases hs : t.schema with
      | none => simp [hname]
      | some s => simp [hname, hschema s hs]
    · rw [List.any_eq_true]
      exact ⟨extra, hmem, by simpa using hextra⟩

theorem resolvedColumn_of_isBase (c c' : Catalog) {d : ColumnDef}
    (h : ∀ t ∈ d.column.dataType, t.IsBase config) :
    c'.resolvedColumn config schema d = c.resolvedColumn config schema d := by
  unfold resolvedColumn namedEnum?
  cases ht : d.column.dataType with
  | none => rfl
  | some t =>
    have ht : t.IsBase config := h t ht
    simp only [typeMeaning_of_isBase _ ht]

theorem columnIssues_of_isBase (c : Catalog) {d : ColumnDef}
    (h : ∀ t ∈ d.column.dataType, t.IsBase config) : c.columnIssues config schema d = [] := by
  unfold columnIssues typeIssues
  cases ht : d.column.dataType with
  | none => rfl
  | some t =>
    have ht : t.IsBase config := h t ht
    simp only [typeMeaning_of_isBase c ht]

end Catalog

namespace DraftM

variable {config : Config} {d d' : Draft}

/-- Columns of base types are the same in any draft and leave no trace. -/
theorem Runs.columns_elsewhere {table : QualifiedName} {defs : List ColumnDef}
    {columns columns' : List Column} (hbase : ∀ cd ∈ defs, ∀ t ∈ cd.column.dataType, t.IsBase config)
    (h : Runs (defs.foldlM (addColumn config table) columns) d columns' d') (e : Draft) :
    Runs (defs.foldlM (addColumn config table) columns) e columns' e := by
  induction defs generalizing columns d with
  | nil =>
    obtain ⟨rfl, -⟩ := runs_foldlM_nil.1 h
    exact runs_foldlM_nil.2 ⟨rfl, rfl⟩
  | cons cd defs ih =>
    rw [List.forall_mem_cons] at hbase
    obtain ⟨mid, d₁, hadd, hrest⟩ := runs_foldlM_cons.1 h
    obtain ⟨hfree, rfl, -⟩ := runs_addColumn.1 hadd
    refine runs_foldlM_cons.2 ⟨_, e, runs_addColumn.2 ⟨hfree, ?_, ?_⟩, ih hbase.2 hrest⟩
    · rw [Catalog.resolvedColumn_of_isBase e.catalog d.catalog hbase.1]
    · rw [e.catalog.columnIssues_of_isBase hbase.1, List.append_nil]

/-- So are constraints, with their issues. -/
theorem Runs.constraints_elsewhere {table : QualifiedName} {columns : List Column}
    {defs : List TableConstraint} {ks ks' : List Constraint}
    (h : Runs (defs.foldlM (addConstraint config table columns) ks) d ks' d') (e : Draft) :
    Runs (defs.foldlM (addConstraint config table columns) ks) e ks'
      { e with issues := e.issues ++ defs.flatMap (constraintIssues table columns) } := by
  induction defs generalizing ks d e with
  | nil =>
    obtain ⟨rfl, -⟩ := runs_foldlM_nil.1 h
    exact runs_foldlM_nil.2 ⟨rfl, by simp⟩
  | cons cd defs ih =>
    obtain ⟨mid, d₁, hadd, hrest⟩ := runs_foldlM_cons.1 h
    obtain ⟨kind, name, hkind, hname, rfl, -⟩ := runs_addConstraint.1 hadd
    have hhead : Runs (addConstraint config table columns ks cd) e _ _ :=
      runs_addConstraint.2 ⟨kind, name, hkind, hname, rfl, rfl⟩
    have hall := ih hrest { e with issues := e.issues ++ constraintIssues table columns cd }
    rw [List.append_assoc] at hall
    exact runs_foldlM_cons.2 ⟨_, _, hhead, hall⟩

/-- A table with columns of base types is the same in any draft. -/
theorem Runs.table_elsewhere {name : QualifiedName} {s : CreateTable} {ddl : String} {l : Location}
    {t : Relation} (hbase : s.HasBaseTypes config)
    (h : Runs (buildTable config name s ddl l) d t d') (e : Draft) :
    Runs (buildTable config name s ddl l) e t
      { e with issues := e.issues ++ s.constraints.flatMap (constraintIssues name t.columns) } := by
  unfold buildTable at h ⊢
  simp only [runs_bind, runs_pure] at h ⊢
  rcases h with ⟨columns, d₁, hcolumns, ks, d₂, hks, rfl, rfl⟩
  exact ⟨columns, e, hcolumns.columns_elsewhere hbase e, ks, _, hks.constraints_elsewhere e,
    rfl, rfl⟩

end DraftM

/-- What a statement adds to a draft: a table, unless it is skipped, and issues. -/
structure Addition where
  name : QualifiedName
  table : Option Relation
  issues : List Error
  table_name : ∀ t ∈ table, t.name = name

def Addition.skipped (name : QualifiedName) : Addition :=
  ⟨name, none, [], fun t ht => absurd ht (Option.not_mem_none t)⟩

def Addition.ofTable (t : Relation) (issues : List Error) : Addition :=
  ⟨t.name, some t, issues, fun _ ht => by rw [Option.mem_some.1 ht]⟩

def Catalog.add (c : Catalog) (a : Addition) : Catalog :=
  match a.table with
  | some t => c.insertRelation t
  | none => c

namespace Catalog

variable {c c' : Catalog} {a : Addition}

theorem relation?_add_of_ne {q : QualifiedName} (h : a.name ≠ q) :
    (c.add a).relation? q = c.relation? q := by
  unfold add
  cases ht : a.table with
  | none => rfl
  | some t =>
    dsimp only
    rw [relation?_insertRelation, a.table_name t ht, if_neg h]

@[simp] theorem enum?_add (q : QualifiedName) : (c.add a).enum? q = c.enum? q := by
  unfold add
  cases a.table with
  | none => rfl
  | some t => exact c.enum?_insertRelation t q

theorem Alike.add (h : c.Alike c') (a : Addition) : (c.add a).Alike (c'.add a) := by
  unfold Catalog.add
  cases a.table with
  | none => exact h
  | some t => exact h.insertRelation t

theorem Advances.add (h : c.Advances c') (hnew : c.relation? a.name = none) :
    (c.add a).Advances (c'.add a) := by
  unfold Catalog.add
  cases ht : a.table with
  | none => exact h
  | some t =>
    rw [← a.table_name t ht] at hnew
    exact h.insertRelation hnew

/-- Tables of different names may be added in either order. -/
theorem alike_add_comm (c : Catalog) {b : Addition} (h : a.name ≠ b.name) :
    ((c.add a).add b).Alike ((c.add b).add a) := by
  unfold add
  cases ha : a.table with
  | none => exact .refl _
  | some t =>
    cases hb : b.table with
    | none => exact .refl _
    | some t' =>
      apply alike_insertRelation_comm
      rw [a.table_name t ha, b.table_name t' hb]
      exact h

theorem Alike.addAll (h : c.Alike c') (as : List Addition) :
    (as.foldl Catalog.add c).Alike (as.foldl Catalog.add c') := by
  induction as generalizing c c' with
  | nil => exact h
  | cons a as ih => exact ih (h.add a)

/-- The order of additions under distinct names does not matter. -/
theorem Alike.addAll_perm {as bs : List Addition} (hperm : as.Perm bs)
    (hnodup : (as.map (·.name)).Nodup) (h : c.Alike c') :
    (as.foldl Catalog.add c).Alike (bs.foldl Catalog.add c') := by
  induction hperm generalizing c c' with
  | nil => exact h
  | cons a _ ih =>
    rw [List.map_cons, List.nodup_cons] at hnodup
    exact ih hnodup.2 (h.add a)
  | swap a b as =>
    rw [List.map_cons, List.map_cons, List.nodup_cons] at hnodup
    have hne : b.name ≠ a.name := fun he => hnodup.1 (he ▸ List.mem_cons_self ..)
    exact (((h.add b).add a).trans (c'.alike_add_comm hne)).addAll as
  | trans hperm _ ih ih' =>
    exact (ih hnodup h).trans (ih' ((hperm.map _).nodup_iff.1 hnodup) (.refl _))

end Catalog

def Addition.newTable (a : Addition) : NewTable := a.table.map fun t => (a.name, t.constraints)

/-- Wherever its name is free, a statement adds the same. -/
structure Adds (config : Config) (c : Catalog) (p : ParsedStatement) (a : Addition) : Prop where
  name_eq : p.tableName? config = some a.name
  runs : ∀ d : Draft, d.catalog.relation? a.name = none →
    (∀ q, d.catalog.enum? q = c.enum? q) → ∃ log, DraftM.Runs (DraftM.declare config none p) d
      (none, a.newTable) { d with catalog := d.catalog.add a, issues := d.issues ++ a.issues, log }

theorem Adds.name_eq_qualify {config : Config} {c : Catalog} {p : ParsedStatement} {a : Addition}
    {s : CreateTable} (h : Adds config c p a) (hs : p.table? = some s) :
    a.name = s.name.qualify config.defaultSchema :=
  Option.some.inj (h.name_eq.symm.trans (ParsedStatement.tableName?_of_table? hs))

variable {config : Config} {p : ParsedStatement} {d d' : Draft} {scope : Scope} {found : NewTable}

namespace DraftM

/-- The name of a skipped table belongs to an enum, wherever it is skipped. -/
theorem adds_of_skipped {s : CreateTable} {q : QualifiedName} {kind : ObjectKind}
    (said : p.statement = .createTable s) (placed : Scope.qualify config none s.name p.location = .ok q)
    (optional : s.ifNotExists = true)
    (taken : (d.catalog.ensureSchema q.schema).relationKind? q = some kind)
    (hnew : d.catalog.relation? q = none) : Adds config d.catalog p (.skipped q) where
  name_eq := by
    have hs := ParsedStatement.table?_eq_some_iff.2 said
    exact (ParsedStatement.tableName?_of_table? hs).trans
      (congrArg some (Scope.qualify_eq placed).symm)
  runs e he henum := by
    have htype : d.catalog.enum? q ≠ none := by
      intro hnone
      have hkind := (Catalog.relationKind?_eq_none_iff (d.catalog.ensureSchema q.schema) q).2
        ⟨by rw [Catalog.enum?_ensureSchema, hnone], by rw [Catalog.relation?_ensureSchema, hnew]⟩
      rw [taken] at hkind
      cases hkind
    rw [← henum q] at htype
    have hschema : e.catalog.ensureSchema q.schema = e.catalog := by
      cases hs : e.catalog.schema? q.schema with
      | some schema => exact Catalog.ensureSchema_of_schema? hs
      | none =>
        rw [Catalog.enum?_eq_bind, hs] at htype
        exact absurd rfl htype
    cases hkind : e.catalog.relationKind? q with
    | none => exact absurd ((Catalog.relationKind?_eq_none_iff _ _).1 hkind).1 htype
    | some kind' =>
      refine ⟨e.log ++ [.statement p.statement.kind p.location] ++ [.skippedTable q],
        (runs_declare_of_createTable said).2 ⟨rfl, runs_declareTable.2
          ⟨q, placed, .inl ⟨kind', ?_, optional, rfl, ?_⟩⟩⟩⟩
      · dsimp only
        rw [hschema, hkind]
      · have hissues : e.issues ++ (Addition.skipped q).issues = e.issues := List.append_nil _
        dsimp only
        rw [hschema, hissues]
        rfl

theorem adds_of_built {s : CreateTable} {t : Relation} {mid : Draft}
    (said : p.statement = .createTable s) (hbase : s.HasBaseTypes config)
    (placed : Scope.qualify config none s.name p.location = .ok t.name)
    (free : (d.catalog.ensureSchema t.name.schema).relationKind? t.name = none)
    (built : Runs (buildTable config t.name s p.text p.location) d' t mid) :
    Adds config d.catalog p
      (.ofTable t (s.constraints.flatMap (constraintIssues t.name t.columns))) where
  name_eq := by
    have hs := ParsedStatement.table?_eq_some_iff.2 said
    exact (ParsedStatement.tableName?_of_table? hs).trans
      (congrArg some (Scope.qualify_eq placed).symm)
  runs e he henum := by
    have hnone : (e.catalog.ensureSchema t.name.schema).relationKind? t.name = none := by
      rw [Catalog.relationKind?_eq_none_iff] at free ⊢
      rw [Catalog.enum?_ensureSchema, Catalog.relation?_ensureSchema] at free ⊢
      exact ⟨(henum t.name).trans free.1, he⟩
    refine ⟨e.log ++ [.statement p.statement.kind p.location],
      (runs_declare_of_createTable said).2 ⟨rfl, runs_declareTable.2
        ⟨t.name, placed, .inr ⟨hnone, t, _, built.table_elsewhere hbase _, rfl, ?_⟩⟩⟩⟩
    dsimp only
    rw [Catalog.insertRelation_ensureSchema]
    rfl

/-- A table of base types that is accepted adds the same elsewhere. -/
theorem Runs.exists_adds {s : CreateTable} (said : p.statement = .createTable s)
    (hbase : s.HasBaseTypes config)
    (hnew : d.catalog.relation? (s.name.qualify config.defaultSchema) = none)
    (h : Runs (declare config none p) d (scope, found) d') : ∃ a, Adds config d.catalog p a := by
  obtain ⟨-, h⟩ := (runs_declare_of_createTable said).1 h
  obtain ⟨q, placed, h⟩ := runs_declareTable.1 h
  rw [← Scope.qualify_eq placed] at hnew
  rcases h with ⟨kind, taken, optional, -, -⟩ | ⟨free, t, mid, built, -, -⟩
  · exact ⟨_, adds_of_skipped said placed optional taken hnew⟩
  · rcases built.table.1.name_eq with rfl
    exact ⟨_, adds_of_built said hbase placed free built⟩

end DraftM

end DdlCatalog
