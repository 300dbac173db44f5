import DdlCatalog.Build.Relation
import DdlCatalog.Proofs.Build.Runs
import DdlCatalog.Proofs.Catalog.Relation
import DdlCatalog.Proofs.Naming

/-! # Tables as they are put together
The parts of a table follow from its statement and the catalog alone. What is missing is reported
and nothing else of the draft changes. -/

namespace DdlCatalog

open Text (Location)

namespace Catalog

variable (c : Catalog) (config : Config)

def namedEnum? (schema : String) (t : TypeRef) : Option QualifiedName :=
  match c.typeMeaning config schema t with
  | .enum name => some name
  | _ => none

def typeIssues (schema : String) (l : Location) (t : TypeRef) : List Error :=
  match c.typeMeaning config schema t with
  | .unknown => [.unknownType l t.written]
  | _ => []

def resolvedColumn (schema : String) (d : ColumnDef) : Column :=
  match d.column.dataType with
  | some t => { d.column with enumType := c.namedEnum? config schema t }
  | none => d.column

def columnIssues (schema : String) (d : ColumnDef) : List Error :=
  match d.column.dataType with
  | some t => c.typeIssues config schema d.location t
  | none => []

@[simp] theorem resolvedColumn_name (schema : String) (d : ColumnDef) :
    (c.resolvedColumn config schema d).name = d.column.name := by
  unfold resolvedColumn
  split <;> rfl

@[simp] theorem resolvedColumn_nullable (schema : String) (d : ColumnDef) :
    (c.resolvedColumn config schema d).nullable = d.column.nullable := by
  unfold resolvedColumn
  split <;> rfl

end Catalog

/-- The issues of the columns that a constraint names and its table lacks. -/
def constraintIssues (table : QualifiedName) (columns : List Column) (d : TableConstraint) :
    List Error :=
  (DraftM.missingColumns columns d).map fun name =>
    .unresolvedReference d.location (toString table) (some name)

/-- A constraint keeps what its definition says. -/
structure Declares (config : Config) (table : QualifiedName) (d : TableConstraint)
    (k : Constraint) : Prop where
  columns_eq : k.columns = d.columns
  location_eq : k.location = d.location
  kind_eq : DraftM.constraintKind config table d = .ok k.kind

/-- The table of a statement before its keys are checked. -/
structure Drawn (config : Config) (c : Catalog) (name : QualifiedName) (s : CreateTable)
    (t : Relation) : Prop where
  name_eq : t.name = name
  kind_eq : t.kind = .table
  columns_eq : t.columns = s.columns.map (c.resolvedColumn config name.schema)
  columns_nodup : (t.columns.map (·.name)).Nodup
  declares : List.Forall₂ (Declares config name) s.constraints t.constraints
  names_nodup : (t.constraints.map (·.name)).Nodup
  indexes_eq : t.indexes = []

theorem Drawn.exists_declares {config : Config} {c : Catalog} {name : QualifiedName}
    {s : CreateTable} {t : Relation} (h : Drawn config c name s t) {k : Constraint}
    (hk : k ∈ t.constraints) : ∃ d ∈ s.constraints, Declares config name d k :=
  exists_of_mem_forall₂ h.declares hk

/-- A declared key that lists columns lists as many as it has, and it is not resolved. -/
theorem Declares.foreignKey {config : Config} {table : QualifiedName} {d : TableConstraint}
    {k : Constraint} {key : ForeignKey} (h : Declares config table d k)
    (hkey : k.foreignKey? = some key) :
    key.resolved = false ∧
      (key.referencedColumns = [] ∨ key.referencedColumns.length = k.columns.length) := by
  have hkind := h.kind_eq
  rw [h.columns_eq]
  unfold Constraint.foreignKey? at hkey
  generalize k.kind = kind at hkind hkey
  unfold DraftM.constraintKind at hkind
  cases hd : d.kind with
  | foreignKey r =>
    simp only [hd] at hkind
    split at hkind
    · cases hkind
    · next hcount =>
      cases hkind
      cases hkey
      refine ⟨rfl, ?_⟩
      by_cases hr : r.columns = []
      · exact .inl hr
      · simp only [Bool.and_eq_true, Bool.not_eq_true', List.isEmpty_eq_false_iff, decide_eq_true_eq,
          not_and, not_not] at hcount
        exact .inr (hcount hr)
  | _ =>
    simp only [hd] at hkind
    cases hkind
    cases hkey

def tableIssues (config : Config) (c : Catalog) (name : QualifiedName) (s : CreateTable) :
    List Error :=
  s.columns.flatMap (c.columnIssues config name.schema) ++
    s.constraints.flatMap
      (constraintIssues name (s.columns.map (c.resolvedColumn config name.schema)))

namespace DraftM

variable {config : Config} {d d' : Draft}

@[simp] theorem runs_resolveType {schema : String} {l : Location} {t : TypeRef}
    {found : Option QualifiedName} :
    Runs (resolveType config schema l t) d found d' ↔
      found = d.catalog.namedEnum? config schema t ∧
        d' = { d with issues := d.issues ++ d.catalog.typeIssues config schema l t } := by
  unfold resolveType Catalog.namedEnum? Catalog.typeIssues
  rw [runs_bind]
  simp only [runs_catalog]
  cases h : d.catalog.typeMeaning config schema t <;> simp [h]
  all_goals exact and_comm

@[simp] theorem runs_resolveTypes {schema : String} {l : Location} {ts : List TypeRef}
    {u : Unit} :
    Runs (resolveTypes config schema l ts) d u d' ↔
      d' = { d with issues := d.issues ++ ts.flatMap (d.catalog.typeIssues config schema l) } := by
  unfold resolveTypes
  rw [List.forM_eq_forM]
  induction ts generalizing d with
  | nil => simp
  | cons t ts ih => simp [ih]

theorem runs_addColumn {table : QualifiedName} {columns columns' : List Column}
    {cd : ColumnDef} :
    Runs (addColumn config table columns cd) d columns' d' ↔
      cd.column.name ∉ columns.map (·.name) ∧
        columns' = columns ++ [d.catalog.resolvedColumn config table.schema cd] ∧
        d' = { d with issues := d.issues ++ d.catalog.columnIssues config table.schema cd } := by
  have hmem : columns.any (·.name = cd.column.name) = true ↔
      cd.column.name ∈ columns.map (·.name) := by simp
  unfold addColumn Catalog.resolvedColumn Catalog.columnIssues
  split
  · next h => simp [hmem.1 h]
  · next h =>
    have hn : cd.column.name ∉ columns.map (·.name) := fun hm => h (hmem.2 hm)
    cases cd.column.dataType <;> simp [hn]
    all_goals exact and_comm

/-- Columns are added in order, and their names differ. -/
theorem Runs.columns {table : QualifiedName} {defs : List ColumnDef}
    {columns columns' : List Column}
    (h : Runs (defs.foldlM (addColumn config table) columns) d columns' d') :
    columns' = columns ++ defs.map (d.catalog.resolvedColumn config table.schema) ∧
      d' = { d with
        issues := d.issues ++ defs.flatMap (d.catalog.columnIssues config table.schema) } ∧
      ((columns.map (·.name)).Nodup → (columns'.map (·.name)).Nodup) := by
  induction defs generalizing columns d with
  | nil =>
    obtain ⟨rfl, rfl⟩ := runs_foldlM_nil.1 h
    simp
  | cons cd defs ih =>
    obtain ⟨mid, d₁, hadd, hrest⟩ := runs_foldlM_cons.1 h
    obtain ⟨hfree, rfl, rfl⟩ := runs_addColumn.1 hadd
    obtain ⟨hcolumns, hd, hnodup⟩ := ih hrest
    refine ⟨by simp [hcolumns], by simp [hd], fun hn => hnodup ?_⟩
    rw [List.map_append, List.map_singleton, Catalog.resolvedColumn_name, ← List.concat_eq_append]
    exact hn.concat hfree

theorem constraintName_notMem {table : QualifiedName} {ks : List Constraint}
    {cd : TableConstraint} {kind : ConstraintKind} {name : String}
    (h : constraintName config table ks cd kind = .ok name) : name ∉ ks.map (·.name) := by
  unfold constraintName at h
  cases hn : cd.name with
  | some declared =>
    simp only [hn] at h
    split at h
    · cases h
    · next hfree =>
      cases h
      exact hfree
  | none =>
    simp only [hn] at h
    cases h
    exact Naming.freshName_notMem _ _

theorem runs_addConstraint {table : QualifiedName} {columns : List Column}
    {ks ks' : List Constraint} {cd : TableConstraint} :
    Runs (addConstraint config table columns ks cd) d ks' d' ↔
      ∃ kind name, constraintKind config table cd = .ok kind ∧
        constraintName config table ks cd kind = .ok name ∧
        ks' = ks ++ [⟨name, cd.name.isSome, cd.columns, kind, cd.location⟩] ∧
        d' = { d with issues := d.issues ++ constraintIssues table columns cd } := by
  unfold addConstraint constraintIssues
  simp only [runs_bind, List.forM_eq_forM, runs_forM_report, runs_lift, runs_pure]
  constructor
  · rintro ⟨_, _, rfl, kind, _, ⟨hk, rfl⟩, name, _, ⟨hn, rfl⟩, rfl, rfl⟩
    exact ⟨kind, name, hk, hn, rfl, rfl⟩
  · rintro ⟨kind, name, hk, hn, rfl, rfl⟩
    exact ⟨(), _, rfl, kind, _, ⟨hk, rfl⟩, name, _, ⟨hn, rfl⟩, rfl, rfl⟩

/-- Constraints are added in order, and their names differ. -/
theorem Runs.constraints {table : QualifiedName} {columns : List Column}
    {defs : List TableConstraint} {ks ks' : List Constraint}
    (h : Runs (defs.foldlM (addConstraint config table columns) ks) d ks' d') :
    (∃ added, ks' = ks ++ added ∧ List.Forall₂ (Declares config table) defs added) ∧
      d' = { d with issues := d.issues ++ defs.flatMap (constraintIssues table columns) } ∧
      ((ks.map (·.name)).Nodup → (ks'.map (·.name)).Nodup) := by
  induction defs generalizing ks d with
  | nil =>
    obtain ⟨rfl, rfl⟩ := runs_foldlM_nil.1 h
    simp
  | cons cd defs ih =>
    obtain ⟨mid, d₁, hadd, hrest⟩ := runs_foldlM_cons.1 h
    obtain ⟨kind, name, hkind, hname, rfl, rfl⟩ := runs_addConstraint.1 hadd
    obtain ⟨⟨added, hadded, hall⟩, hd, hnodup⟩ := ih hrest
    refine ⟨⟨_, by rw [hadded, List.append_assoc, List.singleton_append],
      .cons ⟨rfl, rfl, hkind⟩ hall⟩, by simp [hd], fun hn => hnodup ?_⟩
    rw [List.map_append, List.map_singleton, ← List.concat_eq_append]
    exact hn.concat (constraintName_notMem hname)

/-- What a table is made of. -/
theorem Runs.table {name : QualifiedName} {s : CreateTable} {ddl : String} {l : Location}
    {t : Relation} (h : Runs (buildTable config name s ddl l) d t d') :
    Drawn config d.catalog name s t ∧
      d' = { d with issues := d.issues ++ tableIssues config d.catalog name s } := by
  unfold buildTable at h
  simp only [runs_bind, runs_pure] at h
  rcases h with ⟨columns, d₁, hcolumns, ks, d₂, hks, rfl, rfl⟩
  rcases hcolumns.columns with ⟨hc, rfl, hcn⟩
  rcases hks.constraints with ⟨⟨added, hadded, hall⟩, rfl, hkn⟩
  rw [List.nil_append] at hc hadded
  subst hadded
  refine ⟨⟨rfl, rfl, hc, hcn List.nodup_nil, hall, hkn List.nodup_nil, rfl⟩, ?_⟩
  simp [tableIssues, hc]

end DraftM

end DdlCatalog
