import DdlCatalog.Build.ForeignKey
import DdlCatalog.Build.Placement
import DdlCatalog.Build.TypeLookup
import DdlCatalog.Statement.Basic

/-! # Registering enums, tables, views and indexes -/

namespace DdlCatalog.DraftM

open Text (Location)

def createEnum (config : Config) (scope : Scope) (s : CreateEnum) (l : Location) :
    DraftM Unit := do
  let name ← place config scope s.name l
  match (← catalog).relationKind? name with
  | some kind => throw (.duplicateDefinition l kind (toString name))
  | none =>
    resolveTypes config name.schema l (s.pragma.bind (·.dataType)).toList
    change (·.modifySchema name.schema (·.insertEnum ⟨name, s.labels, s.pragma, l⟩))

/-- Adds a column to those of a table, whose names differ. -/
def addColumn (config : Config) (table : QualifiedName) (columns : List Column) (d : ColumnDef) :
    DraftM (List Column) := do
  if columns.any (·.name = d.column.name) then
    throw (.duplicateDefinition d.location .column s!"{table}.{d.column.name}")
  else
    match d.column.dataType with
    | some t =>
      let enum ← resolveType config table.schema d.location t
      return columns ++ [{ d.column with enumType := enum }]
    | none => return columns ++ [d.column]

/-- The kind of a constraint as the catalog keeps it. A key that lists the columns it refers to
lists as many as it has. -/
def constraintKind (config : Config) (table : QualifiedName) (d : TableConstraint) :
    Except Error ConstraintKind :=
  match d.kind with
  | .primaryKey => .ok .primaryKey
  | .unique nulls => .ok (.unique nulls)
  | .check e => .ok (.check e)
  | .exclusion e => .ok (.exclusion e)
  | .foreignKey r =>
    if !r.columns.isEmpty && r.columns.length ≠ d.columns.length then
      .error (.parse d.location
        (s!"foreign key on {table} has {d.columns.length} column(s) but references " ++
          s!"{r.columns.length}"))
    else
      .ok (.foreignKey
        { referencedTable := r.table.qualify config.defaultSchema
          referencedColumns := r.columns
          onUpdate := r.onUpdate
          onDelete := r.onDelete
          matchType := r.matchType
          deferrable := r.deferrable
          initiallyDeferred := r.initiallyDeferred
          useAlter := r.useAlter
          resolved := false })

/-- The columns that a constraint names and its table lacks. -/
def missingColumns (columns : List Column) (d : TableConstraint) : List String :=
  match d.kind with
  | .check _ => []
  | _ => d.columns.filter fun name => !columns.any (·.name = name)

/-- The declared name, which has to be free, or a generated one. -/
def constraintName (config : Config) (table : QualifiedName) (constraints : List Constraint)
    (d : TableConstraint) (kind : ConstraintKind) : Except Error String :=
  let taken := constraints.map (·.name)
  match d.name with
  | some name =>
    if name ∈ taken then
      .error (.duplicateDefinition d.location .constraint s!"{table}.{name}")
    else .ok name
  | none =>
    .ok (Naming.freshName (config.naming.constraintName table.name d.columns kind) taken)

def addConstraint (config : Config) (table : QualifiedName) (columns : List Column)
    (constraints : List Constraint) (d : TableConstraint) : DraftM (List Constraint) := do
  (missingColumns columns d).forM fun name =>
    report (.unresolvedReference d.location (toString table) (some name))
  let kind ← constraintKind config table d
  let name ← constraintName config table constraints d kind
  return constraints ++ [⟨name, d.name.isSome, d.columns, kind, d.location⟩]

def buildTable (config : Config) (name : QualifiedName) (s : CreateTable) (ddl : String)
    (l : Location) : DraftM Relation := do
  let columns ← s.columns.foldlM (addColumn config name) []
  let constraints ← s.constraints.foldlM (addConstraint config name columns) []
  return { name, columns, constraints, ddl
           kind := .table
           indexes := []
           temporary := s.temporary
           unlogged := s.unlogged
           onCommit := s.onCommit
           definition := none
           location := l }

def createTable (config : Config) (scope : Scope) (s : CreateTable) (ddl : String)
    (l : Location) : DraftM Unit := do
  let name ← place config scope s.name l
  match (← catalog).relationKind? name with
  | some kind =>
    if s.ifNotExists then note (.skippedTable name)
    else throw (.duplicateDefinition l kind (toString name))
  | none =>
    let table ← buildTable config name s ddl l
    change (·.insertRelation table)
    registerForeignKeys name table.constraints

/-- The first name that occurs again after its place. -/
def firstRepeated? (seen : List String) : List String → Option String
  | [] => none
  | name :: names => if name ∈ seen then some name else firstRepeated? (name :: seen) names

def insertView (name : QualifiedName) (s : CreateView) (ddl : String) (l : Location) :
    DraftM Unit := do
  match firstRepeated? [] s.columns with
  | some column => throw (.duplicateDefinition l .column s!"{name}.{column}")
  | none =>
    change (·.insertRelation
      { name, ddl
        kind := .view s.materialized s.recursive
        columns := s.columns.map (Column.named · none)
        constraints := []
        indexes := []
        temporary := s.temporary
        unlogged := false
        onCommit := none
        definition := some s.query
        location := l })

def createView (config : Config) (scope : Scope) (s : CreateView) (ddl : String) (l : Location) :
    DraftM Unit := do
  let name ← place config scope s.name l
  match (← catalog).relationKind? name with
  | none => insertView name s ddl l
  | some kind =>
    if kind = .view ∧ s.orReplace then
      note (.replacedView name)
      insertView name s ddl l
    else if s.ifNotExists then note (.skippedView name)
    else throw (.duplicateDefinition l kind (toString name))

def takenIndexNames (table : Relation) : List String :=
  table.indexes.map (·.name) ++ table.constraints.map (·.name)

def missingIndexColumns (table : Relation) (s : CreateIndex) : List String :=
  (s.elements.filterMap (·.column) ++ s.included).filter (!table.hasColumn ·)

def insertIndex (table : QualifiedName) (target : Relation) (s : CreateIndex) (name : String)
    (l : Location) : DraftM Unit := do
  (missingIndexColumns target s).forM fun column =>
    report (.unresolvedReference l (toString table) (some column))
  let index : Index :=
    { name, table
      explicitName := s.name.isSome
      unique := s.unique
      using? := s.using?
      elements := s.elements
      included := s.included
      predicate := s.predicate
      nullsNotDistinct := s.nullsNotDistinct
      concurrently := s.concurrently
      location := l }
  change (·.modifyRelation table fun r => { r with indexes := r.indexes ++ [index] })

/-- An index on an unknown table is an issue. -/
def createIndex (config : Config) (s : CreateIndex) (l : Location) : DraftM Unit := do
  let table := s.table.qualify config.defaultSchema
  match (← catalog).relation? table with
  | none => report (.unknownTable l (toString table))
  | some target =>
    if !target.isIndexable then throw (.parse l s!"cannot index view {table}")
    else
      match s.name with
      | some name =>
        if name ∈ takenIndexNames target then
          if s.ifNotExists then note (.skippedIndex name table)
          else throw (.duplicateDefinition l .index s!"{table}.{name}")
        else insertIndex table target s name l
      | none =>
        let keyColumns := s.elements.filterMap (·.column)
        let base := config.naming.indexName table.name keyColumns
        insertIndex table target s (Naming.freshName base (takenIndexNames target)) l

end DdlCatalog.DraftM
