import DdlCatalog.Catalog.Column
import DdlCatalog.Catalog.Constraint
import DdlCatalog.Catalog.Index

/-! # Tables and views
Tables and views share one name space and one type. -/

namespace DdlCatalog

open Text (Location)

inductive RelationKind where
  | table
  | view (materialized recursive : Bool)
deriving DecidableEq, Repr

/-- What happens to the rows of a temporary table at the end of a transaction. -/
inductive OnCommit where
  | preserveRows
  | deleteRows
  | drop
deriving DecidableEq, Repr

structure Relation where
  name : QualifiedName
  kind : RelationKind
  columns : List Column
  constraints : List Constraint
  indexes : List Index
  temporary : Bool
  unlogged : Bool
  onCommit : Option OnCommit
  /-- The query of a view, as written. -/
  definition : Option String
  /-- The text of the statement. -/
  ddl : String
  location : Location
deriving DecidableEq, Repr

namespace Relation

def isView (r : Relation) : Bool := r.kind ≠ .table

/-- Indexes can be put on tables and on views that store their rows. -/
def isIndexable (r : Relation) : Bool :=
  match r.kind with
  | .table => true
  | .view materialized _ => materialized

def column? (r : Relation) (name : String) : Option Column := r.columns.find? (·.name = name)

def hasColumn (r : Relation) (name : String) : Bool := (r.column? name).isSome

def constraint? (r : Relation) (name : String) : Option Constraint :=
  r.constraints.find? (·.name = name)

def index? (r : Relation) (name : String) : Option Index := r.indexes.find? (·.name = name)

def primaryKey? (r : Relation) : Option Constraint :=
  r.constraints.find? (·.kind = .primaryKey)

/-- The columns of the primary key; there are none without one. -/
def primaryKeyColumns (r : Relation) : List String :=
  match r.primaryKey? with
  | some key => key.columns
  | none => []

def foreignKeys (r : Relation) : List Constraint := r.constraints.filter (·.foreignKey?.isSome)

def modifyFirst {α : Type} (p : α → Bool) (f : α → α) : List α → List α
  | [] => []
  | a :: as => if p a then f a :: as else a :: modifyFirst p f as

def modifyColumn (r : Relation) (name : String) (f : Column → Column) : Relation :=
  { r with columns := modifyFirst (·.name = name) f r.columns }

def modifyConstraint (r : Relation) (name : String) (f : Constraint → Constraint) : Relation :=
  { r with constraints := modifyFirst (·.name = name) f r.constraints }

end Relation

end DdlCatalog
