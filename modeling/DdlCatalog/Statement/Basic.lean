import DdlCatalog.Catalog.Column
import DdlCatalog.Catalog.Constraint
import DdlCatalog.Catalog.EnumType
import DdlCatalog.Catalog.Index
import DdlCatalog.Catalog.Relation
import DdlCatalog.Catalog.Routine

/-! # Statements
What a statement says, with names as written. Placing names in schemas is left to the catalog. -/

namespace DdlCatalog

open Text (Location)

/-- The referenced side of a foreign key. -/
structure Reference where
  table : ObjectName
  columns : List String
  onUpdate : Option ReferentialAction
  onDelete : Option ReferentialAction
  matchType : Option MatchType
  deferrable : Bool
  initiallyDeferred : Bool
  /-- The statement asks for the key to be added after both tables exist. -/
  useAlter : Bool
deriving DecidableEq, Repr

namespace Reference

def ofTable (table : ObjectName) (columns : List String) : Reference :=
  ⟨table, columns, none, none, none, false, false, false⟩

end Reference

inductive ConstraintDef where
  | primaryKey
  | unique (nullsNotDistinct : Bool)
  | check (expression : Expression)
  | foreignKey (reference : Reference)
  | exclusion (exclusion : Exclusion)
deriving DecidableEq, Repr

structure TableConstraint where
  name : Option String
  columns : List String
  kind : ConstraintDef
  /-- The constraint is written in the definition of its column. -/
  inColumn : Bool
  location : Location
deriving DecidableEq, Repr

namespace TableConstraint

def isPrimaryKey (c : TableConstraint) : Bool := c.kind = .primaryKey

end TableConstraint

structure ColumnDef where
  column : Column
  location : Location
deriving DecidableEq, Repr

structure CreateSchema where
  name : String
  ifNotExists : Bool
deriving DecidableEq, Repr

structure CreateEnum where
  name : ObjectName
  labels : List String
  pragma : Option EnumPragma
deriving DecidableEq, Repr

structure CreateTable where
  name : ObjectName
  ifNotExists : Bool
  temporary : Bool
  unlogged : Bool
  onCommit : Option OnCommit
  columns : List ColumnDef
  /-- In the order of the table elements, those of a column in its place. -/
  constraints : List TableConstraint
deriving DecidableEq, Repr

structure CreateView where
  name : ObjectName
  orReplace : Bool
  ifNotExists : Bool
  temporary : Bool
  materialized : Bool
  recursive : Bool
  columns : List String
  /-- The query as written. -/
  query : String
deriving DecidableEq, Repr

structure CreateIndex where
  name : Option String
  ifNotExists : Bool
  unique : Bool
  concurrently : Bool
  only : Bool
  table : ObjectName
  using? : Option String
  elements : List IndexElement
  included : List String
  nullsNotDistinct : Bool
  predicate : Option Expression
deriving DecidableEq, Repr

/-- What may be said of a routine after its signature, in any order. -/
structure RoutineAttributes where
  language : Option String
  volatility : Option Volatility
  strict : Bool
  securityDefiner : Bool
  leakproof : Bool
  parallel : Option String
  cost : Option String
  rows : Option String
deriving DecidableEq, Repr

namespace RoutineAttributes

def empty : RoutineAttributes := ⟨none, none, false, false, false, none, none, none⟩

end RoutineAttributes

structure CreateFunction where
  name : ObjectName
  orReplace : Bool
  parameters : List Parameter
  returns : Option Returns
  attributes : RoutineAttributes
  body : RoutineBody
deriving DecidableEq, Repr

structure CreateProcedure where
  name : ObjectName
  orReplace : Bool
  parameters : List Parameter
  attributes : RoutineAttributes
  body : RoutineBody
deriving DecidableEq, Repr

structure Prepare where
  name : ObjectName
  parameterTypes : List TypeRef
  parameters : PreparedParameters
  /-- The query as written. -/
  body : String
deriving DecidableEq, Repr

inductive Statement where
  | createSchema (s : CreateSchema)
  | createEnum (s : CreateEnum)
  | createTable (s : CreateTable)
  | createView (s : CreateView)
  | createIndex (s : CreateIndex)
  | createFunction (s : CreateFunction)
  | createProcedure (s : CreateProcedure)
  | prepare (s : Prepare)
deriving DecidableEq, Repr

namespace Statement

def kind : Statement → String
  | createSchema _ => "CREATE SCHEMA"
  | createEnum _ => "CREATE TYPE"
  | createTable _ => "CREATE TABLE"
  | createView _ => "CREATE VIEW"
  | createIndex _ => "CREATE INDEX"
  | createFunction _ => "CREATE FUNCTION"
  | createProcedure _ => "CREATE PROCEDURE"
  | prepare _ => "PREPARE"

end Statement

/-- A statement with its text and its place. -/
structure ParsedStatement where
  statement : Statement
  text : String
  location : Location
deriving DecidableEq, Repr

end DdlCatalog
