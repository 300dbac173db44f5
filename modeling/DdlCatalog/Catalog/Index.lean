import DdlCatalog.Catalog.Expression
import DdlCatalog.Catalog.Name
import DdlCatalog.Text.Location

/-! # Indexes of tables -/

namespace DdlCatalog

open Text (Location)

inductive SortOrder where
  | asc
  | desc
deriving DecidableEq, Repr

inductive NullsOrder where
  | first
  | last
deriving DecidableEq, Repr

structure IndexElement where
  expression : Expression
  /-- The column, if the key is just one. -/
  column : Option String
  collation : Option String
  /-- The operator class. -/
  opclass : Option String
  order : Option SortOrder
  nulls : Option NullsOrder
deriving DecidableEq, Repr

structure Index where
  name : String
  /-- The name was declared and not generated. -/
  explicitName : Bool
  table : QualifiedName
  unique : Bool
  /-- The access method. -/
  using? : Option String
  elements : List IndexElement
  /-- Columns that are stored but are no keys. -/
  included : List String
  /-- The rows that the index covers. -/
  predicate : Option Expression
  nullsNotDistinct : Bool
  concurrently : Bool
  location : Location
deriving DecidableEq, Repr

namespace Index

def keyColumns (i : Index) : List String := i.elements.filterMap (·.column)

def isPartial (i : Index) : Bool := i.predicate.isSome

def hasExpressions (i : Index) : Bool := i.elements.any (·.column.isNone)

end Index

end DdlCatalog
