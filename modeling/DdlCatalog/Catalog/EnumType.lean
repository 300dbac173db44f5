import DdlCatalog.Catalog.Name
import DdlCatalog.Catalog.TypeRef
import DdlCatalog.Text.Location

/-! # Enumerated types -/

namespace DdlCatalog

open Text (Location)

/-- How clients represent an enum: a class, the type its values are stored in, and the attribute of
the class that holds the values. -/
structure EnumPragma where
  className : Option String
  dataType : Option TypeRef
  classAttribute : Option String
deriving DecidableEq, Repr

namespace EnumPragma

def empty : EnumPragma := ⟨none, none, none⟩

end EnumPragma

structure EnumType where
  name : QualifiedName
  /-- The order of the labels is the order of the values. -/
  labels : List String
  pragma : Option EnumPragma
  location : Location
deriving DecidableEq, Repr

namespace EnumType

def ordinal? (e : EnumType) (label : String) : Option Nat := e.labels.findIdx? (· = label)

def contains (e : EnumType) (label : String) : Bool := (e.ordinal? label).isSome

end EnumType

end DdlCatalog
