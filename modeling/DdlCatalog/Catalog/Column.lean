import DdlCatalog.Catalog.Expression
import DdlCatalog.Catalog.Name
import DdlCatalog.Catalog.TypeRef

/-! # Columns -/

namespace DdlCatalog

inductive GeneratedStorage where
  | stored
  | virtual
deriving DecidableEq, Repr

/-- A column whose value is computed from other columns. -/
structure GeneratedColumn where
  expression : Expression
  storage : GeneratedStorage
deriving DecidableEq, Repr

inductive IdentityKind where
  | always
  | byDefault
deriving DecidableEq, Repr

/-- A column numbered by a sequence; the options of the sequence are kept as source text. -/
structure Identity where
  kind : IdentityKind
  options : Option String
deriving DecidableEq, Repr

structure Column where
  name : String
  /-- A second name for clients. -/
  clientName : Option String
  /-- The declared type; columns of views have none. -/
  dataType : Option TypeRef
  /-- The enum that the type names. -/
  enumType : Option QualifiedName
  nullable : Bool
  default : Option Expression
  generated : Option GeneratedColumn
  identity : Option Identity
  collation : Option String
deriving DecidableEq, Repr, Inhabited

namespace Column

def named (name : String) (dataType : Option TypeRef) : Column :=
  ⟨name, none, dataType, none, true, none, none, none, none⟩

def notNull (c : Column) : Column := { c with nullable := false }

def isComputed (c : Column) : Bool := c.generated.isSome || c.identity.isSome

def accessName (c : Column) : String := c.clientName.getD c.name

end Column

end DdlCatalog
