import DdlCatalog.Catalog.Expression
import DdlCatalog.Catalog.Name
import DdlCatalog.Text.Location

/-! # Constraints of tables -/

namespace DdlCatalog

open Text (Location)

/-- What happens to a row when the row it refers to changes. -/
inductive ReferentialAction where
  | noAction
  | restrict
  | cascade
  | setNull
  | setDefault
deriving DecidableEq, Repr

instance : ToString ReferentialAction where
  toString
    | .noAction => "NO ACTION"
    | .restrict => "RESTRICT"
    | .cascade => "CASCADE"
    | .setNull => "SET NULL"
    | .setDefault => "SET DEFAULT"

inductive MatchType where
  | simple
  | full
  | partly
deriving DecidableEq, Repr

structure ForeignKey where
  referencedTable : QualifiedName
  /-- The columns referred to; a list left out stands for the primary key of the target and is
  filled in once the target is known. -/
  referencedColumns : List String
  onUpdate : Option ReferentialAction
  onDelete : Option ReferentialAction
  matchType : Option MatchType
  deferrable : Bool
  initiallyDeferred : Bool
  /-- The key has to be added after both tables exist. -/
  useAlter : Bool
  /-- The reference has been checked against the catalog. -/
  resolved : Bool
deriving DecidableEq, Repr

/-- One element of an exclusion: no two rows may compare true under the operator. -/
structure ExclusionElement where
  expression : Expression
  /-- The column, if the expression is just one. -/
  column : Option String
  operator : String
deriving DecidableEq, Repr

structure Exclusion where
  /-- The access method. -/
  using? : Option String
  elements : List ExclusionElement
  predicate : Option Expression
deriving DecidableEq, Repr

inductive ConstraintKind where
  | primaryKey
  | unique (nullsNotDistinct : Bool)
  | check (expression : Expression)
  | foreignKey (key : ForeignKey)
  | exclusion (exclusion : Exclusion)
deriving DecidableEq, Repr

namespace ConstraintKind

def label : ConstraintKind → String
  | primaryKey => "primary key"
  | unique _ => "unique"
  | check _ => "check"
  | foreignKey _ => "foreign key"
  | exclusion _ => "exclusion"

end ConstraintKind

structure Constraint where
  name : String
  /-- The name was declared and not generated. -/
  explicitName : Bool
  columns : List String
  kind : ConstraintKind
  location : Location
deriving DecidableEq, Repr

namespace Constraint

def foreignKey? (c : Constraint) : Option ForeignKey :=
  match c.kind with
  | .foreignKey key => some key
  | _ => none

/-- Changes the foreign key of a constraint that is one. -/
def modifyForeignKey (c : Constraint) (f : ForeignKey → ForeignKey) : Constraint :=
  match c.kind with
  | .foreignKey key => { c with kind := .foreignKey (f key) }
  | _ => c

def exclusion? (c : Constraint) : Option Exclusion :=
  match c.kind with
  | .exclusion exclusion => some exclusion
  | _ => none

end Constraint

end DdlCatalog
