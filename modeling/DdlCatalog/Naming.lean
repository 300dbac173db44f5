import DdlCatalog.Catalog.Constraint

/-! # Generated names
Constraints and indexes declared without a name get one from a template. -/

namespace DdlCatalog

/-- Templates for names, in which `table` and `columns` in braces stand for the name of the table
and the names of the columns joined by underscores. -/
structure Naming where
  primaryKey : String
  unique : String
  foreignKey : String
  check : String
  exclusion : String
  index : String
deriving DecidableEq, Repr

namespace Naming

def default : Naming where
  primaryKey := "\x7btable\x7d_pkey"
  unique := "\x7btable\x7d_\x7bcolumns\x7d_key"
  foreignKey := "\x7btable\x7d_\x7bcolumns\x7d_fkey"
  check := "\x7btable\x7d_\x7bcolumns\x7d_check"
  exclusion := "\x7btable\x7d_\x7bcolumns\x7d_excl"
  index := "\x7btable\x7d_\x7bcolumns\x7d_idx"

/-- Replaces a pattern from left to right. The first `skip` characters belong to an occurrence that
has been replaced. -/
def replaceFrom (pattern replacement : List Char) (skip : Nat) : List Char → List Char
  | [] => []
  | c :: cs =>
    match skip with
    | skip + 1 => replaceFrom pattern replacement skip cs
    | 0 =>
      if pattern.isPrefixOf (c :: cs) then
        replacement ++ replaceFrom pattern replacement (pattern.length - 1) cs
      else
        c :: replaceFrom pattern replacement 0 cs

def replace (pattern replacement text : String) : String :=
  String.ofList (replaceFrom pattern.toList replacement.toList 0 text.toList)

/-- Fills in a template, columns before the table. Without columns their place is dropped, together
with an underscore before it. -/
def render (template table : String) (columns : List String) : String :=
  let filled :=
    if columns.isEmpty then
      replace "\x7bcolumns\x7d" "" (replace "_\x7bcolumns\x7d" "" template)
    else
      replace "\x7bcolumns\x7d" ("_".intercalate columns) template
  replace "\x7btable\x7d" table filled

/-- What stands for the columns of a key made of expressions. -/
def orExpression (columns : List String) : List String :=
  if columns.isEmpty then ["expr"] else columns

/-- The template of a constraint filled in. Exclusions are named by the columns among their
elements. -/
def constraintName (n : Naming) (table : String) (columns : List String) :
    ConstraintKind → String
  | .primaryKey => render n.primaryKey table columns
  | .unique _ => render n.unique table columns
  | .foreignKey _ => render n.foreignKey table columns
  | .check _ => render n.check table columns
  | .exclusion e => render n.exclusion table (orExpression (e.elements.filterMap (·.column)))

def indexName (n : Naming) (table : String) (keyColumns : List String) : String :=
  render n.index table (orExpression keyColumns)

/-- A name followed by the numbers from one on. As many of them as there are names taken are enough
to find a free one. -/
def numbered (base : String) (count : Nat) : List String :=
  (List.range count).map fun k => base ++ toString (k + 1)

/-- A name, or if it is taken the name followed by the least number that makes it free. -/
def freshName (base : String) (taken : List String) : String :=
  if base ∈ taken then ((numbered base taken.length).find? (· ∉ taken)).getD base else base

end Naming

end DdlCatalog
