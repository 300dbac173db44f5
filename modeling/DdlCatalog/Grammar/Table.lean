import DdlCatalog.Grammar.Column

/-! # Declarations of tables
`TABLE [IF NOT EXISTS] name (elements) [ON COMMIT action]` -/

namespace DdlCatalog.Grammar

/-- The columns and constraints of an element of a table. -/
abbrev TableElement := List ColumnDef × List TableConstraint

/-- The first column of a name. -/
def markNotNull (columns : List ColumnDef) (name : String) : List ColumnDef :=
  Relation.modifyFirst (·.column.name = name)
    (fun d => { d with column := d.column.notNull }) columns

/-- Columns of a primary key admit no nulls. -/
def markKeys (columns : List ColumnDef) (constraints : List TableConstraint) : List ColumnDef :=
  ((constraints.filter (·.isPrimaryKey)).flatMap (·.columns)).foldl markNotNull columns

/-- A check at the table constrains the columns that it mentions. -/
def completeCheck (columns : List ColumnDef) (c : TableConstraint) : TableConstraint :=
  match c.kind with
  | .check e =>
    if c.inColumn then c
    else
      { c with
        columns := e.references.filter fun name => columns.any (·.column.name = name) }
  | _ => c

namespace Parser

def tableElement : Parser TableElement := do
  if startsTableConstraint (← current) then
    return ([], [← tableConstraint])
  else
    let (column, constraints) ← columnDef
    return ([column], constraints)

def tableElements : Parser (List TableElement) := do
  expect .leftParen
  let elements ← if ← at? .rightParen then pure [] else commaList tableElement
  expect .rightParen
  return elements

def onCommitAction : Parser OnCommit := do
  expectKeyword .ON
  expectKeyword .COMMIT
  if ← acceptKeyword .DROP then return .drop
  else if ← acceptKeyword .PRESERVE then
    expectKeyword .ROWS
    return .preserveRows
  else if ← acceptKeyword .DELETE then
    expectKeyword .ROWS
    return .deleteRows
  else
    expected "DROP, PRESERVE ROWS or DELETE ROWS"

def onCommit (temporary : Bool) : Parser (Option OnCommit) := do
  if ← atKeyword .ON then
    let l ← location
    let action ← onCommitAction
    if temporary then return some action
    else errorAt l "ON COMMIT is only valid for temporary tables"
  else
    return none

def createTable (temporary unlogged : Bool) : Parser CreateTable := do
  expectKeyword .TABLE
  let exists? ← ifNotExists
  let name ← objectName
  let elements ← tableElements
  let action ← onCommit temporary
  let columns := elements.flatMap Prod.fst
  let constraints := elements.flatMap Prod.snd
  match constraints.filter (·.isPrimaryKey) with
  | _ :: second :: _ => errorAt second.location s!"multiple primary keys for table {name}"
  | _ =>
    let columns := markKeys columns constraints
    return ⟨name, exists?, temporary, unlogged, action, columns,
      constraints.map (completeCheck columns)⟩

end Parser

end DdlCatalog.Grammar
