import DdlCatalog.Grammar.Constraint

/-! # Column definitions
A name, a type, and clauses in any order. A clause that is a constraint takes the name given by the
last `CONSTRAINT` before it. -/

namespace DdlCatalog.Grammar

open Text (Location)

/-- A column while its clauses are read. -/
structure ColumnDraft where
  column : Column
  /-- The constraints written so far. -/
  constraints : List TableConstraint
  /-- A name for the next constraint. -/
  pendingName : Option String

namespace ColumnDraft

def modify (d : ColumnDraft) (f : Column → Column) : ColumnDraft :=
  { d with column := f d.column }

/-- Sets whether the column admits nulls, which uses up the name. -/
def setNullable (d : ColumnDraft) (nullable : Bool) : ColumnDraft :=
  { d with column := { d.column with nullable := nullable }, pendingName := none }

def constrain (d : ColumnDraft) (kind : ConstraintDef) (l : Location) : ColumnDraft :=
  { d with
    constraints := d.constraints ++ [⟨d.pendingName, [d.column.name], kind, true, l⟩]
    pendingName := none }

end ColumnDraft

namespace Parser

def identityOptions : Parser (Option String) := do
  if ← at? .leftParen then return some (← groupedExpression).text else return none

/-- A stored value is the rule when nothing is said. -/
def generatedStorage : Parser GeneratedStorage := do
  if ← acceptKeyword .VIRTUAL then return .virtual
  else
    let _ ← acceptKeyword .STORED
    return .stored

def identityKind : Parser IdentityKind := do
  if ← acceptKeyword .ALWAYS then return .always
  else if ← acceptKeyword .BY then
    expectKeyword .DEFAULT
    return .byDefault
  else
    expected "ALWAYS or BY DEFAULT"

def generated (column : Column) : Parser Column := do
  let kind ← identityKind
  expectKeyword .AS
  if ← acceptKeyword .IDENTITY then
    let options ← identityOptions
    return { column with identity := some ⟨kind, options⟩, nullable := false }
  else if kind ≠ .always then
    error "generated columns must be GENERATED ALWAYS"
  else
    let expression ← groupedExpression
    let storage ← generatedStorage
    return { column with generated := some ⟨expression, storage⟩ }

/-- One clause of a column, after its first word. -/
def columnClause (d : ColumnDraft) (word : Token) : Parser (Option ColumnDraft) := fun ctx ts =>
  let l := ctx.locate word
  let clause : Parser (Option ColumnDraft) := do
    match word.kind with
    | .comma | .rightParen | .eof => return none
    | .keyword .CONSTRAINT => return some { d with pendingName := some (← name) }
    | .keyword .NOT =>
      expectKeyword .NULL
      return some (d.setNullable false)
    | .keyword .NULL => return some (d.setNullable true)
    | .keyword .DEFAULT =>
      let e ← expression endsDefault
      return some (d.modify fun c => { c with default := some e })
    | .keyword .PRIMARY =>
      expectKeyword .KEY
      return some ((d.modify Column.notNull).constrain .primaryKey l)
    | .keyword .UNIQUE => return some (d.constrain (.unique (← nullsNotDistinct)) l)
    | .keyword .CHECK => return some (d.constrain (.check (← groupedExpression)) l)
    | .keyword .REFERENCES => return some (d.constrain (.foreignKey (← reference)) l)
    | .keyword .GENERATED => return some { d with column := ← generated d.column }
    | .keyword .COLLATE =>
      let collation ← name
      return some (d.modify fun c => { c with collation := some collation })
    | .keyword .AS =>
      let secondName ← name
      return some (d.modify fun c => { c with clientName := some secondName })
    | _ =>
      errorAt l s!"unexpected {word.describe} in definition of column {d.column.name}"
  clause ctx ts

def columnDef : Parser (ColumnDef × List TableConstraint) := do
  let l ← location
  let name ← name
  let t ← typeRef
  let d ← clauses columnClause ⟨Column.named name (some t), [], none⟩
  return (⟨d.column, l⟩, d.constraints)

end Parser

end DdlCatalog.Grammar
