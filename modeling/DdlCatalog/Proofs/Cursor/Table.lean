import DdlCatalog.Grammar.Table
import DdlCatalog.Proofs.Cursor.Constraint

/-! # Tables by position
The clauses of a column go on up to a comma, a parenthesis or the end of the statement, and any other token
begins a clause or is an error. -/

namespace DdlCatalog.Grammar

namespace Cursor

def identityOptions : Cursor (Option String) := do
  if ← at? .leftParen then return some (← groupedExpression).text else return none

def generatedStorage : Cursor GeneratedStorage := do
  if ← acceptKeyword .VIRTUAL then return .virtual
  else
    let _ ← acceptKeyword .STORED
    return .stored

def identityKind : Cursor IdentityKind := do
  if ← acceptKeyword .ALWAYS then return .always
  else if ← acceptKeyword .BY then
    expectKeyword .DEFAULT
    return .byDefault
  else
    expected "ALWAYS or BY DEFAULT"

def generated (column : Column) : Cursor Column := do
  let kind ← identityKind
  expectKeyword .AS
  if ← acceptKeyword .IDENTITY then
    let options ← identityOptions
    return { column with identity := some ⟨kind, options⟩, nullable := false }
  else if kind ≠ .always then
    error "generated columns must be GENERATED ALWAYS"
  else
    let expression ← groupedExpression
    let storage ← generatedStorage
    return { column with generated := some ⟨expression, storage⟩ }

def columnClause (d : ColumnDraft) (word : Token) : Cursor (Option ColumnDraft) := do
  let l ← locate word
  match word.kind with
  | .comma | .rightParen | .eof => return none
  | .keyword .CONSTRAINT =>
    advance
    return some { d with pendingName := some (← name) }
  | .keyword .NOT =>
    advance
    expectKeyword .NULL
    return some (d.setNullable false)
  | .keyword .NULL =>
    advance
    return some (d.setNullable true)
  | .keyword .DEFAULT =>
    advance
    let e ← expressionUntil endsDefault
    return some (d.modify fun c => { c with default := some e })
  | .keyword .PRIMARY =>
    advance
    expectKeyword .KEY
    return some ((d.modify Column.notNull).constrain .primaryKey l)
  | .keyword .UNIQUE =>
    advance
    return some (d.constrain (.unique (← nullsNotDistinct)) l)
  | .keyword .CHECK =>
    advance
    return some (d.constrain (.check (← groupedExpression)) l)
  | .keyword .REFERENCES =>
    advance
    return some (d.constrain (.foreignKey (← reference)) l)
  | .keyword .GENERATED =>
    advance
    return some { d with column := ← generated d.column }
  | .keyword .COLLATE =>
    advance
    let collation ← name
    return some (d.modify fun c => { c with collation := some collation })
  | .keyword .AS =>
    advance
    let secondName ← name
    return some (d.modify fun c => { c with clientName := some secondName })
  | _ =>
    errorAt l s!"unexpected {word.describe} in definition of column {d.column.name}"

def columnDef : Cursor (ColumnDef × List TableConstraint) := do
  let l ← location
  let name ← name
  let t ← typeRef
  let d ← clauses columnClause ⟨Column.named name (some t), [], none⟩
  return (⟨d.column, l⟩, d.constraints)

def tableElement : Cursor TableElement := do
  if Parser.startsTableConstraint (← current) then
    return ([], [← tableConstraint])
  else
    let (column, constraints) ← columnDef
    return ([column], constraints)

def tableElements : Cursor (List TableElement) := do
  expect .leftParen
  let elements ← if ← at? .rightParen then pure [] else commaList tableElement
  expect .rightParen
  return elements

def onCommitAction : Cursor OnCommit := do
  expectKeyword .ON
  expectKeyword .COMMIT
  if ← acceptKeyword .DROP then return .drop
  else if ← acceptKeyword .PRESERVE then
    expectKeyword .ROWS
    return .preserveRows
  else if ← acceptKeyword .DELETE then
    expectKeyword .ROWS
    return .deleteRows
  else
    expected "DROP, PRESERVE ROWS or DELETE ROWS"

def onCommit (temporary : Bool) : Cursor (Option OnCommit) := do
  if ← atKeyword .ON then
    let l ← location
    let action ← onCommitAction
    if temporary then return some action
    else errorAt l "ON COMMIT is only valid for temporary tables"
  else
    return none

def createTable (temporary unlogged : Bool) : Cursor CreateTable := do
  expectKeyword .TABLE
  let exists? ← ifNotExists
  let name ← objectName
  let elements ← tableElements
  let action ← onCommit temporary
  let columns := elements.flatMap Prod.fst
  let constraints := elements.flatMap Prod.snd
  match constraints.filter (·.isPrimaryKey) with
  | _ :: second :: _ => errorAt second.location s!"multiple primary keys for table {name}"
  | _ =>
    let columns := markKeys columns constraints
    return ⟨name, exists?, temporary, unlogged, action, columns,
      constraints.map (completeCheck columns)⟩

end Cursor

namespace Layout

variable {K : Layout}

instance follows_identityOptions : K.Follows Cursor.identityOptions Parser.identityOptions := by
  unfold Cursor.identityOptions Parser.identityOptions
  infer_instance

instance follows_generatedStorage : K.Follows Cursor.generatedStorage Parser.generatedStorage := by
  unfold Cursor.generatedStorage Parser.generatedStorage
  infer_instance

instance follows_identityKind : K.Follows Cursor.identityKind Parser.identityKind := by
  unfold Cursor.identityKind Parser.identityKind
  infer_instance

instance follows_generated (column : Column) :
    K.Follows (Cursor.generated column) (Parser.generated column) := by
  unfold Cursor.generated Parser.generated
  infer_instance

instance begins_columnClause (d : ColumnDraft) (word : Token) :
    K.Begins word (Cursor.columnClause d word) (Parser.columnClause d word) where
  at_word i hi hword := by
    refine beginsAt_of_read (locate_at K word i) ?_
    unfold BeginsAt Parser.run Parser.columnClause
    dsimp only
    generalize K.ctx.locate word = l
    generalize hkind : word.kind = kind
    -- the two matches are split one after the other
    suffices h : ∀ q, q = _ → K.Begins word _ q from (h _ rfl).at_word i hi hword
    intro q hq
    split
    case h_15 => split at hq <;> first | contradiction | (subst hq; infer_instance)
    all_goals
      subst hq
      infer_instance

instance follows_columnDef : K.Follows Cursor.columnDef Parser.columnDef := by
  have hclauses (d : ColumnDraft) : K.Follows (Cursor.clauses Cursor.columnClause d)
      (Parser.clauses Parser.columnClause d) := by
    refine follows_clauses (fun d => ?_) d
    unfold Cursor.columnClause
    rw [K.stop_kind]
    rfl
  unfold Cursor.columnDef Parser.columnDef
  infer_instance

instance follows_tableElement : K.Follows Cursor.tableElement Parser.tableElement := by
  unfold Cursor.tableElement Parser.tableElement
  infer_instance

instance follows_tableElements : K.Follows Cursor.tableElements Parser.tableElements := by
  unfold Cursor.tableElements Parser.tableElements
  infer_instance

set_option synthInstance.maxSize 512 in
instance follows_onCommitAction : K.Follows Cursor.onCommitAction Parser.onCommitAction := by
  unfold Cursor.onCommitAction Parser.onCommitAction
  infer_instance

instance follows_onCommit (temporary : Bool) :
    K.Follows (Cursor.onCommit temporary) (Parser.onCommit temporary) := by
  unfold Cursor.onCommit Parser.onCommit
  infer_instance

instance follows_createTable (temporary unlogged : Bool) :
    K.Follows (Cursor.createTable temporary unlogged) (Parser.createTable temporary unlogged) := by
  unfold Cursor.createTable Parser.createTable
  refine follows_next fun _ => follows_next fun exists? => follows_next fun name =>
    follows_next fun elements => follows_next fun action => ?_
  dsimp only
  generalize List.filter _ _ = keys
  rcases keys with _ | ⟨first, _ | ⟨second, more⟩⟩ <;> dsimp only <;> infer_instance

end Layout

end DdlCatalog.Grammar
