import DdlCatalog.Grammar.Expression
import DdlCatalog.Statement.Basic

/-! # Constraints
What stands behind the words that begin a constraint, whether in a column or at the table. -/

namespace DdlCatalog.Grammar.Parser

def referentialAction : Parser ReferentialAction := do
  if ← acceptKeyword .CASCADE then return .cascade
  else if ← acceptKeyword .RESTRICT then return .restrict
  else if ← acceptKeyword .NO then
    expectKeyword .ACTION
    return .noAction
  else if ← acceptKeyword .SET then
    if ← acceptKeyword .NULL then return .setNull
    else if ← acceptKeyword .DEFAULT then return .setDefault
    else expected "NULL or DEFAULT"
  else
    expected "referential action"

def matchType : Parser MatchType := do
  if ← acceptKeyword .FULL then return .full
  else if ← acceptKeyword .PARTIAL then return .partly
  else if ← acceptKeyword .SIMPLE then return .simple
  else expected "FULL, PARTIAL or SIMPLE"

/-- The only option is `use_alter`. -/
def referenceOption : Parser Unit := do
  let t ← current
  if t.kind = .identifier "use_alter" then advance
  else error s!"unknown foreign key PRAGMA option {t.describe}"

def referenceClause (r : Reference) (word : Token) : Parser (Option Reference) := do
  match word.kind with
  | .keyword .MATCH =>
    let kind ← matchType
    return some { r with matchType := some kind }
  | .keyword .ON =>
    if ← acceptKeyword .UPDATE then
      let action ← referentialAction
      return some { r with onUpdate := some action }
    else if ← acceptKeyword .DELETE then
      let action ← referentialAction
      return some { r with onDelete := some action }
    else
      expected "UPDATE or DELETE"
  | .keyword .DEFERRABLE => return some { r with deferrable := true }
  | .keyword .NOT =>
    if ← acceptKeyword .DEFERRABLE then return some { r with deferrable := false }
    else return none
  | .keyword .INITIALLY =>
    if ← acceptKeyword .DEFERRED then return some { r with initiallyDeferred := true }
    else if ← acceptKeyword .IMMEDIATE then return some { r with initiallyDeferred := false }
    else expected "DEFERRED or IMMEDIATE"
  | .keyword .PRAGMA =>
    expect .leftParen
    let _ ← commaList referenceOption
    expect .rightParen
    return some { r with useAlter := true }
  | _ => return none

/-- A reference after its first word. -/
def reference : Parser Reference := do
  let table ← objectName
  let columns ← if ← at? .leftParen then nameList else pure []
  clauses referenceClause (Reference.ofTable table columns)

/-- The column that an expression of one token names. -/
def columnOf? (ts : List Token) : Option String :=
  match ts with
  | [t] =>
    match t.kind with
    | .identifier name => some name
    | .quotedIdentifier name => some name
    | .keyword k => if namesColumn k none none then some k.spelling else none
    | _ => none
  | _ => none

def operatorName : Parser String := do
  match (← current).kind with
  | .operator op => advance; return op
  | _ => expected "operator"

/-- An expression and the operator to compare it by. -/
def exclusionElement : Parser ExclusionElement := do
  let ts ← expressionTokens fun _ t _ => t.isKeyword .WITH
  let expression ← express ts
  expectKeyword .WITH
  let op ← operatorName
  return ⟨expression, columnOf? ts, op⟩

def accessMethod : Parser (Option String) := do
  if ← acceptKeyword .USING then some <$> name else return none

def exclusion : Parser Exclusion := do
  let method ← accessMethod
  expect .leftParen
  let elements ← commaList exclusionElement
  expect .rightParen
  let predicate ← if ← acceptKeyword .WHERE then some <$> groupedExpression else pure none
  return ⟨method, elements, predicate⟩

def startsTableConstraint (t : Token) : Bool :=
  match t.kind with
  | .keyword .CONSTRAINT | .keyword .PRIMARY | .keyword .UNIQUE | .keyword .CHECK
  | .keyword .FOREIGN | .keyword .EXCLUDE => true
  | _ => false

def constraintName : Parser (Option String) := do
  if ← acceptKeyword .CONSTRAINT then some <$> name else return none

/-- The columns and the kind of a constraint. The columns of a check are found later. -/
def tableConstraintKind : Parser (List String × ConstraintDef) := do
  if ← acceptKeyword .PRIMARY then
    expectKeyword .KEY
    return (← nameList, .primaryKey)
  else if ← acceptKeyword .UNIQUE then
    let nulls ← nullsNotDistinct
    return (← nameList, .unique nulls)
  else if ← acceptKeyword .CHECK then
    return ([], .check (← groupedExpression))
  else if ← acceptKeyword .FOREIGN then
    expectKeyword .KEY
    let columns ← nameList
    expectKeyword .REFERENCES
    return (columns, .foreignKey (← reference))
  else if ← acceptKeyword .EXCLUDE then
    let e ← exclusion
    return (e.elements.filterMap (·.column), .exclusion e)
  else
    expected "PRIMARY KEY, UNIQUE, CHECK, FOREIGN KEY or EXCLUDE"

def tableConstraint : Parser TableConstraint := do
  let l ← location
  let name ← constraintName
  let (columns, kind) ← tableConstraintKind
  return ⟨name, columns, kind, false, l⟩

end DdlCatalog.Grammar.Parser
