import DdlCatalog.Grammar.Constraint

/-! # Declarations of indexes
`INDEX [CONCURRENTLY] [[IF NOT EXISTS] name] ON [ONLY] table [USING method] (elements)
[INCLUDE (columns)] [NULLS [NOT] DISTINCT] [WHERE predicate]` -/

namespace DdlCatalog.Grammar.Parser

/-- A call of a function, whose name may have a schema. -/
def callTokens : Parser (List Token) := do
  let (ts, _) ← taking do
    discard name
    if ← accept .dot then discard name
    group
  return ts

/-- An expression in parentheses, a call or the name of a column. -/
def indexKey : Parser (Expression × Option String) := do
  if ← at? .leftParen then
    return (← groupedExpression, none)
  else
    let next := (← following).kind
    if next = .leftParen ∨ next = .dot then
      return (← express (← callTokens), none)
    else
      let (ts, column) ← taking name
      return (← express ts, some column)

def collation : Parser (Option String) := do
  if ← acceptKeyword .COLLATE then some <$> name else return none

def operatorClass : Parser (Option String) := do
  match (← current).kind with
  | .identifier _ => some <$> name
  | .quotedIdentifier _ => some <$> name
  | _ => return none

def sortOrder : Parser (Option SortOrder) := do
  if ← acceptKeyword .ASC then return some .asc
  else if ← acceptKeyword .DESC then return some .desc
  else return none

def nullsOrder : Parser (Option NullsOrder) := do
  if ← acceptKeyword .NULLS then
    if ← acceptKeyword .FIRST then return some .first
    else if ← acceptKeyword .LAST then return some .last
    else expected "FIRST or LAST"
  else
    return none

def indexElement : Parser IndexElement := do
  let (expression, column) ← indexKey
  return ⟨expression, column, ← collation, ← operatorClass, ← sortOrder, ← nullsOrder⟩

def indexName (exists? : Bool) : Parser (Option String) := do
  if ← atKeyword .ON then
    if exists? then error "IF NOT EXISTS requires an index name" else return none
  else
    some <$> name

def createIndex (unique : Bool) : Parser CreateIndex := do
  expectKeyword .INDEX
  let concurrently ← acceptKeyword .CONCURRENTLY
  let exists? ← ifNotExists
  let name ← indexName exists?
  expectKeyword .ON
  let only ← acceptKeyword .ONLY
  let table ← objectName
  let method ← accessMethod
  expect .leftParen
  let elements ← commaList indexElement
  expect .rightParen
  let included ← if ← acceptKeyword .INCLUDE then nameList else pure []
  let nulls ← nullsNotDistinct
  let predicate ← if ← acceptKeyword .WHERE then some <$> predicate else pure none
  return ⟨name, exists?, unique, concurrently, only, table, method, elements, included, nulls,
    predicate⟩

end DdlCatalog.Grammar.Parser
