import DdlCatalog.Grammar.Expression
import DdlCatalog.Statement.Basic

/-! # Declarations of views
`[MATERIALIZED | RECURSIVE] VIEW [IF NOT EXISTS] name [(columns)] AS query`

The columns of a view without a list of them are read off the select list of its query. -/

namespace DdlCatalog.Grammar

/-- The column that an item of a select list gives: its alias, the last part of a dotted name, or
the name that is the whole item. -/
def selectItemName? (item : List Token) : Option String :=
  match item.reverse with
  | [] => none
  | [t] =>
    match t.kind with
    | .identifier name => some name
    | .quotedIdentifier name => some name
    | _ => none
  | last :: before :: _ =>
    if before.isKeyword .AS ∨ before.kind = .dot then last.name? else none

/-- Whether a token outside of parentheses ends the select list. -/
def endsSelectList (t : Token) : Bool := t.kind = .eof || t.word? = some "from"

/-- The items of a select list, where `item` holds the tokens of the item begun. An item that is
never ended is none. -/
def selectItems (depth : Nat) (item : List Token) : List Token → List (List Token)
  | [] => []
  | t :: rest =>
    if depth = 0 ∧ t.kind = .comma then item :: selectItems 0 [] rest
    else if depth = 0 ∧ endsSelectList t then [item]
    else
      let inside :=
        match t.kind with
        | .leftParen => depth + 1
        | .rightParen => depth - 1
        | _ => depth
      selectItems inside (item ++ [t]) rest

/-- The columns of a query that starts with `SELECT`. -/
def selectColumns (query : List Token) : List String :=
  match query with
  | [] => []
  | t :: rest =>
    if t.word? = some "select" then
      let items :=
        match rest with
        | [] => []
        | d :: rest' => if d.isKeyword .DISTINCT then rest' else rest
      (selectItems 0 [] items).filterMap selectItemName?
    else
      []

namespace Parser

/-- The text of a query and the columns of its select list. -/
def viewQuery : Parser (String × List String) := fun ctx ts =>
  let query : Parser (String × List String) := do
    let taken ← toEnd
    if taken.isEmpty then error "expected view query"
    else return (ctx.textOf taken, selectColumns (ts ++ [ctx.stop]))
  query ctx ts

def createView (orReplace temporary : Bool) : Parser CreateView := do
  let materialized ← acceptKeyword .MATERIALIZED
  let recursive ← if materialized then pure false else acceptKeyword .RECURSIVE
  expectKeyword .VIEW
  let exists? ← ifNotExists
  let name ← objectName
  let columns ← if ← at? .leftParen then nameList else pure []
  if recursive && columns.isEmpty then error "recursive views need a column list"
  else
    expectKeyword .AS
    let (query, selected) ← viewQuery
    return ⟨name, orReplace, exists?, temporary, materialized, recursive,
      if columns.isEmpty then selected else columns, query⟩

end Parser

end DdlCatalog.Grammar
