import DdlCatalog.Grammar.Expression
import DdlCatalog.Statement.Basic

/-! # Prepared statements
`PREPARE name [(types)] AS query`, whose placeholders are either all named or all numbered. -/

namespace DdlCatalog.Grammar

/-- A placeholder of a query. -/
inductive Placeholder where
  | named (name : String)
  | positional (n : UInt32)
deriving DecidableEq, Repr

namespace Placeholder

def ofToken? (t : Token) : Option Placeholder :=
  match t.kind with
  | .named name => some (named name)
  | .positional n => some (positional n)
  | _ => none

def isNamed : Placeholder → Bool
  | named _ => true
  | positional _ => false

def name? : Placeholder → Option String
  | named name => some name
  | positional _ => none

def number? : Placeholder → Option UInt32
  | named _ => none
  | positional n => some n

end Placeholder

def placeholders (query : List Token) : List (Token × Placeholder) :=
  query.filterMap fun t => (Placeholder.ofToken? t).map (t, ·)

/-- The first placeholder of another style than the first one. -/
def strayPlaceholder? (found : List (Token × Placeholder)) : Option Token :=
  match found with
  | [] => none
  | (_, first) :: rest => (rest.find? fun (_, p) => p.isNamed ≠ first.isNamed).map Prod.fst

/-- Placeholders of one style, each once, where it first occurs. -/
def preparedParameters (found : List Placeholder) : PreparedParameters :=
  match found.filterMap (·.name?) with
  | name :: names => .named (firstUses (name :: names))
  | [] =>
    match found.filterMap (·.number?) with
    | n :: ns => .positional (firstUses (n :: ns))
    | [] => .none

namespace Parser

def parameterTypes : Parser (List TypeRef) := do
  if ← accept .leftParen then
    let types ← commaList typeRef
    expect .rightParen
    return types
  else
    return []

def preparedQuery (name : ObjectName) : Parser (String × PreparedParameters) := fun ctx ts =>
  let query : Parser (String × PreparedParameters) := do
    let taken ← toEnd
    let found := placeholders taken
    if taken.isEmpty then error s!"prepared statement {name} has an empty body"
    else
      match strayPlaceholder? found with
      | some t =>
        errorAt (ctx.locate t) s!"prepared statement {name} mixes :name and $n placeholders"
      | none => return (ctx.textOf taken, preparedParameters (found.map Prod.snd))
  query ctx ts

def prepare : Parser Prepare := do
  expectKeyword .PREPARE
  let name ← objectName
  let types ← parameterTypes
  expectKeyword .AS
  let (body, ps) ← preparedQuery name
  return ⟨name, types, ps, body⟩

end Parser

end DdlCatalog.Grammar
