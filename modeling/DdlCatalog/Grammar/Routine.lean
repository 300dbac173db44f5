import DdlCatalog.Grammar.Expression
import DdlCatalog.Statement.Basic
import DdlCatalog.Text.LetterCase

/-! # Declarations of functions and procedures
`FUNCTION name (parameters) [RETURNS type] clauses` and `PROCEDURE name (parameters) clauses`. The
clauses are attributes in any order and one body. -/

namespace DdlCatalog.Grammar

open Text (Location)

/-- What has been said of a routine after its parameters. -/
structure RoutineDraft where
  returns : Option Returns
  attributes : RoutineAttributes
  body : Option RoutineBody

namespace RoutineDraft

def empty : RoutineDraft := ⟨none, RoutineAttributes.empty, none⟩

def modify (d : RoutineDraft) (f : RoutineAttributes → RoutineAttributes) : RoutineDraft :=
  { d with attributes := f d.attributes }

end RoutineDraft

/-- Whether a token ends a parameter that is a type without a name. -/
def endsParameter (t : Token) : Bool :=
  match t.kind with
  | .comma => true
  | .rightParen => true
  | .keyword .DEFAULT => true
  | .operator op => op = "="
  | _ => false

namespace Parser

def parameterMode : Parser ParameterMode := do
  if ← acceptKeyword .IN then return .input
  else if ← acceptKeyword .OUT then return .output
  else if ← acceptKeyword .INOUT then return .both
  else if ← acceptKeyword .VARIADIC then return .variadic
  else return .input

/-- A parameter has no name if a type alone spans all of it. -/
def parameterType : Parser (Option String × TypeRef) := do
  match ← onlyBefore typeRef endsParameter with
  | some t => return (none, t)
  | none =>
    let name ← name
    return (some name, ← typeRef)

def parameterDefault : Parser (Option Expression) := do
  if ← acceptKeyword .DEFAULT then some <$> expression neverStops
  else if ← accept (.operator "=") then some <$> expression neverStops
  else return none

def parameter : Parser Parameter := do
  let mode ← parameterMode
  let (name, t) ← parameterType
  return ⟨mode, name, t, ← parameterDefault⟩

def parameters : Parser (List Parameter) := do
  expect .leftParen
  if ← accept .rightParen then return []
  else
    let ps ← commaList parameter
    expect .rightParen
    return ps

def resultColumn : Parser (String × TypeRef) := do
  let name ← name
  return (name, ← typeRef)

def returns : Parser Returns := do
  if ← acceptKeyword .SETOF then return .setOf (← typeRef)
  else if ← acceptKeyword .TABLE then
    expect .leftParen
    let columns ← commaList resultColumn
    expect .rightParen
    return .table columns
  else
    return .scalar (← typeRef)

def language : Parser String := do
  match (← current).kind with
  | .string s => advance; return Text.lower s
  | _ => name

def onNullInput : Parser Unit := do
  expectKeyword .ON
  expectKeyword .NULL
  expectKeyword .INPUT

def securityDefiner : Parser Bool := do
  if ← acceptKeyword .DEFINER then return true
  else
    expectKeyword .INVOKER
    return false

/-- A body after `AS`: a string or a dollar quote. -/
def quotedBody : Parser RoutineBody := fun ctx ts =>
  let t := ctx.current ts
  let body (kind : BodyKind) (text : String) : Parser RoutineBody := do
    advance
    if ← at? .comma then unsupported "AS 'object file', 'link symbol'"
    else return ⟨kind, text, ctx.textOf [t]⟩
  match t.kind with
  | .dollarQuoted tag text => body (.dollarQuoted tag) text ctx ts
  | .string text => body .stringLiteral text ctx ts
  | _ => expected "routine body" ctx ts

/-- A body that is an expression, after its first word. -/
def expressionBody (word : Token) : Parser RoutineBody := fun ctx ts =>
  let body : Parser RoutineBody := do
    let taken ← expressionTokens neverStops
    return ⟨.sqlStandard, ctx.textOf taken, ctx.textOf (word :: taken)⟩
  body ctx ts

/-- A routine has one body. -/
def withBody (d : RoutineDraft) (l : Location) (body : Parser RoutineBody) :
    Parser (Option RoutineDraft) := do
  if d.body.isSome then errorAt l "duplicate routine body"
  else return some { d with body := some (← body) }

def routineClause (d : RoutineDraft) (word : Token) : Parser (Option RoutineDraft) := fun ctx ts =>
  let l := ctx.locate word
  let clause : Parser (Option RoutineDraft) := do
    match word.kind with
    | .eof => return none
    | .keyword .LANGUAGE =>
      let language ← language
      return some (d.modify fun a => { a with language := some language })
    | .keyword .IMMUTABLE => return some (d.modify ({ · with volatility := some .immutable }))
    | .keyword .STABLE => return some (d.modify ({ · with volatility := some .stable }))
    | .keyword .VOLATILE => return some (d.modify ({ · with volatility := some .volatile }))
    | .keyword .STRICT => return some (d.modify ({ · with strict := true }))
    | .keyword .CALLED =>
      onNullInput
      return some (d.modify ({ · with strict := false }))
    | .keyword .RETURNS =>
      expectKeyword .NULL
      onNullInput
      return some (d.modify ({ · with strict := true }))
    | .keyword .SECURITY =>
      let definer ← securityDefiner
      return some (d.modify fun a => { a with securityDefiner := definer })
    | .keyword .LEAKPROOF => return some (d.modify ({ · with leakproof := true }))
    | .keyword .NOT =>
      expectKeyword .LEAKPROOF
      return some (d.modify ({ · with leakproof := false }))
    | .keyword .PARALLEL =>
      let parallel ← name
      return some (d.modify fun a => { a with parallel := some parallel })
    | .keyword .COST =>
      let cost ← number
      return some (d.modify fun a => { a with cost := some cost })
    | .keyword .ROWS =>
      let rows ← number
      return some (d.modify fun a => { a with rows := some rows })
    | .keyword .AS => withBody d l quotedBody
    | .keyword .RETURN => withBody d l (expressionBody word)
    | .keyword .BEGIN =>
      if ← atKeyword .ATOMIC then unsupported "BEGIN ATOMIC routine body"
      else errorAt l s!"unexpected {word.describe} in routine definition"
    | .keyword .SET => unsupported "SET configuration_parameter in routine definition"
    | _ => errorAt l s!"unexpected {word.describe} in routine definition"
  clause ctx ts

def functionClause (d : RoutineDraft) (word : Token) : Parser (Option RoutineDraft) :=
  fun ctx ts =>
    if word.isKeyword .RETURNS && !(ctx.current ts).isKeyword .NULL then
      if d.returns.isSome then errorAt (ctx.locate word) "duplicate RETURNS clause" ctx ts
      else (do return some { d with returns := some (← returns) } : Parser _) ctx ts
    else
      routineClause d word ctx ts

def procedureClause (d : RoutineDraft) (word : Token) : Parser (Option RoutineDraft) :=
  fun ctx ts =>
    if word.isKeyword .RETURNS then
      errorAt (ctx.locate word) "procedures cannot have a RETURNS clause" ctx ts
    else
      routineClause d word ctx ts

def createFunction (orReplace : Bool) : Parser CreateFunction := do
  expectKeyword .FUNCTION
  let name ← objectName
  let ps ← parameters
  let d ← clauses functionClause RoutineDraft.empty
  match d.body with
  | some body => return ⟨name, orReplace, ps, d.returns, d.attributes, body⟩
  | none => error s!"function {name} has no body"

def createProcedure (orReplace : Bool) : Parser CreateProcedure := do
  expectKeyword .PROCEDURE
  let name ← objectName
  let ps ← parameters
  let d ← clauses procedureClause RoutineDraft.empty
  match d.body with
  | some body => return ⟨name, orReplace, ps, d.attributes, body⟩
  | none => error s!"procedure {name} has no body"

end Parser

end DdlCatalog.Grammar
