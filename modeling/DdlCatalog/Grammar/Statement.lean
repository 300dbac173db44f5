import DdlCatalog.Grammar.EnumType
import DdlCatalog.Grammar.Index
import DdlCatalog.Grammar.Prepare
import DdlCatalog.Grammar.Routine
import DdlCatalog.Grammar.Table
import DdlCatalog.Grammar.View
import DdlCatalog.Statement.Split

/-! # Statements
A statement is recognised by its first words. What the grammar does not cover is refused. -/

namespace DdlCatalog.Grammar

/-- The first words of a statement, at most so many, in upper case; or its first token, if that is
no word. -/
def Context.construct (ctx : Context) (limit : Nat) : String :=
  let words := (ctx.tokens.takeWhile (·.word?.isSome)).take limit
  if words.isEmpty then (ctx.current ctx.tokens).describe
  else " ".intercalate (words.map (Text.upper ·.describe))

/-- The words between `CREATE` and the kind of object. -/
structure Modifiers where
  orReplace : Bool
  temporary : Bool
  unlogged : Bool
  unique : Bool
deriving DecidableEq, Repr

namespace Parser

def orReplace : Parser Bool := do
  if ← acceptKeyword .OR then
    expectKeyword .REPLACE
    return true
  else
    return false

def temporary : Parser Bool := do
  if ← acceptKeyword .TEMPORARY then return true else acceptKeyword .TEMP

def modifiers : Parser Modifiers := do
  return ⟨← orReplace, ← temporary, ← acceptKeyword .UNLOGGED, ← acceptKeyword .UNIQUE⟩

def createSchema : Parser CreateSchema := do
  expectKeyword .SCHEMA
  let exists? ← ifNotExists
  return ⟨← name, exists?⟩

/-- Goes on unless a modifier stands where it is not allowed. -/
def unlessModified (modifier : String) (present : Bool) (p : Parser Statement) :
    Parser Statement := do
  if present then error s!"{modifier} is not valid for CREATE {(← current).describe}" else p

/-- What the statement creates, from the kind of object on. -/
def created (m : Modifiers) : Parser Statement := do
  match (← current).kind with
  | .keyword .SCHEMA =>
    unlessModified "modifier" (m.orReplace || m.temporary || m.unlogged || m.unique) do
      return .createSchema (← createSchema)
  | .keyword .TYPE =>
    unlessModified "modifier" (m.orReplace || m.temporary || m.unlogged || m.unique) do
      return .createEnum (← createEnum)
  | .keyword .TABLE =>
    unlessModified "OR REPLACE" m.orReplace <| unlessModified "UNIQUE" m.unique do
      return .createTable (← createTable m.temporary m.unlogged)
  | .keyword .VIEW | .keyword .MATERIALIZED | .keyword .RECURSIVE =>
    unlessModified "modifier" (m.unlogged || m.unique) do
      return .createView (← createView m.orReplace m.temporary)
  | .keyword .INDEX =>
    unlessModified "modifier" (m.orReplace || m.temporary || m.unlogged) do
      return .createIndex (← createIndex m.unique)
  | .keyword .FUNCTION =>
    unlessModified "modifier" (m.temporary || m.unlogged || m.unique) do
      return .createFunction (← createFunction m.orReplace)
  | .keyword .PROCEDURE =>
    unlessModified "modifier" (m.temporary || m.unlogged || m.unique) do
      return .createProcedure (← createProcedure m.orReplace)
  | _ => fun ctx ts =>
    unsupported (ctx.construct (ctx.tokens.length - ts.length + 1)) ctx ts

def create : Parser Statement := do
  expectKeyword .CREATE
  created (← modifiers)

def anyStatement : Parser Statement := do
  match (← current).kind with
  | .keyword .CREATE => create
  | .keyword .PREPARE => return .prepare (← prepare)
  | _ => fun ctx ts => unsupported (ctx.construct 2) ctx ts

/-- A statement with nothing behind it. -/
def statement : Parser Statement := do
  let s ← anyStatement
  if ← atEnd then return s
  else error s!"unexpected {(← current).describe} after {s.kind}"

end Parser

def parseTokens (source : String) (text : List Char) (tokens : List Token) :
    Except Error Statement :=
  let ctx := Context.ofTokens source text tokens
  (Parser.statement.run ctx ctx.tokens).map Prod.fst

def parseRaw (source : String) (text : List Char) (raw : RawStatement) :
    Except Error ParsedStatement :=
  (parseTokens source text (raw.tokens ++ [raw.stop])).map fun s =>
    ⟨s, String.ofList (raw.text text), raw.first.location source⟩

def parseSource (source text : String) : Except Error (List ParsedStatement) := do
  (← splitText source text.toList).mapM (parseRaw source text.toList)

/-- The statement of a text that holds exactly one. -/
def parseStatement (source text : String) : Except Error ParsedStatement := do
  match ← parseSource source text with
  | [s] => return s
  | [] => throw (.parse ⟨source, 0, 1, 1⟩ "no statement found")
  | _ :: second :: _ => throw (.parse second.location "expected a single statement")

end DdlCatalog.Grammar
