import DdlCatalog.Catalog.TypeRef
import DdlCatalog.Decimal.Basic
import DdlCatalog.Grammar.Parser
import DdlCatalog.Token.Scanner

/-! # Type references
A name with or without a schema, modifiers in parentheses, the zone clause of a time, and array
dimensions. Built-in names of several words become one name with single blanks. -/

namespace DdlCatalog.Grammar

namespace Parser

/-- The value of a decimal literal of 32 bits without point, exponent or underscore. A sign is a token of
its own and never part of a number. -/
def smallNumber? (kind : Token.Kind) : Option UInt32 :=
  match kind with
  | .number digits =>
    ((Decimal.natural? digits.toList).filter (· < UInt32.size)).map UInt32.ofNat
  | _ => none

def smallNumber (what : String) : Parser UInt32 := do
  let t ← current
  match smallNumber? t.kind with
  | some n => advance; return n
  | none => typeError s!"invalid {what} {t.describe}"

/-- A word of a type name; `after` says what precedes it in messages. -/
def typeWord (after : String) : Parser String := do
  let t ← current
  match t.name? with
  | some name => advance; return name
  | none => typeError s!"expected type name{after}, found {t.describe}"

/-- The second word of a built-in name that has two. -/
def secondWord (first : String) : Parser String := do
  if first = "double" then
    if ← acceptKeyword .PRECISION then return "double precision"
  else if first = "character" ∨ first = "char" then
    if ← acceptKeyword .VARYING then return "character varying"
  else if first = "bit" then
    if ← acceptKeyword .VARYING then return "bit varying"
  return first

def typeName : Parser TypeRef := do
  let quoted := (← current).word?.isNone
  let first ← typeWord ""
  if ← accept .dot then
    let name ← typeWord s!" after {first}."
    return { TypeRef.ofName name with schema := some first }
  else if quoted then
    return TypeRef.ofName first
  else
    return TypeRef.ofName (← secondWord first)

def typeModifiers (t : TypeRef) : Parser TypeRef := do
  if ← accept .leftParen then
    let precision ← smallNumber "type modifier"
    let scale ← if ← accept .comma then some <$> smallNumber "type modifier" else pure none
    if ← accept .rightParen then
      return { t with precision := some precision, scale := scale }
    else
      typeError s!"expected ) after type modifiers, found {(← current).describe}"
  else
    return t

/-- Reads `WITH TIME ZONE` or `WITHOUT TIME ZONE`, taken only if it is complete. -/
def zoneClause : Parser (Option String) := fun ctx ts =>
  let zone? :=
    match ts with
    | a :: b :: c :: _ =>
      if b.isKeyword .TIME && c.isKeyword .ZONE then
        if a.isKeyword .WITH then some "with time zone"
        else if a.isKeyword .WITHOUT then some "without time zone"
        else none
      else none
    | _ => none
  match zone? with
  | some zone => (do let _ ← take 3; return some zone : Parser (Option String)) ctx ts
  | none => .ok (.keep none)

/-- The zone clause that the name of a time may have. -/
def typeZone (t : TypeRef) : Parser TypeRef := do
  if t.schema.isNone ∧ (t.name = "time" ∨ t.name = "timestamp") then
    match ← zoneClause with
    | some zone => return { t with name := t.name ++ " " ++ zone }
    | none => return t
  else
    return t

/-- The size of an array dimension and its closing bracket. -/
def arrayBound : Parser (Option UInt32) := do
  let size ← if ← at? .rightBracket then pure none else some <$> smallNumber "array dimension"
  if ← accept .rightBracket then return size
  else typeError s!"expected ] in array dimension, found {(← current).describe}"

def arrayBounds : Parser (List (Option UInt32)) :=
  clauses (fun dims t => do
    if t.kind = .leftBracket then return some (dims ++ [← arrayBound]) else return none) []

/-- Reads `ARRAY` with at most one dimension in brackets, or any number of bracketed dimensions. -/
def arrayDims : Parser (List (Option UInt32)) := do
  if ← acceptKeyword .ARRAY then
    if ← accept .leftBracket then return [← arrayBound] else return [none]
  else
    arrayBounds

def typeRef : Parser TypeRef := do
  let t ← typeZone (← typeModifiers (← typeName))
  return { t with arrayDims := ← arrayDims }

end Parser

/-- The name of a text that has none. -/
def anonymousSource : String := "<input>"

/-- The type at the start of a text, and the number of its tokens. What follows it is left alone. -/
def parseType (text : String) : Except Error (TypeRef × Nat) := do
  let tokens ← Token.tokenize anonymousSource text.toList
  let ctx := Context.ofTokens anonymousSource text.toList tokens
  let (t, rest) ← Parser.typeRef.run ctx ctx.tokens
  return (t, ctx.tokens.length - rest.length)

end DdlCatalog.Grammar
