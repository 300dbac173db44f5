import DdlCatalog.Grammar.TypeRef
import DdlCatalog.Statement.Basic

/-! # Declarations of enums
`TYPE name AS ENUM [(labels)] [PRAGMA (options)]` -/

namespace DdlCatalog.Grammar

/-- Plain text, which is what labels are stored as. -/
def isText (t : TypeRef) : Bool :=
  t.name = "text" && t.arrayDims.isEmpty && t.schema.all (· = "pg_catalog")

/-- Why labels and options do not make an enum. -/
def enumFault? (name : ObjectName) (labels : List String) (pragma : EnumPragma) : Option String :=
  let hasClass := pragma.className.isSome
  let hasAttribute := pragma.classAttribute.isSome
  if labels.isEmpty && !hasClass then some s!"enum {name} needs labels or a PRAGMA CLASS"
  else if hasAttribute && !hasClass then some "PRAGMA ATTRIBUTE requires CLASS"
  else if hasAttribute && !labels.isEmpty then
    some "PRAGMA ATTRIBUTE cannot be combined with enum labels"
  else if hasAttribute && pragma.dataType.isNone then
    some "PRAGMA ATTRIBUTE requires a DATA TYPE"
  else
    match pragma.dataType.filter (!isText ·) with
    | none => none
    | some t =>
      if !hasClass then
        some s!"invalid enum data type {t}: labelled enums are stored as text"
      else if !labels.isEmpty then
        some s!"enum labels cannot be combined with DATA TYPE {t}"
      else none

namespace Parser

def enumLabel : Parser String := do
  match (← current).kind with
  | .string label => advance; return label
  | _ => expected "enum label"

def enumLabels : Parser (List String) := do
  if ← accept .leftParen then
    if ← accept .rightParen then return []
    let labels ← commaList enumLabel
    expect .rightParen
    return labels
  else
    return []

def enumOption : Parser (EnumPragma → EnumPragma) := do
  if ← acceptKeyword .CLASS then
    let name ← string
    return fun p => { p with className := some name }
  else if ← acceptKeyword .DATA then
    expectKeyword .TYPE
    let t ← typeRef
    return fun p => { p with dataType := some t }
  else if ← acceptKeyword .ATTRIBUTE then
    let name ← string
    return fun p => { p with classAttribute := some name }
  else
    error s!"unknown enum PRAGMA option {(← current).describe}"

def enumPragma : Parser (Option EnumPragma) := do
  if ← acceptKeyword .PRAGMA then
    expect .leftParen
    let options ← commaList enumOption
    expect .rightParen
    return some (options.foldl (fun p change => change p) EnumPragma.empty)
  else
    return none

def createEnum : Parser CreateEnum := do
  expectKeyword .TYPE
  let name ← objectName
  expectKeyword .AS
  if ← acceptKeyword .ENUM then
    let labels ← enumLabels
    let l ← location
    let pragma ← enumPragma
    match enumFault? name labels (pragma.getD EnumPragma.empty) with
    | some message => errorAt l message
    | none => return ⟨name, labels, pragma⟩
  else
    let t ← current
    let what := if t.kind = .leftParen then "composite" else t.describe
    unsupported s!"CREATE TYPE ... AS {what}"

end Parser

end DdlCatalog.Grammar
