import DdlCatalog.Text.Excerpt

/-! # Errors
What can be wrong with a source text or with the catalog that a sequence of texts describes. -/

namespace DdlCatalog

open Text (Location SourceMap)

/-- What a name stands for in a catalog. -/
inductive ObjectKind where
  | schema
  | type
  | table
  | view
  | column
  | constraint
  | index
  | function
  | procedure
  | preparedStatement
deriving DecidableEq, Repr

namespace ObjectKind

def describe : ObjectKind → String
  | schema => "schema"
  | type => "type"
  | table => "table"
  | view => "view"
  | column => "column"
  | constraint => "constraint"
  | index => "index"
  | function => "function"
  | procedure => "procedure"
  | preparedStatement => "prepared statement"

instance : ToString ObjectKind := ⟨describe⟩

end ObjectKind

inductive Error where
  | lex (location : Location) (message : String)
  | unsupportedStatement (location : Location) (construct : String)
  | typeSyntax (location : Location) (message : String)
  | parse (location : Location) (message : String)
  | duplicateDefinition (location : Location) (kind : ObjectKind) (name : String)
  | unresolvedReference (location : Location) (table : String) (column : Option String)
  | unknownTable (location : Location) (table : String)
  | unknownType (location : Location) (typeName : String)
  /-- All issues of one catalog together. -/
  | finalize (issues : List Error)
  | snapshot (message : String)
deriving Inhabited

namespace Error

def quoted (name : String) : String := "\"" ++ name ++ "\""

def describeReference (table : String) : Option String → String
  | some column => quoted table ++ "." ++ quoted column
  | none => quoted table

mutual

/-- The text of an error, which starts with its location if it has one. -/
def message : Error → String
  | lex l message => s!"{l}: lex error: {message}"
  | unsupportedStatement l construct => s!"{l}: unsupported statement: {construct}"
  | typeSyntax l message => s!"{l}: type syntax error: {message}"
  | parse l message => s!"{l}: parse error: {message}"
  | duplicateDefinition l kind name => s!"{l}: {kind} {quoted name} already exists"
  | unresolvedReference l table column =>
    s!"{l}: unresolved reference to {describeReference table column}"
  | unknownTable l table => s!"{l}: unknown table {quoted table}"
  | unknownType l typeName => s!"{l}: unknown type {quoted typeName}"
  | finalize issues =>
    s!"catalog build failed with {issues.length} issue(s):\n" ++
      "\n".intercalate (indentedMessages issues)
  | snapshot message => s!"Snapshot error: {message}"

def indentedMessages : List Error → List String
  | [] => []
  | e :: rest => ("  " ++ message e) :: indentedMessages rest

end

instance : ToString Error := ⟨message⟩

def location? : Error → Option Location
  | lex l _ => some l
  | unsupportedStatement l _ => some l
  | typeSyntax l _ => some l
  | parse l _ => some l
  | duplicateDefinition l _ _ => some l
  | unresolvedReference l _ _ => some l
  | unknownTable l _ => some l
  | unknownType l _ => some l
  | finalize _ => none
  | snapshot _ => none

/-- The issues behind an error; an error that collects none is its own issue. -/
def issues : Error → List Error
  | finalize issues => issues
  | e => [e]

/-- An issue with the source line it points at, unless that line cannot be cut out. -/
def renderIssue? (sources : SourceMap) (issue : Error) : Option String :=
  match issue.location?.map sources.excerpt with
  | some (.lines text) => some (issue.message ++ "\n" ++ text)
  | some .torn => none
  | some .unknownSource => some issue.message
  | none => some issue.message

/-- All issues with their source lines. There is no answer if the offset of one of them falls
inside a character of its text. -/
def render? (sources : SourceMap) (e : Error) : Option String :=
  (e.issues.mapM (renderIssue? sources)).map ("\n".intercalate ·)

end Error

end DdlCatalog
