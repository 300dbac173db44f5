import DdlCatalog.Catalog.Expression
import DdlCatalog.Catalog.Name
import DdlCatalog.Catalog.TypeRef
import DdlCatalog.Text.Location

/-! # Functions, procedures and prepared statements -/

namespace DdlCatalog

open Text (Location)

inductive ParameterMode where
  | input
  | output
  | both
  | variadic
deriving DecidableEq, Repr

structure Parameter where
  mode : ParameterMode
  name : Option String
  dataType : TypeRef
  default : Option Expression
deriving DecidableEq, Repr

namespace Parameter

def isInput (p : Parameter) : Bool := p.mode ≠ .output

end Parameter

/-- What a function gives back. -/
inductive Returns where
  | scalar (t : TypeRef)
  | setOf (t : TypeRef)
  | table (columns : List (String × TypeRef))
deriving DecidableEq, Repr

inductive Volatility where
  | immutable
  | stable
  | volatile
deriving DecidableEq, Repr

/-- How the body of a routine is written. -/
inductive BodyKind where
  | dollarQuoted (tag : String)
  | stringLiteral
  /-- An expression after `RETURN`. -/
  | sqlStandard
deriving DecidableEq, Repr

structure RoutineBody where
  kind : BodyKind
  /-- The body without its delimiters. -/
  text : String
  /-- The body as written. -/
  source : String
deriving DecidableEq, Repr

/-- What functions and procedures have in common. -/
structure Routine where
  name : QualifiedName
  parameters : List Parameter
  language : Option String
  body : RoutineBody
  securityDefiner : Bool
  orReplace : Bool
  /-- The text of the statement. -/
  ddl : String
  location : Location
deriving DecidableEq, Repr

namespace Routine

/-- The types of the parameters that the caller passes. -/
def signature (r : Routine) : List TypeRef := (r.parameters.filter (·.isInput)).map (·.dataType)

def parameterTypes (r : Routine) : List TypeRef := r.parameters.map (·.dataType)

/-- Two routines of one name are the same if these agree: modifiers and array sizes do not tell
routines apart. -/
def overloadKey (r : Routine) : List (Option String × String × Nat) :=
  r.signature.map fun t => (t.schema, t.name, t.dimensions)

def sameSignature (a b : Routine) : Bool := a.overloadKey = b.overloadKey

end Routine

structure StoredFunction where
  routine : Routine
  /-- Nothing is written here for functions that answer through their parameters. -/
  returns : Option Returns
  volatility : Option Volatility
  strict : Bool
  leakproof : Bool
  parallel : Option String
  cost : Option String
  rows : Option String
deriving DecidableEq, Repr

namespace StoredFunction

def returnsSet (f : StoredFunction) : Bool :=
  match f.returns with
  | some (.setOf _) => true
  | some (.table _) => true
  | _ => false

end StoredFunction

structure StoredProcedure where
  routine : Routine
deriving DecidableEq, Repr

namespace StoredProcedure

/-- A call with a named placeholder for each parameter to pass. The schema is written unless it is
the default one. -/
def callStatement (p : StoredProcedure) (defaultSchema : String) : String :=
  let arguments := (List.range p.routine.signature.length).map fun i => ":arg" ++ toString i
  let name := p.routine.name
  let shown := if name.schema = defaultSchema then name.name else toString name
  "CALL " ++ shown ++ "(" ++ ", ".intercalate arguments ++ ")"

end StoredProcedure

/-- The placeholders of a prepared statement, each once, in order of first use. -/
inductive PreparedParameters where
  | none
  | named (names : List String)
  | positional (numbers : List UInt32)
deriving DecidableEq, Repr

namespace PreparedParameters

def count : PreparedParameters → Nat
  | none => 0
  | named names => names.length
  | positional numbers => numbers.length

end PreparedParameters

structure PreparedStatement where
  name : QualifiedName
  parameterTypes : List TypeRef
  parameters : PreparedParameters
  /-- The query as written. -/
  body : String
  location : Location
deriving DecidableEq, Repr

namespace PreparedStatement

instance : ToString PreparedStatement where
  toString p := toString p.name ++ ": " ++ p.body

end PreparedStatement

end DdlCatalog
