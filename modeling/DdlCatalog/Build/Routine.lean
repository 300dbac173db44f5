import DdlCatalog.Build.Placement
import DdlCatalog.Build.TypeLookup
import DdlCatalog.Statement.Basic

/-! # Registering functions, procedures and prepared statements -/

namespace DdlCatalog

open Text (Location)

namespace Returns

def types : Returns → List TypeRef
  | scalar t => [t]
  | setOf t => [t]
  | table columns => columns.map Prod.snd

end Returns

/-- What kind of routine in a schema has the name and signature of `r`. -/
def Schema.routineKind? (s : Schema) (r : Routine) : Option ObjectKind :=
  if (s.functionsNamed r.name.name).any fun f => f.routine.sameSignature r then some .function
  else if (s.proceduresNamed r.name.name).any fun p => p.routine.sameSignature r then
    some .procedure
  else none

namespace DraftM

/-- Checks the types of the parameters and puts a routine together. -/
def buildRoutine (config : Config) (name : QualifiedName) (parameters : List Parameter)
    (attributes : RoutineAttributes) (body : RoutineBody) (orReplace : Bool) (ddl : String)
    (l : Location) : DraftM Routine := do
  resolveTypes config name.schema l (parameters.map (·.dataType))
  return ⟨name, parameters, attributes.language, body, attributes.securityDefiner, orReplace, ddl,
    l⟩

/-- Functions and procedures share their signatures. One replaces another only if both are of the
same kind and the statement says so. -/
def checkClash (r : Routine) (kind : ObjectKind) : DraftM Unit := do
  match ((← catalog).schema? r.name.schema).bind (·.routineKind? r) with
  | none => return ()
  | some existing =>
    if existing = kind ∧ r.orReplace then note (.replacedRoutine r.name kind)
    else
      let types := ", ".intercalate (r.signature.map toString)
      throw (.duplicateDefinition r.location existing s!"{r.name}({types})")

def createFunction (config : Config) (scope : Scope) (s : CreateFunction) (ddl : String)
    (l : Location) : DraftM Unit := do
  let name ← place config scope s.name l
  resolveTypes config name.schema l (s.returns.toList.flatMap (·.types))
  let routine ← buildRoutine config name s.parameters s.attributes s.body s.orReplace ddl l
  checkClash routine .function
  let a := s.attributes
  change (·.modifySchema name.schema (·.insertFunction
    ⟨routine, s.returns, a.volatility, a.strict, a.leakproof, a.parallel, a.cost, a.rows⟩))

def createProcedure (config : Config) (scope : Scope) (s : CreateProcedure) (ddl : String)
    (l : Location) : DraftM Unit := do
  let name ← place config scope s.name l
  let routine ← buildRoutine config name s.parameters s.attributes s.body s.orReplace ddl l
  checkClash routine .procedure
  change (·.modifySchema name.schema (·.insertProcedure ⟨routine⟩))

def prepare (config : Config) (scope : Scope) (s : Prepare) (l : Location) : DraftM Unit := do
  let name ← place config scope s.name l
  if ((← catalog).prepared? name).isSome then
    throw (.duplicateDefinition l .preparedStatement (toString name))
  else
    resolveTypes config name.schema l s.parameterTypes
    change (·.modifySchema name.schema (·.insertPrepared
      ⟨name, s.parameterTypes, s.parameters, s.body, l⟩))

end DraftM

end DdlCatalog
