import DdlCatalog.Build.Draft

/-! # Placing names in schemas
A name without a schema goes into the default one. A source may be bound to the one schema that it
declares. -/

namespace DdlCatalog

open Text (Location)

/-- The schema that the source at hand has declared. -/
abbrev Scope := Option String

namespace Scope

/-- The scope after a schema is declared; under a single schema for each source, a second schema is
refused. -/
def declare (config : Config) (scope : Scope) (name : String) (l : Location) :
    Except Error Scope :=
  if config.singleSchemaPerSource then
    match scope with
    | some declared =>
      if declared ≠ name then
        .error (.parse l s!"source already declares schema {declared}, cannot declare {name}")
      else .ok (some name)
    | none => .ok (some name)
  else
    .ok scope

def qualify (config : Config) (scope : Scope) (name : ObjectName) (l : Location) :
    Except Error QualifiedName :=
  let placed := name.qualify config.defaultSchema
  match config.singleSchemaPerSource, name.schema, scope with
  | true, some schema, some declared =>
    if declared = schema then .ok placed
    else .error (.parse l s!"{name} is outside schema {declared} declared by this source")
  | true, some _, none =>
    .error (.parse l s!"{name} is schema-qualified but this source declares no schema")
  | _, _, _ => .ok placed

end Scope

namespace DraftM

/-- Makes sure that a declared schema exists. Declaring it again changes nothing. -/
def createSchema (config : Config) (scope : Scope) (name : String) (l : Location) :
    DraftM Scope := do
  let scope ← scope.declare config name l
  if (← catalog).hasSchema name then note (.knownSchema name)
  change (·.ensureSchema name)
  return scope

def place (config : Config) (scope : Scope) (name : ObjectName) (l : Location) :
    DraftM QualifiedName := do
  let placed ← scope.qualify config name l
  change (·.ensureSchema placed.schema)
  return placed

end DraftM

end DdlCatalog
