import DdlCatalog.Build.Draft

/-! # Looking up types
A type is built in, configured, an enum, or the row of a table. -/

namespace DdlCatalog

open Text (Location)

inductive TypeMeaning where
  | base
  | enum (name : QualifiedName)
  | row
  | unknown
deriving DecidableEq, Repr

namespace Catalog

/-- The meaning of the first of the given names that has one. -/
def meaningOfNames (c : Catalog) : List QualifiedName → TypeMeaning
  | [] => .unknown
  | name :: names =>
    if (c.enum? name).isSome then .enum name
    else if (c.relation? name).isSome then .row
    else c.meaningOfNames names

/-- The meaning of a type. A name without a schema is looked up in the schema of the object that
uses it and then in the default schema. -/
def typeMeaning (c : Catalog) (config : Config) (schema : String) (t : TypeRef) : TypeMeaning :=
  let builtinScope := t.schema.all (· = "pg_catalog")
  if builtinScope && isBuiltinType t.name then .base
  else if config.extraTypes.any fun extra => extra = t.name || extra = t.written then .base
  else
    match t.schema with
    | some qualifier => c.meaningOfNames [⟨qualifier, t.name⟩]
    | none => c.meaningOfNames [⟨schema, t.name⟩, ⟨config.defaultSchema, t.name⟩]

end Catalog

namespace DraftM

/-- The enum that a type names, if any; an unknown type is an issue. -/
def resolveType (config : Config) (schema : String) (l : Location) (t : TypeRef) :
    DraftM (Option QualifiedName) := do
  match (← catalog).typeMeaning config schema t with
  | .enum name => return some name
  | .unknown =>
    report (.unknownType l t.written)
    return none
  | _ => return none

def resolveTypes (config : Config) (schema : String) (l : Location) (ts : List TypeRef) :
    DraftM Unit :=
  ts.forM fun t => discard (resolveType config schema l t)

end DraftM

end DdlCatalog
