import DdlCatalog.Catalog.Schema

/-! # Catalogs
A catalog holds what a sequence of statements declares, by schema and in order of declaration. -/

namespace DdlCatalog

structure Catalog where
  /-- The schema of names written without one. -/
  defaultSchema : String
  schemas : OrderedMap String Schema
  /-- Tables and views of all schemas, in order of declaration. -/
  relationOrder : List QualifiedName
deriving DecidableEq, Repr

namespace Catalog

def ofDefaultSchema (defaultSchema : String) : Catalog := ⟨defaultSchema, ∅, []⟩

def schema? (c : Catalog) (name : String) : Option Schema := c.schemas.get? name

def hasSchema (c : Catalog) (name : String) : Bool := c.schemas.contains name

def relation? (c : Catalog) (name : QualifiedName) : Option Relation := do
  (← c.schema? name.schema).relations.get? name.name

/-- Finds a table or view by a name with or without its schema. -/
def findRelation? (c : Catalog) (name : String) : Option Relation :=
  c.relation? (QualifiedName.ofText name c.defaultSchema)

def enum? (c : Catalog) (name : QualifiedName) : Option EnumType := do
  (← c.schema? name.schema).enums.get? name.name

def functionsNamed (c : Catalog) (name : QualifiedName) : List StoredFunction :=
  match c.schema? name.schema with
  | some s => s.functionsNamed name.name
  | none => []

def procedure? (c : Catalog) (name : QualifiedName) : Option StoredProcedure := do
  (← c.schema? name.schema).procedure? name.name

def prepared? (c : Catalog) (name : QualifiedName) : Option PreparedStatement := do
  (← c.schema? name.schema).prepared.get? name.name

/-- What a name shared by tables, views and enums stands for. -/
def relationKind? (c : Catalog) (name : QualifiedName) : Option ObjectKind := do
  (← c.schema? name.schema).relationKind? name.name

/-- Tables and views in order of declaration. -/
def relations (c : Catalog) : List Relation := c.relationOrder.filterMap c.relation?

def constraints (c : Catalog) : List (Relation × Constraint) :=
  c.relations.flatMap fun r => r.constraints.map (r, ·)

def indexes (c : Catalog) : List (Relation × Index) :=
  c.relations.flatMap fun r => r.indexes.map (r, ·)

def enums (c : Catalog) : List EnumType := c.schemas.values.flatMap (·.enums.values)

def ensureSchema (c : Catalog) (name : String) : Catalog :=
  if c.hasSchema name then c else { c with schemas := c.schemas.insert name (Schema.ofName name) }

/-- Changes a schema, which is created if it does not exist. -/
def modifySchema (c : Catalog) (name : String) (f : Schema → Schema) : Catalog :=
  { c with schemas := c.schemas.alter name fun s => f (s.getD (Schema.ofName name)) }

/-- Registers a table or view. One that replaces another takes over its place. -/
def insertRelation (c : Catalog) (r : Relation) : Catalog :=
  let inserted := c.modifySchema r.name.schema (·.insertRelation r)
  if (c.relation? r.name).isSome then inserted
  else { inserted with relationOrder := c.relationOrder ++ [r.name] }

def modifyRelation (c : Catalog) (name : QualifiedName) (f : Relation → Relation) : Catalog :=
  { c with schemas := c.schemas.modify name.schema (·.modifyRelation name.name f) }

end Catalog

end DdlCatalog
