import DdlCatalog.Catalog.Basic
import DdlCatalog.Export.Basic
import DdlCatalog.Json.Printer

/-! # Exported catalogs
Relations, routines and prepared statements, and the catalog that holds them. -/

namespace DdlCatalog

open Json (optionalString strings tagged)

def ReferentialAction.label : ReferentialAction → String
  | noAction => "NoAction"
  | restrict => "Restrict"
  | cascade => "Cascade"
  | setNull => "SetNull"
  | setDefault => "SetDefault"

def optionalAction (a : Option ReferentialAction) : Json :=
  Json.ofOption (fun a => .string a.label) a

def MatchType.label : MatchType → String
  | simple => "Simple"
  | full => "Full"
  | partly => "Partial"

def optionalMatch (m : Option MatchType) : Json := Json.ofOption (fun m => .string m.label) m

def ForeignKey.toJson (k : ForeignKey) : Json :=
  .object [("referenced_table", k.referencedTable.toJson),
    ("referenced_columns", strings k.referencedColumns), ("on_update", optionalAction k.onUpdate),
    ("on_delete", optionalAction k.onDelete), ("match_type", optionalMatch k.matchType),
    ("deferrable", .bool k.deferrable), ("initially_deferred", .bool k.initiallyDeferred),
    ("use_alter", .bool k.useAlter), ("resolved", .bool k.resolved)]

def ExclusionElement.toJson (e : ExclusionElement) : Json :=
  .object [("expression", e.expression.toJson), ("column", optionalString e.column),
    ("operator", .string e.operator)]

def Exclusion.toJson (e : Exclusion) : Json :=
  .object [("using", optionalString e.using?),
    ("elements", Json.ofList ExclusionElement.toJson e.elements),
    ("predicate", optionalExpression e.predicate)]

def ConstraintKind.toJson : ConstraintKind → Json
  | primaryKey => .string "PrimaryKey"
  | unique nulls => tagged "Unique" (.object [("nulls_not_distinct", .bool nulls)])
  | check e => tagged "Check" (.object [("expression", e.toJson)])
  | foreignKey k => tagged "ForeignKey" k.toJson
  | exclusion e => tagged "Exclusion" e.toJson

def Constraint.toJson (c : Constraint) : Json :=
  .object [("name", .string c.name), ("explicit_name", .bool c.explicitName),
    ("columns", strings c.columns), ("kind", c.kind.toJson), ("location", c.location.toJson)]

def SortOrder.label : SortOrder → String
  | asc => "Asc"
  | desc => "Desc"

def NullsOrder.label : NullsOrder → String
  | first => "First"
  | last => "Last"

def IndexElement.toJson (e : IndexElement) : Json :=
  .object [("expression", e.expression.toJson), ("column", optionalString e.column),
    ("collation", optionalString e.collation), ("opclass", optionalString e.opclass),
    ("order", Json.ofOption (fun o => .string o.label) e.order),
    ("nulls", Json.ofOption (fun o => .string o.label) e.nulls)]

def Index.toJson (i : Index) : Json :=
  .object [("name", .string i.name), ("explicit_name", .bool i.explicitName),
    ("table", i.table.toJson), ("unique", .bool i.unique), ("using", optionalString i.using?),
    ("elements", Json.ofList IndexElement.toJson i.elements), ("include", strings i.included),
    ("predicate", optionalExpression i.predicate),
    ("nulls_not_distinct", .bool i.nullsNotDistinct), ("concurrently", .bool i.concurrently),
    ("location", i.location.toJson)]

def RelationKind.toJson : RelationKind → Json
  | table => .string "Table"
  | view materialized recursive =>
    tagged "View" (.object [("materialized", .bool materialized), ("recursive", .bool recursive)])

def OnCommit.label : OnCommit → String
  | preserveRows => "PreserveRows"
  | deleteRows => "DeleteRows"
  | drop => "Drop"

def optionalOnCommit (a : Option OnCommit) : Json := Json.ofOption (fun a => .string a.label) a

def Relation.toJson (r : Relation) : Json :=
  .object [("name", r.name.toJson), ("kind", r.kind.toJson),
    ("columns", Json.ofList Column.toJson r.columns),
    ("constraints", Json.ofList Constraint.toJson r.constraints),
    ("indexes", Json.ofList Index.toJson r.indexes), ("temporary", .bool r.temporary),
    ("unlogged", .bool r.unlogged), ("on_commit", optionalOnCommit r.onCommit),
    ("definition", optionalString r.definition), ("ddl", .string r.ddl),
    ("location", r.location.toJson)]

def ParameterMode.label : ParameterMode → String
  | input => "In"
  | output => "Out"
  | both => "InOut"
  | variadic => "Variadic"

def Parameter.toJson (p : Parameter) : Json :=
  .object [("mode", .string p.mode.label), ("name", optionalString p.name),
    ("data_type", p.dataType.toJson), ("default", optionalExpression p.default)]

def Returns.toJson : Returns → Json
  | scalar t => tagged "Scalar" t.toJson
  | setOf t => tagged "SetOf" t.toJson
  | table columns =>
    tagged "Table" (Json.ofList (fun (name, t) => .array [.string name, t.toJson]) columns)

def Volatility.label : Volatility → String
  | immutable => "Immutable"
  | stable => "Stable"
  | volatile => "Volatile"

def optionalVolatility (v : Option Volatility) : Json := Json.ofOption (fun v => .string v.label) v

def BodyKind.toJson : BodyKind → Json
  | dollarQuoted tag => tagged "DollarQuoted" (.object [("tag", .string tag)])
  | stringLiteral => .string "StringLiteral"
  | sqlStandard => .string "SqlStandard"

def RoutineBody.toJson (b : RoutineBody) : Json :=
  .object [("kind", b.kind.toJson), ("text", .string b.text), ("source", .string b.source)]

def Routine.toJson (r : Routine) : Json :=
  .object [("name", r.name.toJson), ("parameters", Json.ofList Parameter.toJson r.parameters),
    ("language", optionalString r.language), ("body", r.body.toJson),
    ("security_definer", .bool r.securityDefiner), ("or_replace", .bool r.orReplace),
    ("ddl", .string r.ddl), ("location", r.location.toJson)]

def StoredFunction.toJson (f : StoredFunction) : Json :=
  .object [("routine", f.routine.toJson), ("returns", Json.ofOption Returns.toJson f.returns),
    ("volatility", optionalVolatility f.volatility), ("strict", .bool f.strict),
    ("leakproof", .bool f.leakproof), ("parallel", optionalString f.parallel),
    ("cost", optionalString f.cost), ("rows", optionalString f.rows)]

def StoredProcedure.toJson (p : StoredProcedure) : Json := .object [("routine", p.routine.toJson)]

def PreparedParameters.toJson : PreparedParameters → Json
  | none => .string "None"
  | named names => tagged "Named" (strings names)
  | positional numbers => tagged "Positional" (Json.ofList (fun n => .ofNat n.toNat) numbers)

def PreparedStatement.toJson (p : PreparedStatement) : Json :=
  .object [("name", p.name.toJson),
    ("parameter_types", Json.ofList TypeRef.toJson p.parameterTypes),
    ("parameters", p.parameters.toJson), ("body", .string p.body),
    ("location", p.location.toJson)]

def OrderedMap.toJson {ν : Type} (value : ν → Json) (m : OrderedMap String ν) : Json :=
  .object (m.entries.map fun (key, v) => (key, value v))

def Schema.toJson (s : Schema) : Json :=
  .object [("name", .string s.name), ("enums", s.enums.toJson EnumType.toJson),
    ("tables", s.relations.toJson Relation.toJson),
    ("functions", s.functions.toJson (Json.ofList StoredFunction.toJson)),
    ("procedures", s.procedures.toJson (Json.ofList StoredProcedure.toJson)),
    ("prepared", s.prepared.toJson PreparedStatement.toJson)]

def Catalog.toJson (c : Catalog) : Json :=
  .object [("default_schema", .string c.defaultSchema), ("schemas", c.schemas.toJson Schema.toJson),
    ("table_order", Json.ofList QualifiedName.toJson c.relationOrder)]

def Catalog.jsonText (c : Catalog) : String := c.toJson.pretty

end DdlCatalog
