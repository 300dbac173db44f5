import DdlCatalog.Catalog.Column
import DdlCatalog.Catalog.EnumType
import DdlCatalog.Json.Basic

/-! # Exported names, types and expressions
Records are objects with their fields in order; an alternative without data is its name, one with
data an object with its name as the only key. -/

namespace DdlCatalog

open Json (optionalString strings tagged)

namespace Text

def Location.toJson (l : Location) : Json :=
  .object [("source", .string l.source), ("offset", .ofNat l.offset), ("line", .ofNat l.line),
    ("column", .ofNat l.column)]

end Text

def QualifiedName.toJson (n : QualifiedName) : Json :=
  .object [("schema", .string n.schema), ("name", .string n.name)]

def ObjectName.toJson (n : ObjectName) : Json :=
  .object [("schema", optionalString n.schema), ("name", .string n.name)]

def optionalNumber (n : Option UInt32) : Json := Json.ofOption (fun n => .ofNat n.toNat) n

def TypeRef.toJson (t : TypeRef) : Json :=
  .object [("schema", optionalString t.schema), ("name", .string t.name),
    ("precision", optionalNumber t.precision), ("scale", optionalNumber t.scale),
    ("array_dims", Json.ofList optionalNumber t.arrayDims)]

def Sentinel.label : Sentinel → String
  | currentTimestamp => "CurrentTimestamp"
  | currentDate => "CurrentDate"
  | currentTime => "CurrentTime"
  | localTimestamp => "LocalTimestamp"
  | localTime => "LocalTime"
  | currentUser => "CurrentUser"
  | sessionUser => "SessionUser"
  | randomUuid => "RandomUuid"

def Literal.toJson : Literal → Json
  | integer n => tagged "Integer" (.integer n.toInt)
  | float x => tagged "Float" (.float x)
  | string s => tagged "String" (.string s)
  | boolean b => tagged "Boolean" (.bool b)
  | null => .string "Null"
  | sentinel s => tagged "Sentinel" (.string s.label)

def Expression.toJson (e : Expression) : Json :=
  .object [("text", .string e.text), ("literal", Json.ofOption Literal.toJson e.literal),
    ("references", strings e.references)]

def optionalExpression (e : Option Expression) : Json := Json.ofOption Expression.toJson e

def EnumPragma.toJson (p : EnumPragma) : Json :=
  .object [("class_name", optionalString p.className),
    ("data_type", Json.ofOption TypeRef.toJson p.dataType),
    ("attribute", optionalString p.classAttribute)]

def EnumType.toJson (e : EnumType) : Json :=
  .object [("name", e.name.toJson), ("labels", strings e.labels),
    ("pragma", Json.ofOption EnumPragma.toJson e.pragma), ("location", e.location.toJson)]

def GeneratedStorage.label : GeneratedStorage → String
  | stored => "Stored"
  | virtual => "Virtual"

def GeneratedColumn.toJson (g : GeneratedColumn) : Json :=
  .object [("expression", g.expression.toJson), ("storage", .string g.storage.label)]

def IdentityKind.label : IdentityKind → String
  | always => "Always"
  | byDefault => "ByDefault"

def Identity.toJson (i : Identity) : Json :=
  .object [("kind", .string i.kind.label), ("options", optionalString i.options)]

def Column.toJson (c : Column) : Json :=
  .object [("name", .string c.name), ("alias", optionalString c.clientName),
    ("data_type", Json.ofOption TypeRef.toJson c.dataType),
    ("enum_type", Json.ofOption QualifiedName.toJson c.enumType), ("nullable", .bool c.nullable),
    ("default", optionalExpression c.default),
    ("generated", Json.ofOption GeneratedColumn.toJson c.generated),
    ("identity", Json.ofOption Identity.toJson c.identity),
    ("collation", optionalString c.collation)]

end DdlCatalog
