/-! # Type references
A type is referred to by name, with optional modifiers and array dimensions. -/

namespace DdlCatalog

/-- Base types that need no declaration. Names of several words have single blanks. -/
def builtinTypes : List String :=
  ["smallint", "int2", "integer", "int", "int4", "bigint", "int8", "serial", "serial4",
   "smallserial", "serial2", "bigserial", "serial8", "real", "float4", "double precision",
   "float8", "float", "numeric", "decimal", "money", "text", "citext", "varchar",
   "character varying", "char", "character", "bpchar", "name", "boolean", "bool", "bytea", "bit",
   "bit varying", "varbit", "date", "time", "time without time zone", "time with time zone",
   "timetz", "timestamp", "timestamp without time zone", "timestamp with time zone",
   "timestamptz", "interval", "int4range", "int8range", "numrange", "tsrange", "tstzrange",
   "daterange", "int4multirange", "int8multirange", "nummultirange", "tsmultirange",
   "tstzmultirange", "datemultirange", "inet", "cidr", "macaddr", "macaddr8", "uuid", "xml",
   "json", "jsonb", "jsonpath", "tsvector", "tsquery", "oid", "regclass", "regtype", "pg_lsn",
   "point", "line", "lseg", "box", "path", "polygon", "circle", "void", "trigger",
   "event_trigger", "record", "anyelement", "anyarray", "anynonarray", "anyenum", "anyrange",
   "anymultirange", "internal", "cstring"]

def isBuiltinType (name : String) : Bool := builtinTypes.contains name

/-- A reference to a type. Array dimensions are flat: each has a declared size or none. -/
structure TypeRef where
  /-- The schema, if one is written. -/
  schema : Option String
  name : String
  precision : Option UInt32
  scale : Option UInt32
  arrayDims : List (Option UInt32)
deriving DecidableEq, Repr, Inhabited

namespace TypeRef

def ofName (name : String) : TypeRef := ⟨none, name, none, none, []⟩

def dimensions (t : TypeRef) : Nat := t.arrayDims.length

def isArray (t : TypeRef) : Bool := !t.arrayDims.isEmpty

/-- The same type without array dimensions. -/
def element (t : TypeRef) : TypeRef := { t with arrayDims := [] }

def isBuiltin (t : TypeRef) : Bool := t.schema.isNone && isBuiltinType t.name

/-- The name as written, with its schema if it has one. -/
def written (t : TypeRef) : String :=
  match t.schema with
  | some schema => schema ++ "." ++ t.name
  | none => t.name

def showModifiers (precision scale : Option UInt32) : String :=
  match precision, scale with
  | some p, some s => "(" ++ toString p.toNat ++ "," ++ toString s.toNat ++ ")"
  | some p, none => "(" ++ toString p.toNat ++ ")"
  | none, _ => ""

/-- Modifiers follow the name, except that those of a time with a zone clause stand before the
clause. -/
def showName (name modifiers : String) : String :=
  let cs := name.toList
  let head := String.ofList (cs.takeWhile (· ≠ ' '))
  match cs.dropWhile (· ≠ ' ') with
  | [] => name ++ modifiers
  | _ :: tail =>
    if head = "time" ∨ head = "timestamp" then head ++ modifiers ++ " " ++ String.ofList tail
    else name ++ modifiers

def showDimension : Option UInt32 → String
  | some size => "[" ++ toString size.toNat ++ "]"
  | none => "[]"

instance : ToString TypeRef where
  toString t :=
    let schema :=
      match t.schema with
      | some schema => schema ++ "."
      | none => ""
    schema ++ showName t.name (showModifiers t.precision t.scale) ++
      String.join (t.arrayDims.map showDimension)

end TypeRef

end DdlCatalog
