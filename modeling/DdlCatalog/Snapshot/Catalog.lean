import DdlCatalog.Catalog.Basic
import DdlCatalog.Snapshot.Codec

/-! # Snapshots of catalogs
A catalog is written field by field in the order of its types. -/

namespace DdlCatalog.Snapshot

open Codec
open Text (Location)

def location : Codec Location :=
  (string.pair <| natural.pair <| natural.pair natural).iso
    (fun (source, offset, line, column) => ⟨source, offset, line, column⟩)
    (fun l => (l.source, l.offset, l.line, l.column))

def qualifiedName : Codec QualifiedName :=
  (string.pair string).iso (fun (schema, name) => ⟨schema, name⟩) (fun n => (n.schema, n.name))

def typeRef : Codec TypeRef :=
  (string.option.pair <| string.pair <| word32.option.pair <| word32.option.pair
      word32.option.list).iso
    (fun (schema, name, precision, scale, dims) => ⟨schema, name, precision, scale, dims⟩)
    (fun t => (t.schema, t.name, t.precision, t.scale, t.arrayDims))

def sentinel : Codec Sentinel :=
  enumeration [.currentTimestamp, .currentDate, .currentTime, .localTimestamp, .localTime,
    .currentUser, .sessionUser, .randomUuid]

def literal : Codec Literal :=
  variants
    [.of integer .integer fun | .integer n => some n | _ => none,
     .of binary64 .float fun | .float x => some x | _ => none,
     .of string .string fun | .string s => some s | _ => none,
     .of bool .boolean fun | .boolean b => some b | _ => none,
     .constant .null,
     .of sentinel .sentinel fun | .sentinel s => some s | _ => none]

def expression : Codec Expression :=
  (string.pair <| literal.option.pair string.list).iso
    (fun (text, literal, references) => ⟨text, literal, references⟩)
    (fun e => (e.text, e.literal, e.references))

def enumPragma : Codec EnumPragma :=
  (string.option.pair <| typeRef.option.pair string.option).iso
    (fun (className, dataType, attr) => ⟨className, dataType, attr⟩)
    (fun p => (p.className, p.dataType, p.classAttribute))

def enumType : Codec EnumType :=
  (qualifiedName.pair <| string.list.pair <| enumPragma.option.pair location).iso
    (fun (name, labels, pragma, l) => ⟨name, labels, pragma, l⟩)
    (fun e => (e.name, e.labels, e.pragma, e.location))

def generatedColumn : Codec GeneratedColumn :=
  (expression.pair (enumeration [.stored, .virtual])).iso
    (fun (e, storage) => ⟨e, storage⟩) (fun g => (g.expression, g.storage))

def identity : Codec Identity :=
  ((enumeration [.always, .byDefault]).pair string.option).iso
    (fun (kind, options) => ⟨kind, options⟩) (fun i => (i.kind, i.options))

def column : Codec Column :=
  (string.pair <| string.option.pair <| typeRef.option.pair <| qualifiedName.option.pair <|
      bool.pair <| expression.option.pair <| generatedColumn.option.pair <|
      identity.option.pair string.option).iso
    (fun (name, client, dataType, enumType, nullable, default, generated, identity, collation) =>
      ⟨name, client, dataType, enumType, nullable, default, generated, identity, collation⟩)
    (fun c => (c.name, c.clientName, c.dataType, c.enumType, c.nullable, c.default, c.generated,
      c.identity, c.collation))

def referentialAction : Codec ReferentialAction :=
  enumeration [.noAction, .restrict, .cascade, .setNull, .setDefault]

def matchType : Codec MatchType := enumeration [.simple, .full, .partly]

def foreignKey : Codec ForeignKey :=
  (qualifiedName.pair <| string.list.pair <| referentialAction.option.pair <|
      referentialAction.option.pair <| matchType.option.pair <| bool.pair <| bool.pair <|
      bool.pair bool).iso
    (fun (table, columns, onUpdate, onDelete, matchType, deferrable, deferred, alter, resolved) =>
      ⟨table, columns, onUpdate, onDelete, matchType, deferrable, deferred, alter, resolved⟩)
    (fun k => (k.referencedTable, k.referencedColumns, k.onUpdate, k.onDelete, k.matchType,
      k.deferrable, k.initiallyDeferred, k.useAlter, k.resolved))

def exclusionElement : Codec ExclusionElement :=
  (expression.pair <| string.option.pair string).iso
    (fun (e, column, op) => ⟨e, column, op⟩) (fun e => (e.expression, e.column, e.operator))

def exclusion : Codec Exclusion :=
  (string.option.pair <| exclusionElement.list.pair expression.option).iso
    (fun (method, elements, predicate) => ⟨method, elements, predicate⟩)
    (fun e => (e.using?, e.elements, e.predicate))

def constraintKind : Codec ConstraintKind :=
  variants
    [.constant .primaryKey,
     .of bool .unique fun | .unique nulls => some nulls | _ => none,
     .of expression .check fun | .check e => some e | _ => none,
     .of foreignKey .foreignKey fun | .foreignKey k => some k | _ => none,
     .of exclusion .exclusion fun | .exclusion e => some e | _ => none]

def constraint : Codec Constraint :=
  (string.pair <| bool.pair <| string.list.pair <| constraintKind.pair location).iso
    (fun (name, explicitName, columns, kind, l) => ⟨name, explicitName, columns, kind, l⟩)
    (fun c => (c.name, c.explicitName, c.columns, c.kind, c.location))

def indexElement : Codec IndexElement :=
  (expression.pair <| string.option.pair <| string.option.pair <| string.option.pair <|
      (enumeration [.asc, .desc]).option.pair (enumeration [.first, .last]).option).iso
    (fun (e, column, collation, opclass, order, nulls) =>
      ⟨e, column, collation, opclass, order, nulls⟩)
    (fun e => (e.expression, e.column, e.collation, e.opclass, e.order, e.nulls))

def index : Codec Index :=
  (string.pair <| bool.pair <| qualifiedName.pair <| bool.pair <| string.option.pair <|
      indexElement.list.pair <| string.list.pair <| expression.option.pair <| bool.pair <|
      bool.pair location).iso
    (fun (name, explicitName, table, unique, method, elements, included, predicate, nulls,
        concurrently, l) =>
      ⟨name, explicitName, table, unique, method, elements, included, predicate, nulls,
        concurrently, l⟩)
    (fun i => (i.name, i.explicitName, i.table, i.unique, i.using?, i.elements, i.included,
      i.predicate, i.nullsNotDistinct, i.concurrently, i.location))

def relationKind : Codec RelationKind :=
  variants
    [.constant .table,
     .of (bool.pair bool) (fun (materialized, recursive) => .view materialized recursive)
       fun | .view materialized recursive => some (materialized, recursive) | _ => none]

def onCommit : Codec OnCommit := enumeration [.preserveRows, .deleteRows, .drop]

def relation : Codec Relation :=
  (qualifiedName.pair <| relationKind.pair <| column.list.pair <| constraint.list.pair <|
      index.list.pair <| bool.pair <| bool.pair <| onCommit.option.pair <| string.option.pair <|
      string.pair location).iso
    (fun (name, kind, columns, constraints, indexes, temporary, unlogged, onCommit, definition,
        ddl, l) =>
      ⟨name, kind, columns, constraints, indexes, temporary, unlogged, onCommit, definition, ddl,
        l⟩)
    (fun r => (r.name, r.kind, r.columns, r.constraints, r.indexes, r.temporary, r.unlogged,
      r.onCommit, r.definition, r.ddl, r.location))

def parameterMode : Codec ParameterMode := enumeration [.input, .output, .both, .variadic]

def parameter : Codec Parameter :=
  (parameterMode.pair <| string.option.pair <| typeRef.pair expression.option).iso
    (fun (mode, name, dataType, default) => ⟨mode, name, dataType, default⟩)
    (fun p => (p.mode, p.name, p.dataType, p.default))

def returns : Codec Returns :=
  variants
    [.of typeRef .scalar fun | .scalar t => some t | _ => none,
     .of typeRef .setOf fun | .setOf t => some t | _ => none,
     .of (string.pair typeRef).list .table fun | .table columns => some columns | _ => none]

def volatility : Codec Volatility := enumeration [.immutable, .stable, .volatile]

def bodyKind : Codec BodyKind :=
  variants
    [.of string .dollarQuoted fun | .dollarQuoted tag => some tag | _ => none,
     .constant .stringLiteral,
     .constant .sqlStandard]

def routineBody : Codec RoutineBody :=
  (bodyKind.pair <| string.pair string).iso
    (fun (kind, text, source) => ⟨kind, text, source⟩) (fun b => (b.kind, b.text, b.source))

def routine : Codec Routine :=
  (qualifiedName.pair <| parameter.list.pair <| string.option.pair <| routineBody.pair <|
      bool.pair <| bool.pair <| string.pair location).iso
    (fun (name, parameters, language, body, definer, orReplace, ddl, l) =>
      ⟨name, parameters, language, body, definer, orReplace, ddl, l⟩)
    (fun r => (r.name, r.parameters, r.language, r.body, r.securityDefiner, r.orReplace, r.ddl,
      r.location))

def storedFunction : Codec StoredFunction :=
  (routine.pair <| returns.option.pair <| volatility.option.pair <| bool.pair <| bool.pair <|
      string.option.pair <| string.option.pair string.option).iso
    (fun (routine, returns, volatility, strict, leakproof, parallel, cost, rows) =>
      ⟨routine, returns, volatility, strict, leakproof, parallel, cost, rows⟩)
    (fun f => (f.routine, f.returns, f.volatility, f.strict, f.leakproof, f.parallel, f.cost,
      f.rows))

def storedProcedure : Codec StoredProcedure := routine.iso StoredProcedure.mk (·.routine)

def preparedParameters : Codec PreparedParameters :=
  variants
    [.constant .none,
     .of string.list .named fun | .named names => some names | _ => none,
     .of word32.list .positional fun | .positional numbers => some numbers | _ => none]

def preparedStatement : Codec PreparedStatement :=
  (qualifiedName.pair <| typeRef.list.pair <| preparedParameters.pair <| string.pair
      location).iso
    (fun (name, types, parameters, body, l) => ⟨name, types, parameters, body, l⟩)
    (fun p => (p.name, p.parameterTypes, p.parameters, p.body, p.location))

def schema : Codec Schema :=
  (string.pair <| enumType.map.pair <| relation.map.pair <| storedFunction.list.map.pair <|
      storedProcedure.list.map.pair preparedStatement.map).iso
    (fun (name, enums, relations, functions, procedures, prepared) =>
      ⟨name, enums, relations, functions, procedures, prepared⟩)
    (fun s => (s.name, s.enums, s.relations, s.functions, s.procedures, s.prepared))

def catalog : Codec Catalog :=
  (string.pair <| schema.map.pair qualifiedName.list).iso
    (fun (defaultSchema, schemas, order) => ⟨defaultSchema, schemas, order⟩)
    (fun c => (c.defaultSchema, c.schemas, c.relationOrder))

end DdlCatalog.Snapshot

namespace DdlCatalog

namespace Catalog

def toBytes (c : Catalog) : List UInt8 := Snapshot.catalog.write c

def ofBytes (bytes : List UInt8) : Except Error Catalog :=
  match Snapshot.catalog.read bytes with
  | .ok (c, _) => .ok c
  | .error fault => .error (.snapshot fault.message)

end Catalog

end DdlCatalog
