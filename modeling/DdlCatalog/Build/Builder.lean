import DdlCatalog.Build.Relation
import DdlCatalog.Build.Routine
import DdlCatalog.Grammar.Statement

/-! # Building catalogs from sources
Sources are added one after another. A source is registered as a whole or leaves no trace; waiting
keys and issues are settled at the end. -/

namespace DdlCatalog

open Text (SourceMap)

namespace DraftM

/-- Registers one statement and gives the scope for the next one. -/
def accumulate (config : Config) (scope : Scope) (p : ParsedStatement) : DraftM Scope := do
  note (.statement p.statement.kind p.location)
  match p.statement with
  | .createSchema s => createSchema config scope s.name p.location
  | .createEnum s => createEnum config scope s p.location; return scope
  | .createTable s => createTable config scope s p.text p.location; return scope
  | .createView s => createView config scope s p.text p.location; return scope
  | .createIndex s => createIndex config s p.location; return scope
  | .createFunction s => createFunction config scope s p.text p.location; return scope
  | .createProcedure s => createProcedure config scope s p.text p.location; return scope
  | .prepare s => prepare config scope s p.location; return scope

def accumulateAll (config : Config) (statements : List ParsedStatement) : DraftM Unit :=
  discard (statements.foldlM (accumulate config) none)

end DraftM

/-- What a draft goes back to when a source fails. -/
structure Checkpoint where
  catalog : Catalog
  pending : OrderedMap QualifiedName (List PendingReference)
  /-- The number of issues. -/
  issues : Nat

namespace Draft

def checkpoint (d : Draft) : Checkpoint := ⟨d.catalog, d.pending, d.issues.length⟩

/-- Goes back to a checkpoint, from which on issues are dropped. -/
def restore (d : Draft) (c : Checkpoint) : Draft :=
  { d with catalog := c.catalog, pending := c.pending, issues := d.issues.take c.issues }

/-- Adds the statements of a source and goes back to the start of it after an error. -/
def addStatements (d : Draft) (config : Config) (source : String)
    (statements : List ParsedStatement) : Except Error Unit × Draft :=
  let opened := { d with log := d.log ++ [.accumulate source statements.length] }
  match (DraftM.accumulateAll config statements).run.run opened with
  | (.ok _, added) => (.ok (), added)
  | (.error e, failed) =>
    (.error e, { failed.restore d.checkpoint with log := failed.log ++ [.rollback e] })

def settle (d : Draft) : Draft :=
  let waiting := d.pendingReferences
  let opened := { d with pending := ∅, log := d.log ++ [.finalize waiting.length] }
  ((waiting.forM fun (target, r) => DraftM.resolvePending target r).run.run opened).2

/-- The finished catalog, or all issues together. -/
def finish (d : Draft) : Except Error Catalog × List Event :=
  let settled := d.settle
  match settled.issues with
  | [] => (.ok settled.catalog, settled.log)
  | issues => (.error (.finalize issues), settled.log ++ issues.map .issue)

end Draft

/-- A draft with its configuration and the texts of its sources. -/
structure Builder where
  config : Config
  draft : Draft
  sources : SourceMap

namespace Builder

def ofConfig (config : Config) : Builder := ⟨config, Draft.ofConfig config, SourceMap.empty⟩

def addParsed (b : Builder) (name text : String) (statements : List ParsedStatement) :
    Except Error Unit × Builder :=
  let (result, draft) := b.draft.addStatements b.config name statements
  (result, { b with draft, sources := b.sources.remember name text })

def addSource (b : Builder) (name text : String) : Except Error Unit × Builder :=
  let b := { b with sources := b.sources.remember name text }
  match Grammar.parseSource name text with
  | .ok statements => b.addParsed name text statements
  | .error e => (.error e, b)

def finish (b : Builder) : Except Error Catalog := b.draft.finish.1

/-- Adds parsed sources in order up to the first one that fails. -/
def addAll (b : Builder) : List (String × String × Except Error (List ParsedStatement)) →
    Except Error Builder
  | [] => .ok b
  | (name, text, parsed) :: rest => do
    let statements ← parsed
    match b.addParsed name text statements with
    | (.ok _, b) => b.addAll rest
    | (.error e, _) => .error e

end Builder

namespace Catalog

def ofText (text : String) : Except Error Catalog :=
  match (Builder.ofConfig Config.default).addSource Grammar.anonymousSource text with
  | (.ok _, b) => b.finish
  | (.error e, _) => .error e

/-- The catalog of several named texts, all of which are parsed before any is added. -/
def ofSources (config : Config) (sources : List (String × String)) : Except Error Catalog := do
  let parsed := sources.map fun (name, text) => (name, text, Grammar.parseSource name text)
  (← (Builder.ofConfig config).addAll parsed).finish

end Catalog

end DdlCatalog
