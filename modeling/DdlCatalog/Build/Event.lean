import DdlCatalog.Catalog.Name
import DdlCatalog.Error
import DdlCatalog.Json.Basic

/-! # Events
What is worth telling while a catalog is built. -/

namespace DdlCatalog

open Text (Location)

inductive Level where
  | trace
  | debug
  | warn
  | error
deriving DecidableEq, Repr

namespace Level

def display : Level → String
  | trace => "TRACE"
  | debug => "DEBUG"
  | warn => "WARN"
  | error => "ERROR"

end Level

inductive Event where
  /-- The statements of a source are going to be registered. -/
  | accumulate (source : String) (statements : Nat)
  | statement (kind : String) (location : Location)
  /-- A source is given up and leaves no trace. -/
  | rollback (error : Error)
  | knownSchema (schema : String)
  | skippedTable (table : QualifiedName)
  | pendingKey (table : QualifiedName) (constraint : String) (references : QualifiedName)
  | replacedView (view : QualifiedName)
  | skippedView (view : QualifiedName)
  | skippedIndex (index : String) (table : QualifiedName)
  | replacedRoutine (routine : QualifiedName) (kind : ObjectKind)
  /-- Pending references are going to be resolved. -/
  | finalize (pending : Nat)
  | issue (error : Error)

namespace Event

/-- The name of the activity that an event opens. -/
def span? : Event → Option String
  | accumulate _ _ => some "accumulate"
  | finalize _ => some "finalize"
  | _ => none

def level : Event → Level
  | statement _ _ => .trace
  | skippedTable _ => .warn
  | skippedView _ => .warn
  | skippedIndex _ _ => .warn
  | issue _ => .error
  | _ => .debug

def text (s : String) : Json := .string s

/-- The data of an event by name; the wording of an event that opens no activity is its message. -/
def fields : Event → List (String × Json)
  | accumulate source statements => [("source", text source), ("statements", .ofNat statements)]
  | statement kind l =>
    [("message", text "statement"), ("kind", text kind), ("location", text (toString l))]
  | rollback e => [("message", text "rolling back source"), ("error", text e.message)]
  | knownSchema schema => [("message", text "re-entering schema"), ("schema", text schema)]
  | skippedTable table =>
    [("message", text "table already exists, skipping (IF NOT EXISTS)"),
     ("table", text (toString table))]
  | pendingKey table constraint references =>
    [("message", text "foreign key pending"), ("table", text (toString table)),
     ("constraint", text constraint), ("references", text (toString references))]
  | replacedView view => [("message", text "replacing view"), ("view", text (toString view))]
  | skippedView view =>
    [("message", text "view already exists, skipping (IF NOT EXISTS)"),
     ("view", text (toString view))]
  | skippedIndex index table =>
    [("message", text "index already exists, skipping (IF NOT EXISTS)"), ("index", text index),
     ("table", text (toString table))]
  | replacedRoutine routine kind =>
    [("message", text s!"replacing {kind}"), ("routine", text (toString routine))]
  | finalize pending => [("pending", .ofNat pending)]
  | issue e => [("message", text "catalog issue"), ("issue", text e.message)]

end Event

end DdlCatalog
