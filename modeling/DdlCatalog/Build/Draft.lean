import DdlCatalog.Build.Event
import DdlCatalog.Catalog.Basic
import DdlCatalog.Config

/-! # Catalogs under construction
A draft holds the catalog so far, the foreign keys that wait for the table they refer to, and the
issues that do not stop construction but spoil the result. -/

namespace DdlCatalog

open Text (Location)

/-- A foreign key that waits for the table it refers to. -/
structure PendingReference where
  /-- The table that owns the key. -/
  table : QualifiedName
  constraint : String
  location : Location
deriving DecidableEq, Repr

structure Draft where
  catalog : Catalog
  /-- The waiting keys by the table they refer to, in order of declaration. -/
  pending : OrderedMap QualifiedName (List PendingReference)
  issues : List Error
  log : List Event

namespace Draft

def ofConfig (config : Config) : Draft := ⟨Catalog.ofDefaultSchema config.defaultSchema, ∅, [], []⟩

def pendingReferences (d : Draft) : List (QualifiedName × PendingReference) :=
  d.pending.entries.flatMap fun (target, references) => references.map (target, ·)

end Draft

/-- A step of construction. A step that fails also says how far it came. -/
abbrev DraftM := ExceptT Error (StateM Draft)

namespace DraftM

def catalog : DraftM Catalog := do return (← get).catalog

def note (e : Event) : DraftM Unit := modify fun d => { d with log := d.log ++ [e] }

def report (e : Error) : DraftM Unit := modify fun d => { d with issues := d.issues ++ [e] }

def change (f : Catalog → Catalog) : DraftM Unit :=
  modify fun d => { d with catalog := f d.catalog }

/-- Lets a key wait for a table. -/
def park (target : QualifiedName) (r : PendingReference) : DraftM Unit :=
  modify fun d => { d with pending := d.pending.alter target fun rs => rs.getD [] ++ [r] }

end DraftM

end DdlCatalog
