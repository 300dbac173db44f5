import DdlCatalog.Build.Draft

/-! # Resolving foreign keys
A foreign key is checked as soon as the table it refers to is known. Until then it waits, and has to
be added to its table later. -/

namespace DdlCatalog

open Text (Location)

namespace Catalog

/-- The columns of `target` that a key refers to: those written, or its primary key. -/
def referencedColumns (target : Relation) (key : ForeignKey) (columns : List String)
    (l : Location) : Except Error (List String) :=
  if key.referencedColumns.isEmpty then
    let primary := target.primaryKeyColumns
    if primary.isEmpty then
      .error (.parse l s!"{key.referencedTable} has no primary key to reference")
    else if primary.length ≠ columns.length then
      .error (.parse l (s!"foreign key has {columns.length} column(s) but the primary key of " ++
        s!"{key.referencedTable} has {primary.length}"))
    else .ok primary
  else
    .ok key.referencedColumns

/-- The columns that a foreign key on `columns` refers to, or all that is wrong with it. -/
def checkReference (c : Catalog) (key : ForeignKey) (columns : List String) (l : Location) :
    Except (List Error) (List String) :=
  let table := toString key.referencedTable
  match c.relation? key.referencedTable with
  | none => .error [.unresolvedReference l table none]
  | some target =>
    if target.isView then .error [.parse l s!"foreign key references view {table}"]
    else
      match referencedColumns target key columns l with
      | .error e => .error [e]
      | .ok referenced =>
        match referenced.filter (!target.hasColumn ·) with
        | [] => .ok referenced
        | missing => .error (missing.map fun column => .unresolvedReference l table (some column))

def foreignKey? (c : Catalog) (owner : QualifiedName) (constraint : String) :
    Option (Constraint × ForeignKey) := do
  let found ← (← c.relation? owner).constraint? constraint
  return (found, ← found.foreignKey?)

def modifyForeignKey (c : Catalog) (owner : QualifiedName) (constraint : String)
    (f : ForeignKey → ForeignKey) : Catalog :=
  c.modifyRelation owner (·.modifyConstraint constraint (·.modifyForeignKey f))

end Catalog

namespace DraftM

/-- Checks a foreign key and completes it with the columns it refers to. -/
def linkForeignKey (owner : QualifiedName) (constraint : String) : DraftM Unit := do
  match (← catalog).foreignKey? owner constraint with
  | none => return ()
  | some (found, key) =>
    match (← catalog).checkReference key found.columns found.location with
    | .ok referenced =>
      change (·.modifyForeignKey owner constraint fun key =>
        { key with referencedColumns := referenced, resolved := true })
    | .error issues => issues.forM report

/-- Checks a foreign key of a table just registered, or lets it wait. -/
def registerForeignKey (owner : QualifiedName) (c : Constraint) (key : ForeignKey) :
    DraftM Unit := do
  if ((← catalog).relation? key.referencedTable).isSome then
    linkForeignKey owner c.name
  else
    note (.pendingKey owner c.name key.referencedTable)
    change (·.modifyForeignKey owner c.name fun key => { key with useAlter := true })
    park key.referencedTable ⟨owner, c.name, c.location⟩

def registerForeignKeys (owner : QualifiedName) (constraints : List Constraint) : DraftM Unit :=
  constraints.forM fun c =>
    match c.foreignKey? with
    | some key => registerForeignKey owner c key
    | none => return ()

def resolvePending (target : QualifiedName) (r : PendingReference) : DraftM Unit := do
  if ((← catalog).relation? target).isSome then linkForeignKey r.table r.constraint
  else report (.unresolvedReference r.location (toString target) none)

end DraftM

end DdlCatalog
