import DdlCatalog.Proofs.Build.ForeignKey
import DdlCatalog.Proofs.Build.Table

/-! # What a statement does to a draft
A statement is declared first; the foreign keys of a new table are registered after that. A declaration
that is accepted does one of a dozen things. The log is left open. -/

namespace DdlCatalog

open Text (Location)

def CreateView.view (s : CreateView) (name : QualifiedName) (ddl : String) (l : Location) :
    Relation :=
  { name, ddl
    kind := .view s.materialized s.recursive
    columns := s.columns.map (Column.named · none)
    constraints := []
    indexes := []
    temporary := s.temporary
    unlogged := false
    onCommit := none
    definition := some s.query
    location := l }

def CreateIndex.index (s : CreateIndex) (table : QualifiedName) (name : String) (l : Location) :
    Index :=
  { name, table
    explicitName := s.name.isSome
    unique := s.unique
    using? := s.using?
    elements := s.elements
    included := s.included
    predicate := s.predicate
    nullsNotDistinct := s.nullsNotDistinct
    concurrently := s.concurrently
    location := l }

def CreateFunction.function (s : CreateFunction) (name : QualifiedName) (ddl : String)
    (l : Location) : StoredFunction :=
  ⟨⟨name, s.parameters, s.attributes.language, s.body, s.attributes.securityDefiner, s.orReplace,
    ddl, l⟩, s.returns, s.attributes.volatility, s.attributes.strict, s.attributes.leakproof,
    s.attributes.parallel, s.attributes.cost, s.attributes.rows⟩

def CreateProcedure.procedure (s : CreateProcedure) (name : QualifiedName) (ddl : String)
    (l : Location) : StoredProcedure :=
  ⟨⟨name, s.parameters, s.attributes.language, s.body, s.attributes.securityDefiner, s.orReplace,
    ddl, l⟩⟩

def indexIssues (table : QualifiedName) (target : Relation) (s : CreateIndex) (l : Location) :
    List Error :=
  (DraftM.missingIndexColumns target s).map fun column =>
    .unresolvedReference l (toString table) (some column)

/-- What kind of routine of the catalog has the name and signature of `r`. -/
def Catalog.routineKind? (c : Catalog) (r : Routine) : Option ObjectKind :=
  (c.schema? r.name.schema).bind (·.routineKind? r)

/-- A routine may be stored where none of its signature is, or where it replaces one of its own
kind. -/
def Catalog.Admits (c : Catalog) (r : Routine) (kind : ObjectKind) : Prop :=
  c.routineKind? r = none ∨ c.routineKind? r = some kind ∧ r.orReplace = true

/-- A new table with its constraints, whose keys are still to be registered. -/
abbrev NewTable := Option (QualifiedName × List Constraint)

namespace DraftM

/-- Declares the table of a statement, unless it is skipped. -/
def declareTable (config : Config) (scope : Scope) (s : CreateTable) (ddl : String)
    (l : Location) : DraftM NewTable := do
  let name ← place config scope s.name l
  match (← catalog).relationKind? name with
  | some kind =>
    if s.ifNotExists then
      note (.skippedTable name)
      return none
    else throw (.duplicateDefinition l kind (toString name))
  | none =>
    let table ← buildTable config name s ddl l
    change (·.insertRelation table)
    return some (name, table.constraints)

def registerDeclared : NewTable → DraftM Unit
  | some (owner, ks) => registerForeignKeys owner ks
  | none => return ()

theorem createTable_eq (config : Config) (scope : Scope) (s : CreateTable) (ddl : String)
    (l : Location) :
    createTable config scope s ddl l = declareTable config scope s ddl l >>= registerDeclared := by
  unfold createTable declareTable
  simp only [bind_assoc]
  congr 1
  funext name
  congr 1
  funext c
  cases c.relationKind? name with
  | none => simp [registerDeclared]
  | some kind =>
    cases s.ifNotExists with
    | true => simp [registerDeclared]
    | false => rfl

/-- All that a statement does before foreign keys are registered. -/
def declare (config : Config) (scope : Scope) (p : ParsedStatement) : DraftM (Scope × NewTable) :=
  match p.statement with
  | .createTable s => do
    note (.statement p.statement.kind p.location)
    return (scope, ← declareTable config scope s p.text p.location)
  | _ => return (← accumulate config scope p, none)

/-- A statement is declared, and then the keys of its table are registered. -/
theorem accumulate_eq (config : Config) (scope : Scope) (p : ParsedStatement) :
    accumulate config scope p = do
      let (scope, found) ← declare config scope p
      registerDeclared found
      return scope := by
  unfold declare
  cases h : p.statement with
  | createTable s =>
    unfold accumulate
    simp only [h, createTable_eq, bind_assoc, pure_bind]
  | _ => simp [registerDeclared]

end DraftM

/-- What the declaration of one accepted statement does to a draft. `log` stands for whatever is
logged. -/
inductive Step (config : Config) (p : ParsedStatement) (scope : Scope) (d : Draft) :
    Scope → NewTable → Draft → Prop where
  | schema {s scope' log} (said : p.statement = .createSchema s)
      (declared : scope.declare config s.name p.location = .ok scope') :
      Step config p scope d scope' none { d with catalog := d.catalog.ensureSchema s.name, log }
  | enum {s q log} (said : p.statement = .createEnum s)
      (placed : scope.qualify config s.name p.location = .ok q)
      (free : (d.catalog.ensureSchema q.schema).relationKind? q = none) :
      Step config p scope d scope none
        { d with
          catalog := (d.catalog.ensureSchema q.schema).modifySchema q.schema
            (·.insertEnum ⟨q, s.labels, s.pragma, p.location⟩)
          issues := d.issues ++ (s.pragma.bind (·.dataType)).toList.flatMap
            ((d.catalog.ensureSchema q.schema).typeIssues config q.schema p.location)
          log }
  | tableSkipped {s q log kind} (said : p.statement = .createTable s)
      (placed : scope.qualify config s.name p.location = .ok q)
      (taken : (d.catalog.ensureSchema q.schema).relationKind? q = some kind)
      (optional : s.ifNotExists = true) :
      Step config p scope d scope none { d with catalog := d.catalog.ensureSchema q.schema, log }
  | table {s q t log} (said : p.statement = .createTable s)
      (placed : scope.qualify config s.name p.location = .ok q)
      (free : (d.catalog.ensureSchema q.schema).relationKind? q = none)
      (drawn : Drawn config (d.catalog.ensureSchema q.schema) q s t) :
      Step config p scope d scope (some (q, t.constraints))
        { d with
          catalog := (d.catalog.ensureSchema q.schema).insertRelation t
          issues := d.issues ++ tableIssues config (d.catalog.ensureSchema q.schema) q s
          log }
  | viewSkipped {s q log kind} (said : p.statement = .createView s)
      (placed : scope.qualify config s.name p.location = .ok q)
      (taken : (d.catalog.ensureSchema q.schema).relationKind? q = some kind)
      (optional : s.ifNotExists = true) (kept : ¬(kind = .view ∧ s.orReplace = true)) :
      Step config p scope d scope none { d with catalog := d.catalog.ensureSchema q.schema, log }
  | view {s q log} (said : p.statement = .createView s)
      (placed : scope.qualify config s.name p.location = .ok q)
      (free : (d.catalog.ensureSchema q.schema).relationKind? q = none ∨
        (d.catalog.ensureSchema q.schema).relationKind? q = some .view ∧ s.orReplace = true)
      (distinct : s.columns.Nodup) :
      Step config p scope d scope none
        { d with
          catalog := (d.catalog.ensureSchema q.schema).insertRelation (s.view q p.text p.location)
          log }
  | indexUnplaced {s log} (said : p.statement = .createIndex s)
      (unknown : d.catalog.relation? (s.table.qualify config.defaultSchema) = none) :
      Step config p scope d scope none
        { d with
          issues := d.issues ++
            [.unknownTable p.location (toString (s.table.qualify config.defaultSchema))]
          log }
  | indexSkipped {s log target name} (said : p.statement = .createIndex s)
      (known : d.catalog.relation? (s.table.qualify config.defaultSchema) = some target)
      (named : s.name = some name) (taken : name ∈ DraftM.takenIndexNames target)
      (optional : s.ifNotExists = true) :
      Step config p scope d scope none { d with log }
  | index {s log target name} (said : p.statement = .createIndex s)
      (known : d.catalog.relation? (s.table.qualify config.defaultSchema) = some target)
      (indexable : target.isIndexable = true) (free : name ∉ DraftM.takenIndexNames target)
      (called : ∀ given ∈ s.name, given = name) :
      Step config p scope d scope none
        { d with
          catalog := d.catalog.modifyRelation (s.table.qualify config.defaultSchema) fun r =>
            { r with indexes := r.indexes ++
              [s.index (s.table.qualify config.defaultSchema) name p.location] }
          issues := d.issues ++
            indexIssues (s.table.qualify config.defaultSchema) target s p.location
          log }
  | function {s q log} (said : p.statement = .createFunction s)
      (placed : scope.qualify config s.name p.location = .ok q)
      (admitted : (d.catalog.ensureSchema q.schema).Admits
        (s.function q p.text p.location).routine .function) :
      Step config p scope d scope none
        { d with
          catalog := (d.catalog.ensureSchema q.schema).modifySchema q.schema
            (·.insertFunction (s.function q p.text p.location))
          issues := d.issues ++
            (s.returns.toList.flatMap (·.types) ++ s.parameters.map (·.dataType)).flatMap
              ((d.catalog.ensureSchema q.schema).typeIssues config q.schema p.location)
          log }
  | procedure {s q log} (said : p.statement = .createProcedure s)
      (placed : scope.qualify config s.name p.location = .ok q)
      (admitted : (d.catalog.ensureSchema q.schema).Admits
        (s.procedure q p.text p.location).routine .procedure) :
      Step config p scope d scope none
        { d with
          catalog := (d.catalog.ensureSchema q.schema).modifySchema q.schema
            (·.insertProcedure (s.procedure q p.text p.location))
          issues := d.issues ++ (s.parameters.map (·.dataType)).flatMap
            ((d.catalog.ensureSchema q.schema).typeIssues config q.schema p.location)
          log }
  | prepared {s q log} (said : p.statement = .prepare s)
      (placed : scope.qualify config s.name p.location = .ok q)
      (free : (d.catalog.ensureSchema q.schema).prepared? q = none) :
      Step config p scope d scope none
        { d with
          catalog := (d.catalog.ensureSchema q.schema).modifySchema q.schema
            (·.insertPrepared ⟨q, s.parameterTypes, s.parameters, s.body, p.location⟩)
          issues := d.issues ++ s.parameterTypes.flatMap
            ((d.catalog.ensureSchema q.schema).typeIssues config q.schema p.location)
          log }

/-- A name is placed where its qualification says. -/
theorem Scope.qualify_eq {config : Config} {scope : Scope} {name : ObjectName} {l : Location}
    {q : QualifiedName} (h : scope.qualify config name l = .ok q) :
    q = name.qualify config.defaultSchema := by
  unfold Scope.qualify at h
  dsimp only at h
  split at h
  · split at h
    · cases h
      rfl
    · cases h
  · cases h
  · cases h
    rfl

namespace DraftM

variable {config : Config} {p : ParsedStatement} {scope scope' : Scope} {d d' : Draft}
  {log : List Event} {u : Unit}

@[simp] theorem runs_place {name : ObjectName} {l : Location} {q : QualifiedName} :
    Runs (place config scope name l) d q d' ↔
      scope.qualify config name l = .ok q ∧
        d' = { d with catalog := d.catalog.ensureSchema q.schema } := by
  unfold place
  simp only [runs_bind, runs_lift, runs_change, runs_pure]
  constructor
  · rintro ⟨_, _, ⟨h, rfl⟩, _, _, rfl, rfl, rfl⟩
    exact ⟨h, rfl⟩
  · rintro ⟨h, rfl⟩
    exact ⟨_, _, ⟨h, rfl⟩, (), _, rfl, rfl, rfl⟩

theorem Runs.createSchema_step {s : CreateSchema} (said : p.statement = .createSchema s)
    (h : Runs (createSchema config scope s.name p.location) { d with log } scope' d') :
    Step config p scope d scope' none d' := by
  unfold createSchema at h
  simp only [runs_bind, runs_lift, runs_catalog] at h
  rcases h with ⟨declared, _, ⟨hdeclared, rfl⟩, _, _, ⟨rfl, rfl⟩, h⟩
  split at h
  · simp only [runs_bind, runs_note, runs_change, runs_pure] at h
    rcases h with ⟨_, _, rfl, _, _, rfl, rfl, rfl⟩
    exact .schema said hdeclared
  · simp only [runs_bind, runs_change, runs_pure] at h
    rcases h with ⟨_, _, rfl, rfl, rfl⟩
    exact .schema said hdeclared

theorem Runs.createEnum_step {s : CreateEnum} (said : p.statement = .createEnum s)
    (h : Runs (createEnum config scope s p.location) { d with log } u d') :
    Step config p scope d scope none d' := by
  unfold createEnum at h
  simp only [runs_bind, runs_place, runs_catalog] at h
  rcases h with ⟨q, _, ⟨hplaced, rfl⟩, _, _, ⟨rfl, rfl⟩, h⟩
  split at h
  · exact absurd h runs_throw
  · next hfree =>
    simp only [runs_bind, runs_resolveTypes, runs_change] at h
    rcases h with ⟨_, _, rfl, rfl⟩
    exact .enum said hplaced hfree

theorem runs_declareTable {s : CreateTable} {ddl : String} {l : Location} {found : NewTable} :
    Runs (declareTable config scope s ddl l) d found d' ↔
      ∃ q, scope.qualify config s.name l = .ok q ∧
        ((∃ kind, (d.catalog.ensureSchema q.schema).relationKind? q = some kind ∧
            s.ifNotExists = true ∧ found = none ∧
            d' = { d with
              catalog := d.catalog.ensureSchema q.schema
              log := d.log ++ [.skippedTable q] }) ∨
          (d.catalog.ensureSchema q.schema).relationKind? q = none ∧
            ∃ t mid, Runs (buildTable config q s ddl l)
                { d with catalog := d.catalog.ensureSchema q.schema } t mid ∧
              found = some (q, t.constraints) ∧
              d' = { mid with catalog := mid.catalog.insertRelation t }) := by
  unfold declareTable
  simp only [runs_bind, runs_place]
  constructor
  · rintro ⟨q, _, ⟨hplaced, rfl⟩, _, _, hc, h⟩
    obtain ⟨rfl, rfl⟩ := runs_catalog.1 hc
    refine ⟨q, hplaced, ?_⟩
    split at h
    · next kind htaken =>
      split at h
      · next hoptional =>
        simp only [runs_bind, runs_note, runs_pure] at h
        rcases h with ⟨_, _, rfl, rfl, rfl⟩
        exact .inl ⟨kind, htaken, hoptional, rfl, rfl⟩
      · exact absurd h runs_throw
    · next hfree =>
      simp only [runs_bind, runs_change, runs_pure] at h
      rcases h with ⟨t, mid, htable, _, _, rfl, rfl, rfl⟩
      exact .inr ⟨hfree, t, mid, htable, rfl, rfl⟩
  · rintro ⟨q, hplaced, ⟨kind, htaken, hoptional, rfl, rfl⟩ | ⟨hfree, t, mid, htable, rfl, rfl⟩⟩
    · refine ⟨q, _, ⟨hplaced, rfl⟩, _, _, runs_catalog.2 ⟨rfl, rfl⟩, ?_⟩
      simp [htaken, hoptional]
    · refine ⟨q, _, ⟨hplaced, rfl⟩, _, _, runs_catalog.2 ⟨rfl, rfl⟩, ?_⟩
      simp only [hfree, runs_bind, runs_change, runs_pure]
      exact ⟨t, mid, htable, (), _, rfl, rfl, rfl⟩

theorem Runs.declareTable_step {s : CreateTable} {found : NewTable}
    (said : p.statement = .createTable s)
    (h : Runs (declareTable config scope s p.text p.location) { d with log } found d') :
    Step config p scope d scope found d' := by
  obtain ⟨q, hplaced, hd'⟩ := runs_declareTable.1 h
  rcases hd' with ⟨kind, htaken, hoptional, rfl, rfl⟩ | ⟨hfree, t, mid, htable, rfl, rfl⟩
  · exact .tableSkipped said hplaced htaken hoptional
  · rcases htable.table with ⟨hdrawn, rfl⟩
    exact .table said hplaced hfree hdrawn

theorem firstRepeated?_eq_none {seen names : List String}
    (h : firstRepeated? seen names = none) : names.Nodup ∧ ∀ name ∈ names, name ∉ seen := by
  induction names generalizing seen with
  | nil => simp
  | cons name names ih =>
    unfold firstRepeated? at h
    split at h
    · cases h
    · next hname =>
      obtain ⟨hnodup, hseen⟩ := ih h
      refine ⟨List.nodup_cons.2 ⟨fun hm => hseen name hm (List.mem_cons_self ..), hnodup⟩, ?_⟩
      rintro other (_ | ⟨_, hm⟩)
      · exact hname
      · exact fun hs => hseen other hm (List.mem_cons_of_mem _ hs)

theorem runs_insertView {s : CreateView} {q : QualifiedName} {ddl : String} {l : Location} :
    Runs (insertView q s ddl l) d u d' ↔
      firstRepeated? [] s.columns = none ∧
        d' = { d with catalog := d.catalog.insertRelation (s.view q ddl l) } := by
  unfold insertView
  cases h : firstRepeated? [] s.columns with
  | none => simp [CreateView.view]
  | some column => simp

theorem Runs.createView_step {s : CreateView} (said : p.statement = .createView s)
    (h : Runs (createView config scope s p.text p.location) { d with log } u d') :
    Step config p scope d scope none d' := by
  unfold createView at h
  simp only [runs_bind, runs_place, runs_catalog] at h
  rcases h with ⟨q, _, ⟨hplaced, rfl⟩, _, _, ⟨rfl, rfl⟩, h⟩
  split at h
  · next hfree =>
    obtain ⟨hdistinct, rfl⟩ := runs_insertView.1 h
    exact .view said hplaced (.inl hfree) (firstRepeated?_eq_none hdistinct).1
  · next kind htaken =>
    split at h
    · next hreplace =>
      simp only [runs_bind, runs_note] at h
      rcases h with ⟨_, _, rfl, h⟩
      obtain ⟨hdistinct, rfl⟩ := runs_insertView.1 h
      exact .view said hplaced (.inr ⟨hreplace.1 ▸ htaken, hreplace.2⟩)
        (firstRepeated?_eq_none hdistinct).1
    · next hkept =>
      split at h
      · next hoptional =>
        obtain rfl := runs_note.1 h
        exact .viewSkipped said hplaced htaken hoptional hkept
      · exact absurd h runs_throw

theorem runs_insertIndex {s : CreateIndex} {table : QualifiedName} {target : Relation}
    {name : String} {l : Location} :
    Runs (insertIndex table target s name l) d u d' ↔
      d' = { d with
        catalog := d.catalog.modifyRelation table fun r =>
          { r with indexes := r.indexes ++ [s.index table name l] }
        issues := d.issues ++ indexIssues table target s l } := by
  unfold insertIndex
  simp only [runs_bind, List.forM_eq_forM, runs_forM_report, runs_change]
  constructor
  · rintro ⟨_, _, rfl, rfl⟩
    rfl
  · rintro rfl
    exact ⟨(), _, rfl, rfl⟩

theorem Runs.createIndex_step {s : CreateIndex} (said : p.statement = .createIndex s)
    (h : Runs (createIndex config s p.location) { d with log } u d') :
    Step config p scope d scope none d' := by
  unfold createIndex at h
  simp only [runs_bind, runs_catalog] at h
  rcases h with ⟨_, _, ⟨rfl, rfl⟩, h⟩
  split at h
  · next hunknown =>
    obtain rfl := runs_report.1 h
    exact .indexUnplaced said hunknown
  · next target hknown =>
    split at h
    · exact absurd h runs_throw
    · next hindexable =>
      have hindexable : target.isIndexable = true := by simpa using hindexable
      split at h
      · next name hname =>
        split at h
        · next htaken =>
          split at h
          · next hoptional =>
            obtain rfl := runs_note.1 h
            exact .indexSkipped said hknown hname htaken hoptional
          · exact absurd h runs_throw
        · next hfree =>
          obtain rfl := runs_insertIndex.1 h
          refine .index said hknown hindexable hfree fun given hgiven => ?_
          rw [hname] at hgiven
          exact (Option.some.inj hgiven).symm
      · next hname =>
        obtain rfl := runs_insertIndex.1 h
        refine .index said hknown hindexable (Naming.freshName_notMem _ _) fun given hgiven => ?_
        rw [hname] at hgiven
        cases hgiven

theorem runs_checkClash {r : Routine} {kind : ObjectKind}
    (h : Runs (checkClash r kind) d u d') :
    d.catalog.Admits r kind ∧ ∃ log, d' = { d with log } := by
  unfold checkClash at h
  simp only [runs_bind, runs_catalog] at h
  rcases h with ⟨_, _, ⟨rfl, rfl⟩, h⟩
  split at h
  · next hnone =>
    obtain ⟨-, rfl⟩ := runs_pure.1 h
    exact ⟨.inl hnone, _, rfl⟩
  · next existing hsome =>
    split at h
    · next hreplace =>
      obtain rfl := runs_note.1 h
      exact ⟨.inr ⟨hreplace.1 ▸ hsome, hreplace.2⟩, _, rfl⟩
    · exact absurd h runs_throw

theorem Runs.createFunction_step {s : CreateFunction} (said : p.statement = .createFunction s)
    (h : Runs (createFunction config scope s p.text p.location) { d with log } u d') :
    Step config p scope d scope none d' := by
  unfold createFunction buildRoutine at h
  simp only [runs_bind, runs_place, runs_resolveTypes, runs_change, runs_pure] at h
  rcases h with ⟨q, _, ⟨hplaced, rfl⟩, _, _, rfl, r, _, ⟨_, _, rfl, rfl, rfl⟩, _, _, hclash, rfl⟩
  obtain ⟨hadmitted, _, rfl⟩ := runs_checkClash hclash
  dsimp only
  rw [List.append_assoc, ← List.flatMap_append]
  exact .function said hplaced hadmitted

theorem Runs.createProcedure_step {s : CreateProcedure}
    (said : p.statement = .createProcedure s)
    (h : Runs (createProcedure config scope s p.text p.location) { d with log } u d') :
    Step config p scope d scope none d' := by
  unfold createProcedure buildRoutine at h
  simp only [runs_bind, runs_place, runs_resolveTypes, runs_change, runs_pure] at h
  rcases h with ⟨q, _, ⟨hplaced, rfl⟩, r, _, ⟨_, _, rfl, rfl, rfl⟩, _, _, hclash, rfl⟩
  obtain ⟨hadmitted, _, rfl⟩ := runs_checkClash hclash
  exact .procedure said hplaced hadmitted

theorem Runs.prepare_step {s : Prepare} (said : p.statement = .prepare s)
    (h : Runs (prepare config scope s p.location) { d with log } u d') :
    Step config p scope d scope none d' := by
  unfold prepare at h
  simp only [runs_bind, runs_place, runs_catalog] at h
  rcases h with ⟨q, _, ⟨hplaced, rfl⟩, _, _, ⟨rfl, rfl⟩, h⟩
  split at h
  · exact absurd h runs_throw
  · next hfree =>
    simp only [runs_bind, runs_resolveTypes, runs_change] at h
    rcases h with ⟨_, _, rfl, rfl⟩
    exact .prepared said hplaced (by simpa using hfree)

theorem runs_declare_of_createTable {s : CreateTable} {found : NewTable}
    (said : p.statement = .createTable s) :
    Runs (declare config scope p) d (scope', found) d' ↔
      scope' = scope ∧ Runs (declareTable config scope s p.text p.location)
        { d with log := d.log ++ [.statement p.statement.kind p.location] } found d' := by
  unfold declare
  simp only [said, runs_bind, runs_note, runs_pure, Prod.mk.injEq]
  constructor
  · rintro ⟨_, _, rfl, _, _, h, ⟨rfl, rfl⟩, rfl⟩
    exact ⟨rfl, h⟩
  · rintro ⟨rfl, h⟩
    exact ⟨(), _, rfl, found, d', h, ⟨rfl, rfl⟩, rfl⟩

/-- A statement whose declaration is accepted takes a step. -/
theorem Runs.step {found : NewTable} (h : Runs (declare config scope p) d (scope', found) d') :
    Step config p scope d scope' found d' := by
  cases said : p.statement with
  | createTable s =>
    obtain ⟨rfl, h⟩ := (runs_declare_of_createTable said).1 h
    exact h.declareTable_step said
  | createSchema s =>
    simp only [declare, said, accumulate, runs_bind, runs_note, runs_pure, Prod.mk.injEq] at h
    rcases h with ⟨_, _, ⟨_, _, rfl, h⟩, ⟨rfl, rfl⟩, rfl⟩
    exact h.createSchema_step said
  | createEnum s =>
    simp only [declare, said, accumulate, runs_bind, runs_note, runs_pure, Prod.mk.injEq] at h
    rcases h with ⟨_, _, ⟨_, _, rfl, _, _, h, rfl, rfl⟩, ⟨rfl, rfl⟩, rfl⟩
    exact h.createEnum_step said
  | createView s =>
    simp only [declare, said, accumulate, runs_bind, runs_note, runs_pure, Prod.mk.injEq] at h
    rcases h with ⟨_, _, ⟨_, _, rfl, _, _, h, rfl, rfl⟩, ⟨rfl, rfl⟩, rfl⟩
    exact h.createView_step said
  | createIndex s =>
    simp only [declare, said, accumulate, runs_bind, runs_note, runs_pure, Prod.mk.injEq] at h
    rcases h with ⟨_, _, ⟨_, _, rfl, _, _, h, rfl, rfl⟩, ⟨rfl, rfl⟩, rfl⟩
    exact h.createIndex_step said
  | createFunction s =>
    simp only [declare, said, accumulate, runs_bind, runs_note, runs_pure, Prod.mk.injEq] at h
    rcases h with ⟨_, _, ⟨_, _, rfl, _, _, h, rfl, rfl⟩, ⟨rfl, rfl⟩, rfl⟩
    exact h.createFunction_step said
  | createProcedure s =>
    simp only [declare, said, accumulate, runs_bind, runs_note, runs_pure, Prod.mk.injEq] at h
    rcases h with ⟨_, _, ⟨_, _, rfl, _, _, h, rfl, rfl⟩, ⟨rfl, rfl⟩, rfl⟩
    exact h.createProcedure_step said
  | prepare s =>
    simp only [declare, said, accumulate, runs_bind, runs_note, runs_pure, Prod.mk.injEq] at h
    rcases h with ⟨_, _, ⟨_, _, rfl, _, _, h, rfl, rfl⟩, ⟨rfl, rfl⟩, rfl⟩
    exact h.prepare_step said

end DraftM

end DdlCatalog
