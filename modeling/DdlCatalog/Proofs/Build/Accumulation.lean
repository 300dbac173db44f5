import DdlCatalog.Proofs.Build.WellFormed
import DdlCatalog.Proofs.Catalog.Continues

/-! # Statements only add
All that is registered outlasts every accepted statement, but for the view or routine that it replaces
and the table that it gives an index. Waiting keys and issues come last, and a statement that is skipped
does nothing. -/

namespace DdlCatalog

open Text (Location)

/-- The statement puts its view in the place of a relation. -/
def CreateView.replaces (s : CreateView) (r : Relation) : Bool := s.orReplace && r.isView

/-- The statement is content with an index or constraint of its name. -/
def CreateIndex.skips (s : CreateIndex) (r : Relation) : Bool :=
  s.ifNotExists && s.name.any (· ∈ DraftM.takenIndexNames r)

theorem CreateIndex.skips_eq_false {s : CreateIndex} {r : Relation} {name : String}
    (hfree : name ∉ DraftM.takenIndexNames r) (hcalled : ∀ given ∈ s.name, given = name) :
    s.skips r = false := by
  unfold CreateIndex.skips
  cases hname : s.name with
  | none => simp
  | some given =>
    rw [hcalled given hname]
    simp [hfree]

/-- A relation after one index has been appended, whose name was free and is the one given, if any. -/
def CreateIndex.Appends (s : CreateIndex) (table : QualifiedName) (l : Location) (r r' : Relation) :
    Prop :=
  ∃ name ∉ DraftM.takenIndexNames r, (∀ given ∈ s.name, given = name) ∧
    r' = { r with indexes := r.indexes ++ [s.index table name l] }

def CreateView.change (s : CreateView) (name : QualifiedName) (ddl : String) (l : Location) : Change :=
  .ofRelation fun q r r' => r' = if q = name ∧ s.replaces r then s.view name ddl l else r

def CreateIndex.change (s : CreateIndex) (table : QualifiedName) (l : Location) : Change :=
  .ofRelation fun q r r' => if q = table ∧ !s.skips r then s.Appends table l r r' else r' = r

def CreateFunction.change (s : CreateFunction) (name : QualifiedName) (ddl : String) (l : Location) :
    Change :=
  let new := s.function name ddl l
  .ofFunction fun q f f' =>
    f' = if q = name ∧ s.orReplace ∧ f.routine.sameSignature new.routine then new else f

def CreateProcedure.change (s : CreateProcedure) (name : QualifiedName) (ddl : String)
    (l : Location) : Change :=
  let new := s.procedure name ddl l
  .ofProcedure fun q f f' =>
    f' = if q = name ∧ s.orReplace ∧ f.routine.sameSignature new.routine then new else f

/-- What a statement may change: the view or the routine that it says to replace, and the table of its
index. -/
def ParsedStatement.change (config : Config) (p : ParsedStatement) : Change :=
  match p.statement with
  | .createView s => s.change (s.name.qualify config.defaultSchema) p.text p.location
  | .createIndex s => s.change (s.table.qualify config.defaultSchema) p.location
  | .createFunction s => s.change (s.name.qualify config.defaultSchema) p.text p.location
  | .createProcedure s => s.change (s.name.qualify config.defaultSchema) p.text p.location
  | _ => .none

/-- What the statement declares is there, and it says to be content with that. -/
def ParsedStatement.Skipped (config : Config) (c : Catalog) (p : ParsedStatement) : Prop :=
  match p.statement with
  | .createTable s => s.ifNotExists = true ∧
    ∃ kind, c.relationKind? (s.name.qualify config.defaultSchema) = some kind
  | .createView s => s.ifNotExists = true ∧
    ∃ kind, c.relationKind? (s.name.qualify config.defaultSchema) = some kind ∧
      ¬(kind = .view ∧ s.orReplace = true)
  | .createIndex s =>
    ∃ target, c.relation? (s.table.qualify config.defaultSchema) = some target ∧
      s.skips target = true
  | _ => False

namespace Catalog

variable {c : Catalog} {q : QualifiedName} {ddl : String} {l : Location}

theorem ensureSchema_of_relationKind? {kind : ObjectKind} (h : c.relationKind? q = some kind) :
    c.ensureSchema q.schema = c := by
  unfold relationKind? at h
  obtain ⟨s, hs, -⟩ := Option.bind_eq_some_iff.1 h
  exact ensureSchema_of_schema? hs

theorem relationKind?_ensureSchema (c : Catalog) (q : QualifiedName) :
    (c.ensureSchema q.schema).relationKind? q = c.relationKind? q := by
  unfold relationKind?
  rw [schema?_ensureSchema, if_pos rfl]
  cases c.schema? q.schema <;> rfl

theorem routineKind?_ensureSchema (c : Catalog) (r : Routine) :
    (c.ensureSchema r.name.schema).routineKind? r = c.routineKind? r := by
  rw [← c.routineKind?_schemaOrNew, routineKind?, schema?_ensureSchema, if_pos rfl]
  rfl

theorem prepared?_ensureSchema (c : Catalog) (q : QualifiedName) :
    (c.ensureSchema q.schema).prepared? q = c.prepared? q := by
  unfold prepared?
  rw [schema?_ensureSchema, if_pos rfl]
  cases c.schema? q.schema <;> rfl

theorem WellFormed.relationKind?_of_isView (h : c.WellFormed) {r : Relation}
    (hr : c.relation? q = some r) (hview : r.isView = true) : c.relationKind? q = some .view := by
  have henum := h.enum?_eq_none hr
  rw [relation?_eq_bind] at hr
  obtain ⟨s, hs, hr⟩ := Option.bind_eq_some_iff.1 hr
  rw [enum?_eq_bind, hs, Option.bind_some] at henum
  simp [relationKind?, hs, Schema.relationKind?, OrderedMap.contains, henum, hr, hview]

theorem continues_none (c : Catalog) : c.Continues .none c :=
  .refl (fun _ _ _ => rfl) (fun _ _ => rfl) fun _ _ => rfl

theorem continues_view {s : CreateView}
    (h : c.relationKind? q = none ∨ c.relationKind? q = some .view ∧ s.orReplace = true) :
    c.Continues (s.change q ddl l) (c.insertRelation (s.view q ddl l)) := by
  refine continues_insertRelation (fun old hold => ?_) fun q' hq' old => ?_
  · replace hold : c.relation? q = some old := hold
    rcases h with hfree | ⟨hview, hreplace⟩
    · rw [((relationKind?_eq_none_iff _ _).1 hfree).2] at hold
      cases hold
    · obtain ⟨r, hr, hr'⟩ := relation?_of_relationKind?_view _ hview
      cases hold.symm.trans hr
      exact (if_pos ⟨rfl, by simp [CreateView.replaces, hreplace, hr']⟩).symm
  · exact (if_neg fun hp => hq' hp.1).symm

theorem continues_keptView (h : c.WellFormed) {s : CreateView} {kind : ObjectKind}
    (htaken : c.relationKind? q = some kind) (hkept : ¬(kind = .view ∧ s.orReplace = true)) :
    c.Continues (s.change q ddl l) c := by
  refine .refl (fun q' r hr => (if_neg ?_).symm) (fun _ _ => rfl) fun _ _ => rfl
  rintro ⟨rfl, hreplaces⟩
  rw [CreateView.replaces, Bool.and_eq_true] at hreplaces
  have hview := h.relationKind?_of_isView hr hreplaces.2
  rw [htaken] at hview
  exact hkept ⟨Option.some.inj hview, hreplaces.1⟩

theorem continues_index {s : CreateIndex} {target : Relation} {name : String}
    (hknown : c.relation? q = some target) (hfree : name ∉ DraftM.takenIndexNames target)
    (hcalled : ∀ given ∈ s.name, given = name) :
    c.Continues (s.change q l)
      (c.modifyRelation q fun r => { r with indexes := r.indexes ++ [s.index q name l] }) := by
  refine continues_modifyRelation hknown ?_ fun q' hq' old => ?_
  · have hskips := CreateIndex.skips_eq_false hfree hcalled
    exact (if_pos ⟨rfl, by rw [hskips]; rfl⟩).mpr ⟨name, hfree, hcalled, rfl⟩
  · exact (if_neg fun hp => hq' hp.1).mpr rfl

/-- An index without a target or on a target that has it changes nothing. -/
theorem continues_withoutIndex {s : CreateIndex}
    (h : ∀ target, c.relation? q = some target → s.skips target = true) :
    c.Continues (s.change q l) c := by
  refine .refl (fun q' r hr => ?_) (fun _ _ => rfl) fun _ _ => rfl
  refine (if_neg ?_).mpr rfl
  rintro ⟨rfl, hskips⟩
  rw [h r hr] at hskips
  cases hskips

/-- A function is admitted next to one of its signature only if it replaces it. -/
theorem Admits.orReplace_of_function {r : Routine} {s : Schema} {f : StoredFunction}
    (h : c.Admits r .function) (hs : c.schema? r.name.schema = some s)
    (hf : f ∈ s.functionsNamed r.name.name) (hsame : f.routine.sameSignature r = true) :
    r.orReplace = true := by
  refine h.elim (fun hnone => ?_) And.right
  have hany : ((s.functionsNamed r.name.name).any fun f => f.routine.sameSignature r) = true :=
    List.any_eq_true.2 ⟨f, hf, hsame⟩
  rw [routineKind?, hs, Option.bind_some, Schema.routineKind?, if_pos hany] at hnone
  cases hnone

theorem Admits.orReplace_of_procedure {r : Routine} {s : Schema} {p : StoredProcedure}
    (h : c.Admits r .procedure) (hs : c.schema? r.name.schema = some s)
    (hp : p ∈ s.proceduresNamed r.name.name) (hsame : p.routine.sameSignature r = true) :
    r.orReplace = true := by
  refine h.elim (fun hnone => ?_) And.right
  have hany : ((s.proceduresNamed r.name.name).any fun p => p.routine.sameSignature r) = true :=
    List.any_eq_true.2 ⟨p, hp, hsame⟩
  rw [routineKind?, hs, Option.bind_some, Schema.routineKind?, if_pos hany] at hnone
  split at hnone <;> cases hnone

theorem continues_function (h : c.WellFormed) {s : CreateFunction}
    (hadmitted : c.Admits (s.function q ddl l).routine .function) :
    c.Continues (s.change q ddl l)
      (c.modifySchema q.schema (·.insertFunction (s.function q ddl l))) := by
  refine continues_insertFunction (f := s.function q ddl l) h (fun t ht g hg => ?_) fun q' hq' g => ?_
  · by_cases hsame : g.routine.sameSignature (s.function q ddl l).routine = true
    · have hreplace := hadmitted.orReplace_of_function ht hg hsame
      rw [if_pos hsame]
      exact (if_pos ⟨rfl, hreplace, hsame⟩).symm
    · rw [if_neg hsame]
      exact (if_neg fun hp => hsame hp.2.2).symm
  · exact (if_neg fun hp => hq' hp.1).symm

theorem continues_procedure (h : c.WellFormed) {s : CreateProcedure}
    (hadmitted : c.Admits (s.procedure q ddl l).routine .procedure) :
    c.Continues (s.change q ddl l)
      (c.modifySchema q.schema (·.insertProcedure (s.procedure q ddl l))) := by
  refine continues_insertProcedure (p := s.procedure q ddl l) h (fun t ht g hg => ?_) fun q' hq' g => ?_
  · by_cases hsame : g.routine.sameSignature (s.procedure q ddl l).routine = true
    · have hreplace := hadmitted.orReplace_of_procedure ht hg hsame
      rw [if_pos hsame]
      exact (if_pos ⟨rfl, hreplace, hsame⟩).symm
    · rw [if_neg hsame]
      exact (if_neg fun hp => hsame hp.2.2).symm
  · exact (if_neg fun hp => hq' hp.1).symm

end Catalog

section Steps

variable {config : Config} {p : ParsedStatement} {scope scope' : Scope} {d d' : Draft}
  {found : NewTable}

theorem Step.continues_catalog (h : d.catalog.WellFormed)
    (step : Step config p scope d scope' found d') :
    d.catalog.Continues (p.change config) d'.catalog := by
  cases step with
  | schema said | tableSkipped said =>
    simp only [ParsedStatement.change, said]
    exact d.catalog.continues_none.ensureSchema _
  | @enum s q _ said _ free =>
    simp only [ParsedStatement.change, said, Catalog.modifySchema_ensureSchema]
    rw [Catalog.relationKind?_ensureSchema] at free
    exact Catalog.continues_insertEnum (e := ⟨q, s.labels, s.pragma, p.location⟩)
      ((Catalog.relationKind?_eq_none_iff _ q).1 free).1
  | table said _ free drawn =>
    obtain rfl := drawn.name_eq
    rw [Catalog.relationKind?_ensureSchema] at free
    simp only [ParsedStatement.change, said, Catalog.insertRelation_ensureSchema]
    refine Catalog.continues_insertRelation (R := fun _ r r' => r' = r) (fun old hold => ?_)
      fun _ _ _ => rfl
    rw [((Catalog.relationKind?_eq_none_iff _ _).1 free).2] at hold
    cases hold
  | viewSkipped said placed taken _ kept =>
    obtain rfl := Scope.qualify_eq placed
    rw [Catalog.relationKind?_ensureSchema] at taken
    simp only [ParsedStatement.change, said]
    exact (Catalog.continues_keptView h taken kept).ensureSchema _
  | @view s q _ said placed free =>
    rw [Catalog.relationKind?_ensureSchema] at free
    obtain rfl := Scope.qualify_eq placed
    have hinsert := d.catalog.insertRelation_ensureSchema
      (s.view (s.name.qualify config.defaultSchema) p.text p.location)
    simp only [ParsedStatement.change, said]
    exact hinsert ▸ Catalog.continues_view free
  | indexUnplaced said unknown =>
    simp only [ParsedStatement.change, said]
    exact Catalog.continues_withoutIndex fun target ht => by cases unknown.symm.trans ht
  | indexSkipped said known named taken optional =>
    simp only [ParsedStatement.change, said]
    refine Catalog.continues_withoutIndex fun target ht => ?_
    cases known.symm.trans ht
    simp [CreateIndex.skips, named, taken, optional]
  | index said known _ free called =>
    simp only [ParsedStatement.change, said]
    exact Catalog.continues_index known free called
  | @function s q _ said placed admitted =>
    obtain rfl := Scope.qualify_eq placed
    simp only [ParsedStatement.change, said, Catalog.modifySchema_ensureSchema]
    exact Catalog.continues_function h
      (by rwa [Catalog.Admits, ← Catalog.routineKind?_ensureSchema])
  | @procedure s q _ said placed admitted =>
    obtain rfl := Scope.qualify_eq placed
    simp only [ParsedStatement.change, said, Catalog.modifySchema_ensureSchema]
    exact Catalog.continues_procedure h
      (by rwa [Catalog.Admits, ← Catalog.routineKind?_ensureSchema])
  | @prepared s q _ said _ free =>
    rw [Catalog.prepared?_ensureSchema] at free
    simp only [ParsedStatement.change, said, Catalog.modifySchema_ensureSchema]
    exact Catalog.continues_insertPrepared
      (p := ⟨q, s.parameterTypes, s.parameters, s.body, p.location⟩) free

/-- The relation whose keys are registered is new. -/
theorem Step.relation?_eq_none {owner : QualifiedName} {ks : List Constraint}
    (step : Step config p scope d scope' (some (owner, ks)) d') : d.catalog.relation? owner = none := by
  cases step with
  | table _ _ free =>
    rw [Catalog.relationKind?_ensureSchema] at free
    exact ((Catalog.relationKind?_eq_none_iff _ _).1 free).2

theorem Step.of_skipped (hskipped : p.Skipped config d.catalog)
    (step : Step config p scope d scope' found d') : found = none ∧ d.SameButLog d' := by
  cases step with
  | schema said | enum said | function said | procedure said | prepared said =>
    simp [ParsedStatement.Skipped, said] at hskipped
  | tableSkipped said placed taken =>
    rw [Catalog.relationKind?_ensureSchema] at taken
    exact ⟨rfl, Catalog.ensureSchema_of_relationKind? taken, rfl, rfl⟩
  | table said placed free =>
    obtain rfl := Scope.qualify_eq placed
    rw [Catalog.relationKind?_ensureSchema] at free
    simp [ParsedStatement.Skipped, said, free] at hskipped
  | viewSkipped said placed taken =>
    rw [Catalog.relationKind?_ensureSchema] at taken
    exact ⟨rfl, Catalog.ensureSchema_of_relationKind? taken, rfl, rfl⟩
  | view said placed free =>
    obtain rfl := Scope.qualify_eq placed
    rw [Catalog.relationKind?_ensureSchema] at free
    rcases free with hnone | ⟨hview, hreplace⟩
    · simp [ParsedStatement.Skipped, said, hnone] at hskipped
    · simp [ParsedStatement.Skipped, said, hview, hreplace] at hskipped
  | indexUnplaced said unknown => simp [ParsedStatement.Skipped, said, unknown] at hskipped
  | indexSkipped => exact ⟨rfl, rfl, rfl, rfl⟩
  | index said known _ free called =>
    simp [ParsedStatement.Skipped, said, known, CreateIndex.skips_eq_false free called] at hskipped

end Steps

/-- The catalog goes on from the one before, and waiting keys and issues come last. -/
structure Draft.Continues (change : Change) (d d' : Draft) : Prop where
  catalog : d.catalog.Continues change d'.catalog
  pending : d.pending.Continues (fun _ rs rs' => rs <+: rs') d'.pending
  issues : d.issues <+: d'.issues

namespace Draft

variable {config : Config} {p : ParsedStatement} {scope scope' : Scope} {d d' : Draft}
  {found : NewTable} {change : Change} {owner : QualifiedName}

theorem Continues.register (h : d.Continues change d') (hnew : d.catalog.relation? owner = none)
    (k : Constraint) : d.Continues change (d'.register owner k) where
  catalog := catalog_register (P := fun c => d.catalog.Continues change c)
    (fun _ _ _ hc => hc.modifyRelation hnew _) k h.catalog
  pending := by
    unfold Draft.register
    split
    · split
      · exact h.pending
      · unfold suspend
        dsimp only
        exact h.pending.alter fun _ _ _ hgrown => hgrown.trans (List.prefix_append _ _)
    · exact h.pending
  issues := by
    obtain ⟨added, hadded⟩ := exists_issues_register owner d' k
    rw [hadded]
    exact h.issues.trans (List.prefix_append _ _)

theorem Continues.registerAll (h : d.Continues change d') (hnew : d.catalog.relation? owner = none)
    (ks : List Constraint) : d.Continues change (ks.foldl (Draft.register owner) d') := by
  induction ks generalizing d' with
  | nil => exact h
  | cons k ks ih => exact ih (h.register hnew k)

theorem Continues.registerDeclared (h : d.Continues change d')
    (hnew : ∀ owner ks, found = some (owner, ks) → d.catalog.relation? owner = none) :
    d.Continues change (d'.registerDeclared found) := by
  cases found with
  | none => exact h
  | some table => exact h.registerAll (hnew table.1 table.2 rfl) table.2

end Draft

open DraftM

variable {config : Config} {p : ParsedStatement} {scope scope' : Scope} {d d' : Draft}

theorem Step.pending_eq {found : NewTable} (step : Step config p scope d scope' found d') :
    d'.pending = d.pending := by
  cases step <;> rfl

theorem DraftM.Runs.continues (hd : d.catalog.WellFormed)
    (h : Runs (accumulate config scope p) d scope' d') : d.Continues (p.change config) d' := by
  obtain ⟨found, mid, hdeclared, rfl⟩ := runs_accumulate.1 h
  obtain ⟨own, hown⟩ := hdeclared.step.exists_issues
  have hmid : d.Continues (p.change config) mid := by
    refine ⟨hdeclared.step.continues_catalog hd, ?_, ⟨own, hown.symm⟩⟩
    rw [hdeclared.step.pending_eq]
    exact .refl fun _ _ _ => List.prefix_rfl
  refine hmid.registerDeclared fun owner ks hfound => ?_
  subst hfound
  exact hdeclared.step.relation?_eq_none

theorem DraftM.Runs.of_skipped (hskipped : p.Skipped config d.catalog)
    (h : Runs (accumulate config scope p) d scope' d') : d.SameButLog d' := by
  obtain ⟨found, mid, hdeclared, rfl⟩ := runs_accumulate.1 h
  obtain ⟨rfl, hsame⟩ := hdeclared.step.of_skipped hskipped
  exact hsame

namespace Builder

/-- At every statement of a source that is added to a builder: what is registered stays, but for what the
statement may change, waiting keys and issues are only added, and nothing happens if it is skipped. -/
theorem continues_of_accumulate {b : Builder} (hb : Reachable config b) {ps : List ParsedStatement}
    (hps : ∀ p ∈ ps, Grammar.Parsed p) {log : List Event}
    (hbefore : Runs (ps.foldlM (accumulate config) none) { b.draft with log } scope d)
    (h : Runs (accumulate config scope p) d scope' d') :
    d.Continues (p.change config) d' ∧ (p.Skipped config d.catalog → d.SameButLog d') := by
  obtain ⟨_, ht⟩ := exists_traced hb
  obtain ⟨_, hsteps⟩ := hbefore.exists_steps
  have hd : d.catalog.WellFormed := hsteps.invariant (P := fun d => d.catalog.WellFormed)
    Step.wellFormed (fun found hd => hd.relink (Draft.advances_registerDeclared _ found).toRelinked)
    hps ht.wellFormed
  exact ⟨h.continues hd, h.of_skipped⟩

def viewedBuilder : Builder :=
  ((Builder.ofConfig Config.default).addSource "a.sql"
    "create view v as select 1; create table t (x int)").2

/-- A table is given an index, and a view is replaced. -/
def replacingStatements : List ParsedStatement :=
  match Grammar.parseSource "b.sql" "create index on t (x); create or replace view v as select 2" with
  | .ok ps => ps
  | .error _ => []

theorem parsed_replacingStatements : ∀ p ∈ replacingStatements, Grammar.Parsed p := by
  unfold replacingStatements
  split
  · next h => exact Grammar.parsed_of_parseSource h
  · simp

theorem continues_replacingStatements :
    ∃ first p scope d scope' d', replacingStatements = [first, p] ∧
      Runs ([first].foldlM (accumulate Config.default) none) viewedBuilder.draft scope d ∧
      Runs (accumulate Config.default scope p) d scope' d' ∧
      d'.catalog.relationOrder = [⟨"public", "v"⟩, ⟨"public", "t"⟩] ∧
      d.Continues (p.change Config.default) d' ∧
      (p.Skipped Config.default d.catalog → d.SameButLog d') := by
  have hrun : replacingStatements.length = 2 ∧
      ((replacingStatements.foldlM (accumulate Config.default) none).run.run
        viewedBuilder.draft).1.isOk = true ∧
      ((replacingStatements.foldlM (accumulate Config.default) none).run.run
        viewedBuilder.draft).2.catalog.relationOrder = [⟨"public", "v"⟩, ⟨"public", "t"⟩] := by
    decide +kernel
  obtain ⟨hlength, hok, horder⟩ := hrun
  obtain ⟨last, hruns⟩ := exists_runs hok
  obtain ⟨first, p, hstatements⟩ := List.length_eq_two.1 hlength
  have hparsed := parsed_replacingStatements
  rw [hstatements] at hruns hparsed
  rw [List.forall_mem_cons] at hparsed
  obtain ⟨scope, d, hfirst, hrest⟩ := runs_foldlM_cons.1 hruns
  obtain ⟨scope', d', hp, hnil⟩ := runs_foldlM_cons.1 hrest
  obtain ⟨rfl, hd'⟩ := runs_foldlM_nil.1 hnil
  have hbefore : Runs ([first].foldlM (accumulate Config.default) none)
      { viewedBuilder.draft with log := viewedBuilder.draft.log } scope d :=
    runs_foldlM_cons.2 ⟨scope, d, hfirst, runs_foldlM_nil.2 ⟨rfl, rfl⟩⟩
  rw [hstatements, hd'] at horder
  obtain ⟨hcontinues, hskipped⟩ := continues_of_accumulate (.addSource .start _ _)
    (List.forall_mem_singleton.2 hparsed.1) hbefore hp
  exact ⟨first, p, scope, d, _, d', hstatements, hbefore, hp, horder, hcontinues, hskipped⟩

end Builder

end DdlCatalog
