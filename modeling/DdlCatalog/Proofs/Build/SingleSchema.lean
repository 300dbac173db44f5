import DdlCatalog.Proofs.Build.Reachable

/-! # One schema for each source
A source that is bound to one schema declares no other one and leaves the objects of all others alone,
but it may give their tables an index: a statement for an index does not look at the schema that the
source has declared. -/

namespace DdlCatalog

open Text (Location)

def ParsedStatement.declared? (p : ParsedStatement) : Option String :=
  match p.statement with
  | .createSchema s => some s.name
  | _ => none

def declaredSchema? (ps : List ParsedStatement) : Option String :=
  ps.findSome? ParsedStatement.declared?

def ParsedStatement.Indexes (config : Config) (p : ParsedStatement) (schema : String) (i : Index) :
    Prop :=
  ∃ s, p.statement = .createIndex s ∧ i.table = s.table.qualify config.defaultSchema ∧
    i.table.schema = schema ∧ i = s.index i.table i.name p.location

/-- The schema with indexes appended to those of its tables. -/
def Schema.withIndexes (s : Schema) (added : List Index) : Schema :=
  added.foldl (fun s i =>
    s.modifyRelation i.table.name fun r => { r with indexes := r.indexes ++ [i] }) s

section Scope

variable {config : Config} {scope scope' : Scope} {l : Location}

theorem Scope.declare_eq {name : String} (hsingle : config.singleSchemaPerSource = true)
    (h : scope.declare config name l = .ok scope') :
    scope' = some name ∧ (scope = none ∨ scope = some name) := by
  unfold Scope.declare at h
  rw [if_pos hsingle] at h
  split at h
  · next declared =>
    split at h
    · cases h
    · next hsame =>
      cases h
      exact ⟨rfl, .inr (congrArg some (not_not.1 hsame))⟩
  · cases h
    exact ⟨rfl, .inl rfl⟩

/-- A name is placed in the default schema or in the one that has been declared. -/
theorem Scope.qualify_schema {name : ObjectName} {q : QualifiedName}
    (hsingle : config.singleSchemaPerSource = true) (h : scope.qualify config name l = .ok q) :
    q.schema = config.defaultSchema ∨ scope = some q.schema := by
  have hq := Scope.qualify_eq h
  cases hschema : name.schema with
  | none => exact .inl (by rw [hq, ObjectName.qualify, hschema, Option.getD_none])
  | some schema =>
    have hplaced : q.schema = schema := by rw [hq, ObjectName.qualify, hschema, Option.getD_some]
    unfold Scope.qualify at h
    simp only [hsingle, hschema] at h
    cases scope with
    | none => cases h
    | some declared =>
      dsimp only at h
      split at h
      · next hsame => exact .inr (congrArg some (hsame.trans hplaced.symm))
      · cases h

end Scope

section Steps

variable {config : Config} {p : ParsedStatement} {ps : List ParsedStatement} {scope scope' : Scope}
  {d d' : Draft} {found : NewTable} {n : String} {trace : Trace}

/-- The scope behind a statement holds the schema that it declares. -/
theorem Step.scope_eq (hsingle : config.singleSchemaPerSource = true)
    (step : Step config p scope d scope' found d') :
    scope' = scope.or p.declared? ∧ ∀ name, p.declared? = some name → scope' = some name := by
  cases step with
  | @schema s _ _ said declared =>
    have hdeclared : p.declared? = some s.name := by rw [ParsedStatement.declared?, said]
    obtain ⟨rfl, hbefore⟩ := Scope.declare_eq hsingle declared
    rw [hdeclared]
    refine ⟨?_, fun name hname => hname⟩
    rcases hbefore with rfl | rfl <;> rfl
  | enum said | tableSkipped said | table said | viewSkipped said | view said | indexUnplaced said
  | indexSkipped said | index said | function said | procedure said | prepared said =>
    have hdeclared : p.declared? = none := by rw [ParsedStatement.declared?, said]
    rw [hdeclared]
    exact ⟨(Option.or_none).symm, fun _ hname => by cases hname⟩

/-- Another schema is left alone, but for the index that a statement puts on a table of it. -/
theorem Step.schema?_eq (hsingle : config.singleSchemaPerSource = true)
    (hdefault : n ≠ config.defaultSchema) (step : Step config p scope d scope' found d')
    (hscope : scope' ≠ some n) :
    ∃ added, (∀ i ∈ added, p.Indexes config n i) ∧
      d'.catalog.schema? n = (d.catalog.schema? n).map (·.withIndexes added) := by
  have same (h : d'.catalog.schema? n = d.catalog.schema? n) : ∃ added,
      (∀ i ∈ added, p.Indexes config n i) ∧
        d'.catalog.schema? n = (d.catalog.schema? n).map (·.withIndexes added) :=
    ⟨[], fun _ hi => absurd hi List.not_mem_nil, h.trans Option.map_id'.symm⟩
  have elsewhere {q : QualifiedName} {name : ObjectName}
      (placed : scope.qualify config name p.location = .ok q) (hkept : scope' = scope) :
      q.schema ≠ n := by
    rintro rfl
    rcases Scope.qualify_schema hsingle placed with hq | hq
    · exact hdefault hq
    · exact hscope (hkept.trans hq)
  cases step with
  | schema said declared =>
    obtain ⟨rfl, -⟩ := Scope.declare_eq hsingle declared
    have hne : _ ≠ n := fun he => hscope (congrArg some he)
    exact same (by rw [Catalog.schema?_ensureSchema, if_neg hne])
  | enum said placed | function said placed | procedure said placed | prepared said placed =>
    have hne := elsewhere placed rfl
    refine same ?_
    rw [Catalog.schema?_modifySchema, if_neg hne, Catalog.schema?_ensureSchema, if_neg hne]
  | tableSkipped said placed | viewSkipped said placed =>
    exact same (by rw [Catalog.schema?_ensureSchema, if_neg (elsewhere placed rfl)])
  | table said placed _ drawn =>
    have hne := elsewhere placed rfl
    refine same ?_
    rw [Catalog.schema?_insertRelation, drawn.name_eq, if_neg hne, Catalog.schema?_ensureSchema,
      if_neg hne]
  | view said placed =>
    have hne := elsewhere placed rfl
    refine same ?_
    rw [Catalog.schema?_insertRelation]
    exact (if_neg hne).trans (by rw [Catalog.schema?_ensureSchema, if_neg hne])
  | indexUnplaced | indexSkipped => exact same rfl
  | @index s _ target name said =>
    by_cases hn : (s.table.qualify config.defaultSchema).schema = n
    · refine ⟨[s.index (s.table.qualify config.defaultSchema) name p.location], ?_, ?_⟩
      · rw [List.forall_mem_singleton]
        exact ⟨s, said, rfl, hn, rfl⟩
      · rw [Catalog.schema?_modifyRelation, if_pos hn]
        rfl
    · exact same (by rw [Catalog.schema?_modifyRelation, if_neg hn])

theorem Step.schema_ne (hsingle : config.singleSchemaPerSource = true)
    (hdefault : n ≠ config.defaultSchema) {owner : QualifiedName} {ks : List Constraint}
    (step : Step config p scope d scope' (some (owner, ks)) d') (hscope : scope' ≠ some n) :
    owner.schema ≠ n := by
  cases step with
  | table said placed =>
    rintro rfl
    exact (Scope.qualify_schema hsingle placed).elim hdefault hscope

theorem Draft.schema?_registerDeclared (h : ∀ owner ks, found = some (owner, ks) → owner.schema ≠ n)
    (d : Draft) : (d.registerDeclared found).catalog.schema? n = d.catalog.schema? n := by
  cases found with
  | none => rfl
  | some table =>
    have hne := h table.1 table.2 rfl
    refine Draft.catalog_registerAll (P := fun c => c.schema? n = d.catalog.schema? n)
      (fun c name f hc => ?_) table.2 rfl
    exact (c.schema?_modifyRelation table.1 _ n).trans (by rw [if_neg hne, hc])

theorem declaredSchema?_cons (p : ParsedStatement) (ps : List ParsedStatement) :
    declaredSchema? (p :: ps) = p.declared?.or (declaredSchema? ps) := by
  unfold declaredSchema?
  rw [List.findSome?_cons]
  cases p.declared? <;> rfl

theorem Schema.withIndexes_append (s : Schema) (first second : List Index) :
    s.withIndexes (first ++ second) = (s.withIndexes first).withIndexes second :=
  List.foldl_append

/-- All schemas that a source declares are the one in the scope behind it. -/
theorem Steps.scope_eq (hsingle : config.singleSchemaPerSource = true)
    (h : Steps config ps scope d scope' d' trace) :
    scope' = scope.or (declaredSchema? ps) ∧
      ∀ p ∈ ps, ∀ name, p.declared? = some name → scope' = some name := by
  induction h with
  | nil => exact ⟨Option.or_none.symm, fun _ hp => absurd hp List.not_mem_nil⟩
  | cons declared _ _ _ ih =>
    obtain ⟨hfirst, hname⟩ := declared.step.scope_eq hsingle
    obtain ⟨hrest, hnames⟩ := ih
    refine ⟨?_, List.forall_mem_cons.2 ⟨fun name hdeclared => ?_, hnames⟩⟩
    · rw [hrest, hfirst, Option.or_assoc, declaredSchema?_cons]
    · rw [hrest, hname name hdeclared, Option.some_or]

/-- A source leaves another schema alone, but for the indexes that it puts on tables of it. -/
theorem Steps.schema?_eq (hsingle : config.singleSchemaPerSource = true)
    (hdefault : n ≠ config.defaultSchema) (h : Steps config ps scope d scope' d' trace)
    (hscope : scope' ≠ some n) :
    ∃ added, (∀ i ∈ added, ∃ p ∈ ps, p.Indexes config n i) ∧
      d'.catalog.schema? n = (d.catalog.schema? n).map (·.withIndexes added) := by
  induction h with
  | nil => exact ⟨[], fun _ hi => absurd hi List.not_mem_nil, Option.map_id'.symm⟩
  | @cons p ps _ scope₁ _ found d mid _ _ _ _ declared _ _ rest ih =>
    have hscope₁ : scope₁ ≠ some n := by
      rintro rfl
      exact hscope ((rest.scope_eq hsingle).1.trans (Option.some_or))
    obtain ⟨first, hfirst, hstep⟩ := declared.step.schema?_eq hsingle hdefault hscope₁
    obtain ⟨later, hlater, hsteps⟩ := ih hscope
    have hregister : (mid.registerDeclared found).catalog.schema? n = mid.catalog.schema? n := by
      refine Draft.schema?_registerDeclared (fun owner ks hfound => ?_) mid
      subst hfound
      exact declared.step.schema_ne hsingle hdefault hscope₁
    refine ⟨first ++ later, fun i hi => ?_, ?_⟩
    · rcases List.mem_append.1 hi with hi | hi
      · exact ⟨p, List.mem_cons_self .., hfirst i hi⟩
      · obtain ⟨p', hp', hindexes⟩ := hlater i hi
        exact ⟨p', List.mem_cons_of_mem _ hp', hindexes⟩
    · rw [hsteps, hregister, hstep, Option.map_map]
      congr 1
      funext s
      exact (s.withIndexes_append first later).symm

end Steps

namespace Builder

variable {config : Config}

/-- A source that is bound to one schema declares no other one, and appends at most indexes to schemas
that are neither the default one nor declared by it. -/
theorem others_of_singleSchema {b : Builder} (hb : Reachable config b)
    (hsingle : config.singleSchemaPerSource = true) {name text : String}
    (h : (b.addSource name text).1 = .ok ()) :
    ∃ ps, Grammar.parseSource name text = .ok ps ∧
      (∀ p ∈ ps, ∀ schema, p.declared? = some schema → declaredSchema? ps = some schema) ∧
      ∀ n, n ≠ config.defaultSchema → declaredSchema? ps ≠ some n →
        ∃ added, (∀ i ∈ added, ∃ p ∈ ps, p.Indexes config n i) ∧
          (b.addSource name text).2.draft.catalog.schema? n =
            (b.draft.catalog.schema? n).map (·.withIndexes added) := by
  cases hps : Grammar.parseSource name text with
  | error e =>
    rw [addSource_of_error hps] at h
    cases h
  | ok ps =>
    rw [addSource_of_ok hps, addParsed_eq] at h ⊢
    have hadd : b.draft.addStatements b.config name ps =
        (.ok (), (b.draft.addStatements b.config name ps).2) := Prod.ext h rfl
    obtain ⟨scope, trace, hsteps⟩ := Draft.exists_steps hadd
    rw [config_of_reachable hb] at hsteps ⊢
    obtain ⟨rfl, hnames⟩ := hsteps.scope_eq hsingle
    refine ⟨ps, rfl, hnames, fun n hdefault hn => ?_⟩
    have hothers := hsteps.schema?_eq hsingle hdefault hn
    exact hothers

def boundConfig : Config := { Config.default with singleSchemaPerSource := true }

/-- A source has declared a schema with a table. -/
def boundBuilder : Builder :=
  ((Builder.ofConfig boundConfig).addSource "a.sql" "create schema s; create table s.t (x int)").2

/-- A source that declares no schema puts an index on the table of one. -/
def strayText : String := "create table u (y int); create index on s.t (x)"

theorem accepts_strayText : (boundBuilder.addSource "b.sql" strayText).1 = .ok () := by
  have hok : (boundBuilder.addSource "b.sql" strayText).1.isOk = true := by decide +kernel
  rcases hadd : (boundBuilder.addSource "b.sql" strayText).1 with e | u
  · rw [hadd] at hok
    cases hok
  · rfl

theorem declared_strayText {ps : List ParsedStatement}
    (h : Grammar.parseSource "b.sql" strayText = .ok ps) : declaredSchema? ps = none := by
  have hnone : (Grammar.parseSource "b.sql" strayText).toOption.bind declaredSchema? = none := by
    decide +kernel
  rwa [h] at hnone

theorem others_strayText :
    (boundBuilder.addSource "b.sql" strayText).1 = .ok () ∧
      ∃ ps, Grammar.parseSource "b.sql" strayText = .ok ps ∧
        ∃ added, (∀ i ∈ added, ∃ p ∈ ps, p.Indexes boundConfig "s" i) ∧
          (boundBuilder.addSource "b.sql" strayText).2.draft.catalog.schema? "s" =
            (boundBuilder.draft.catalog.schema? "s").map (·.withIndexes added) := by
  obtain ⟨ps, hps, -, hothers⟩ :=
    others_of_singleSchema (.addSource .start "a.sql" _) rfl accepts_strayText
  have hdeclared : declaredSchema? ps ≠ some "s" := by simp [declared_strayText hps]
  exact ⟨accepts_strayText, ps, hps, hothers "s" (by decide) hdeclared⟩

/-- A schema that a source does not declare need not be left as it was. -/
theorem not_left_by_strayText :
    ¬∀ (config : Config) (b : Builder) (name text : String) (ps : List ParsedStatement),
      Reachable config b → config.singleSchemaPerSource = true →
        (b.addSource name text).1 = .ok () → Grammar.parseSource name text = .ok ps →
          (∀ p ∈ ps, ∀ schema, p.declared? = some schema → declaredSchema? ps = some schema) ∧
            ∀ n, n ≠ config.defaultSchema → declaredSchema? ps ≠ some n →
              (b.addSource name text).2.draft.catalog.schema? n = b.draft.catalog.schema? n := by
  intro h
  have hchanged : (boundBuilder.addSource "b.sql" strayText).2.draft.catalog.schema? "s" ≠
      boundBuilder.draft.catalog.schema? "s" := by decide +kernel
  cases hps : Grammar.parseSource "b.sql" strayText with
  | error e =>
    have haccepts := accepts_strayText
    rw [addSource_of_error hps] at haccepts
    cases haccepts
  | ok ps =>
    have hdeclared : declaredSchema? ps ≠ some "s" := by simp [declared_strayText hps]
    obtain ⟨-, hothers⟩ := h boundConfig boundBuilder "b.sql" strayText ps (.addSource .start _ _) rfl
      accepts_strayText hps
    exact hchanged (hothers "s" (by decide) hdeclared)

end Builder

end DdlCatalog
